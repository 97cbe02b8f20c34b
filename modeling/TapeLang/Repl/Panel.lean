import TapeLang.Machine.Basic

/-! Text in rectangles. -/
namespace TapeLang.Repl.Panel

def splitFrom (line : List Char) (acc : List (List Char)) : List Char → List (List Char)
  | [] => (line.reverse :: acc).reverse
  | c :: rest =>
    if c = '\n' then splitFrom [] (line.reverse :: acc) rest else splitFrom (c :: line) acc rest

def split (cs : List Char) : List (List Char) := splitFrom [] [] cs

def join (lines : List (List Char)) : List Char := (lines.intersperse ['\n']).flatten

def padTo (width : Nat) (line : List Char) : List Char :=
  line ++ List.replicate (width - line.length) ' '

def widest (lines : List (List Char)) : Nat := lines.foldl (fun n l => max n l.length) 0

def square (lines : List (List Char)) : List (List Char) := lines.map (padTo (widest lines))

/-- Tabs become four spaces and line ends line feeds. -/
def plain : List Char → List Char
  | [] => []
  | '\t' :: rest => ' ' :: ' ' :: ' ' :: ' ' :: plain rest
  | '\r' :: '\n' :: rest => '\n' :: plain rest
  | c :: rest => c :: plain rest

/-- A text as it is laid out: its lines are filled up to the widest. -/
def styled (s : String) : String := String.ofList (join (square (split (plain s.toList))))

/-- A box around lines, with a space at both sides. -/
def boxed (lines : List (List Char)) : String :=
  let inner := square lines
  let rule := List.replicate (widest lines + 2) '─'
  let row (l : List Char) : List Char := '│' :: ' ' :: l ++ [' ', '│']
  String.ofList
    (join ((('╭' :: rule) ++ ['╮']) :: inner.map row ++ [('╰' :: rule) ++ ['╯']]))

def alignRight (width n : Nat) : List Char :=
  let digits := (toString n).toList
  List.replicate (width - digits.length) ' ' ++ digits

/-- The cells around the pointer below their indices. -/
def tape {σ : Type} (m : Machine σ) (radius : Int) : String :=
  let (first, cells) := m.window radius
  let columns := cells.zipIdx.map fun (x, i) =>
    let width := max (toString (first + i)).length 3
    (alignRight width (first + i), alignRight width x.toNat)
  let row (items : List (List Char)) : List Char := (items.intersperse [' ']).flatten
  boxed ["Tape".toList, row (columns.map Prod.fst), row (columns.map Prod.snd)]

/-- The keys and commands that are explained. -/
def topics : List (String × String) := [
  ("↑/↓", "Navigate line history"),
  ("Enter", "Execute instructions"),
  (":help", "Toggle this help"),
  (":tape", "Toggle tape panel"),
  (":input", "Queue input bytes for ','"),
  (":clear", "Clear history"),
  (":reset", "Zero the tape and pointer"),
  (":quit", "Exit REPL")]

def help : String :=
  boxed ("Help".toList :: topics.map fun (key, use) =>
    ' ' :: ' ' :: padTo 8 key.toList ++ ' ' :: ' ' :: use.toList)

end TapeLang.Repl.Panel
