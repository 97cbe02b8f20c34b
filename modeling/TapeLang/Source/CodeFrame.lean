import TapeLang.Source.Position

/-! Code frames: the source line that holds a position, with a caret below its character. -/
namespace TapeLang

/-- A line with its number and the number of its characters before the caret. -/
structure CodeFrame where
  line : Int
  text : List Char
  caret : Nat
deriving DecidableEq, Repr

namespace CodeFrame

def isLineChar (c : Char) : Bool := c != '\n'

/-- A line without the carriage return that may end it. -/
def dropReturn (line : List Char) : List Char :=
  if line.getLast? = some '\r' then line.dropLast else line

/-- The offset decides the line: it is moved into the text when it lies outside. There is no
frame for an empty text or a line number below one. -/
def locate? (source : List Char) (pos : Position) : Option CodeFrame :=
  if source.isEmpty ∨ pos.line ≤ 0 then none
  else
    let offset := min pos.offset.toNat source.length
    let before := (source.take offset).reverse.takeWhile isLineChar
    let after := (source.drop offset).takeWhile isLineChar
    let text := dropReturn (before.reverse ++ after)
    some ⟨pos.line, text, min before.length text.length⟩

/-- Tabs before the caret are repeated so that it stays aligned. -/
def padding (f : CodeFrame) : List Char :=
  (f.text.take f.caret).map fun c => if c = '\t' then '\t' else ' '

def render (f : CodeFrame) : String :=
  let label := toString f.line
  let gutter := String.ofList (label.toList.map fun _ => ' ')
  s!"  --> line {label}, column {f.caret + 1}\n {label} | {String.ofList f.text}\n" ++
    s!" {gutter} | {String.ofList f.padding}^"

/-- The rendered frame, empty when there is none. -/
def describe (source : List Char) (pos : Position) : String :=
  ((locate? source pos).map render).getD ""

/-- A headline, followed by the frame on lines of its own when there is one. -/
def below (headline frame : String) : String :=
  if frame.isEmpty then headline else headline ++ "\n" ++ frame

end CodeFrame
end TapeLang
