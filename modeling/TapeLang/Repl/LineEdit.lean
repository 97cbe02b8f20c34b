import TapeLang.Text.White

/-! A line of text that is edited key by key and shown through a window of limited width. -/
namespace TapeLang.Repl

/-- A key by its name, with the characters it types. Typed text names itself. -/
structure Key where
  name : String
  text : List Char
deriving DecidableEq, Repr

/-- The text, the cursor, the part of the text from `first` up to before `last` that is
visible, and the width of the window, not limited unless positive. -/
structure LineEdit where
  value : List Char
  cursor : Nat
  first : Nat
  last : Nat
  width : Int
deriving DecidableEq, Repr

namespace LineEdit

def maxLength : Nat := 2000

def empty (width : Int) : LineEdit := ⟨[], 0, 0, 0, width⟩

def isControl (c : Char) : Bool := c.toNat < 0x20 || (0x7F ≤ c.toNat && c.toNat ≤ 0x9F)

/-- Tabs and line ends become spaces; replacement and other control characters are dropped. -/
def sanitize (cs : List Char) : List Char :=
  cs.filterMap fun c =>
    if c = '\t' ∨ c = '\n' ∨ c = '\r' then some ' '
    else if c = Utf8.replacement ∨ isControl c then none
    else some c

/-- Moves the visible part so that the cursor is inside or right behind it. -/
def scroll (l : LineEdit) : LineEdit :=
  if l.width ≤ 0 ∨ (l.value.length : Int) ≤ l.width then
    { l with first := 0, last := l.value.length }
  else
    let width := l.width.toNat
    let last := min l.last l.value.length
    if l.cursor < l.first then
      { l with first := l.cursor, last := l.cursor + min (l.value.length - l.cursor) (width + 1) }
    else if last ≤ l.cursor then
      { l with first := if l.cursor = 0 then 0 else max 1 (l.cursor - width), last := l.cursor }
    else { l with last }

def moveTo (l : LineEdit) (cursor : Nat) : LineEdit :=
  scroll { l with cursor := min cursor l.value.length }

/-- Moves one by one, so that the window follows every place on the way. -/
def back : Nat → LineEdit → LineEdit
  | 0, l => l
  | n + 1, l => back n (l.moveTo (l.cursor - 1))

def forth : Nat → LineEdit → LineEdit
  | 0, l => l
  | n + 1, l => forth n (l.moveTo (l.cursor + 1))

/-- Replaces the text. The cursor goes to the end when it would lie outside, or when it stood
in an empty line. -/
def replace (l : LineEdit) (value : List Char) : LineEdit :=
  let fresh := { l with value := value.take maxLength }
  let fresh :=
    if (l.cursor = 0 ∧ l.value.isEmpty) ∨ fresh.value.length < l.cursor then
      fresh.moveTo fresh.value.length
    else fresh
  scroll fresh

def setText (l : LineEdit) (cs : List Char) : LineEdit := l.replace (sanitize cs)

/-- Types characters at the cursor, as many as there is room for. -/
def insert (l : LineEdit) (cs : List Char) : LineEdit :=
  let room := maxLength - l.value.length
  if room = 0 then l
  else
    let typed := (sanitize cs).take room
    let value := l.value.take l.cursor ++ typed ++ l.value.drop l.cursor
    { l with cursor := l.cursor + typed.length }.replace value

/-- The length of the white space from the cursor on and of the word behind it. -/
def runAfter (l : LineEdit) : Nat :=
  let after := l.value.drop l.cursor
  (after.takeWhile White.isWhite).length +
    ((after.dropWhile White.isWhite).takeWhile (!White.isWhite ·)).length

/-- The length of the white space up to the cursor and of the word before it. -/
def runBefore (l : LineEdit) : Nat :=
  let before := (l.value.take l.cursor).reverse
  (before.takeWhile White.isWhite).length +
    ((before.dropWhile White.isWhite).takeWhile (!White.isWhite ·)).length

def wordBackward (l : LineEdit) : LineEdit := back l.runBefore l

def wordForward (l : LineEdit) : LineEdit := forth l.runAfter l

def deleteBackward (l : LineEdit) : LineEdit :=
  if l.cursor = 0 then l
  else
    { l with value := l.value.take (l.cursor - 1) ++ l.value.drop l.cursor }.moveTo (l.cursor - 1)

def deleteForward (l : LineEdit) : LineEdit :=
  { l with value := l.value.take l.cursor ++ l.value.drop (l.cursor + 1) }

def deleteBefore (l : LineEdit) : LineEdit :=
  { l with value := l.value.drop l.cursor, first := 0 }.moveTo 0

/-- Moves back over white space, at most to the first character. -/
def skipWhite : Nat → LineEdit → LineEdit
  | 0, l => l
  | n + 1, l =>
    if l.cursor = 0 ∨ !((l.value[l.cursor]?).any White.isWhite) then l
    else skipWhite n (l.moveTo (l.cursor - 1))

/-- Moves back to the first character of a word. -/
def skipWord : Nat → LineEdit → LineEdit
  | 0, l => l
  | n + 1, l =>
    if l.cursor = 0 then l
    else if (l.value[l.cursor]?).any White.isWhite then l.moveTo (l.cursor + 1)
    else skipWord n (l.moveTo (l.cursor - 1))

def deleteWordBackward (l : LineEdit) : LineEdit :=
  if l.cursor = 0 then l
  else
    let moved := skipWord l.cursor (skipWhite l.cursor (l.moveTo (l.cursor - 1)))
    { moved with value := l.value.take moved.cursor ++ l.value.drop l.cursor }

/-- Deletes up to the end of the next word. There has to be a character behind the one at the
cursor. -/
def deleteWordForward? (l : LineEdit) : Option LineEdit :=
  if l.value.length ≤ l.cursor then some l
  else if l.value.length ≤ l.cursor + 1 then none
  else
    let next := l.moveTo (l.cursor + 1)
    let moved := forth next.runAfter next
    let value := l.value.take l.cursor ++ l.value.drop moved.cursor
    some ({ moved with value }.moveTo l.cursor)

/-- Presses a key; a key without an action types its text. Only the deletion of a word forward
can fail. -/
def press? (l : LineEdit) (key : Key) : Option LineEdit :=
  match key.name with
  | "left" | "ctrl+b" => some (l.moveTo (l.cursor - 1)).scroll
  | "right" | "ctrl+f" => some (l.moveTo (l.cursor + 1)).scroll
  | "home" | "ctrl+a" => some (l.moveTo 0).scroll
  | "end" | "ctrl+e" => some (l.moveTo l.value.length).scroll
  | "backspace" | "ctrl+h" => some l.deleteBackward.scroll
  | "delete" | "ctrl+d" => some l.deleteForward.scroll
  | "ctrl+u" => some l.deleteBefore.scroll
  | "ctrl+w" | "alt+backspace" => some l.deleteWordBackward.scroll
  | "ctrl+left" | "alt+left" | "alt+b" => some l.wordBackward.scroll
  | "ctrl+right" | "alt+right" | "alt+f" => some l.wordForward.scroll
  | "alt+d" | "alt+delete" => l.deleteWordForward?.map scroll
  | "ctrl+n" | "ctrl+p" => some l.scroll
  | "ctrl+v" => some l
  | _ => some (l.insert key.text).scroll

/-- The text of the line: its visible part with the cursor, filled up to the width. An empty
line shows `hint` instead, which needs a window of at least no width. -/
def view? (l : LineEdit) (hint : List Char) : Option (List Char) :=
  if l.value.isEmpty then
    if l.width < 0 then none
    else
      let width := l.width.toNat
      if width = 0 then some (hint.take 1)
      else
        let shown := min hint.length (width + 1)
        some (hint.take shown ++ List.replicate (width + 1 - hint.length) ' ')
  else
    let visible := (l.value.drop l.first).take (l.last - l.first)
    let atEnd := visible.length ≤ l.cursor - l.first
    let padding :=
      if 0 < l.width ∧ (visible.length : Int) ≤ l.width then
        l.width.toNat - visible.length + if atEnd then 0 else 1
      else 0
    some (visible ++ (if atEnd then [' '] else []) ++ List.replicate padding ' ')

end LineEdit
end TapeLang.Repl
