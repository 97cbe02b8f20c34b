import TapeLang.Text.Utf8

/-! Reading YAML text character by character. -/
namespace TapeLang.Yaml

/-- The text still to be read, and where it starts: lines count from one, columns from zero. -/
structure Cursor where
  rest : List Char
  line : Nat
  column : Nat
deriving DecidableEq, Repr

def isSpaceOrTab (c : Char) : Bool := c == ' ' || c == '\t'

/-- The text ends here, or a blank or a line end comes next. -/
def blankNext : List Char → Bool
  | [] => true
  | c :: _ => isSpaceOrTab c || c == '\n'

/-- Every way to end a line becomes a line feed. -/
def unifyLineEnds : List Char → List Char
  | [] => []
  | '\r' :: '\n' :: rest => '\n' :: unifyLineEnds rest
  | c :: rest =>
    (if c = '\r' ∨ c = '\u0085' ∨ c = '\u2028' ∨ c = '\u2029' then '\n' else c) ::
      unifyLineEnds rest

def isAllowed (c : Char) : Bool :=
  let n := c.toNat
  n == 0x09 || n == 0x0A || n == 0x0D || (0x20 ≤ n && n ≤ 0x7E) || n == 0x85 ||
    (0xA0 ≤ n && n ≤ 0xFFFD) || 0x10000 ≤ n

/-- The characters of a file, without a byte order mark. Files that are no text have none. -/
def characters? (bytes : Bytes) : Option (List Char) :=
  let cs := Utf8.decode bytes
  let cs := if cs.head? = some '\uFEFF' then cs.drop 1 else cs
  if Utf8.isValid bytes && cs.all isAllowed then some (unifyLineEnds cs) else none

namespace Cursor

def ofText (cs : List Char) : Cursor := ⟨cs, 1, 0⟩

def atEnd (c : Cursor) : Bool := c.rest.isEmpty

/-- Goes past characters of the same line. -/
def skip (c : Cursor) (n : Nat) : Cursor := ⟨c.rest.drop n, c.line, c.column + n⟩

/-- Three dashes or points at the start of a line bound documents. -/
def atMarker (c : Cursor) : Bool :=
  c.column == 0 && blankNext (c.rest.drop 3) &&
    (c.rest.take 3 == ['-', '-', '-'] || c.rest.take 3 == ['.', '.', '.'])

def atDocumentStart (c : Cursor) : Bool := c.atMarker && c.rest.head? == some '-'

/-- A character that stands alone. -/
def atIndicator (c : Cursor) (x : Char) : Bool :=
  c.rest.head? == some x && blankNext (c.rest.drop 1)

/-- The next characters that are not a gap: blanks, comments and line ends. Outside flow
collections a tab is refused where the line is `fresh`, so that it cannot indent. -/
def skipGapFrom (flow fresh comment : Bool) (line column : Nat) : List Char → Option Cursor
  | [] => some ⟨[], line, column⟩
  | c :: rest =>
    if c = '\n' then skipGapFrom flow true false (line + 1) 0 rest
    else if comment then skipGapFrom flow fresh true line (column + 1) rest
    else if c = ' ' then skipGapFrom flow fresh false line (column + 1) rest
    else if c = '\t' then
      if flow || !fresh then skipGapFrom flow fresh false line (column + 1) rest else none
    else if c = '#' then skipGapFrom flow fresh true line (column + 1) rest
    else some ⟨c :: rest, line, column⟩

def skipGap? (flow fresh : Bool) (c : Cursor) : Option Cursor :=
  skipGapFrom flow fresh false c.line c.column c.rest

def skipBlanks (c : Cursor) : Cursor := c.skip (c.rest.takeWhile isSpaceOrTab).length

end Cursor
end TapeLang.Yaml
