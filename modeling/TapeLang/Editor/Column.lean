import TapeLang.Text.Utf8
import TapeLang.Text.White
import TapeLang.Text.Word

/-! Lines and columns as editors count them: lines from zero, columns in UTF-16 units. -/
namespace TapeLang.Editor

/-- The number of UTF-16 units of a character. -/
def units (c : Char) : Nat := if c.toNat < 0x10000 then 1 else 2

def unitLength (cs : List Char) : Nat := cs.foldr (fun c n => units c + n) 0

/-- The units before a column; past the end of the line a column is one unit. -/
def unitsBefore (line : List Char) (column : Nat) : Nat :=
  unitLength (line.take column) + (column - line.length)

/-- The unit column of a column, a signed 64-bit number. There is none below column zero. -/
def unitColumn? (line : List Char) (column : Int) : Option Int :=
  if column < 0 then none else some (Int.bmod (unitsBefore line column.toNat) Word.count)

/-- Goes on when `index` characters with `passed` units are behind. -/
def columnFrom (character : Int) (index passed : Nat) : List Char → Nat
  | [] => index + (character - passed).toNat
  | c :: rest =>
    if character ≤ passed then index else columnFrom character (index + 1) (passed + units c) rest

/-- The least column with at least `character` units before it. -/
def columnAt (line : List Char) (character : Int) : Nat := columnFrom character 0 0 line

def linesFrom (line : Bytes) (acc : List Bytes) : Bytes → List Bytes
  | [] => (line.reverse :: acc).reverse
  | b :: rest =>
    if b = 0x0A then linesFrom [] (line.reverse :: acc) rest else linesFrom (b :: line) acc rest

/-- The lines of a text, which line feeds separate. -/
def lines (source : Bytes) : List Bytes := linesFrom [] [] source

/-- The characters of each line, without the carriage returns that end it. -/
def rows (source : Bytes) : List (List Char) :=
  (lines source).map fun bs => Utf8.decode (White.dropEnd (· == 0x0D) bs)

/-- The row of a line, whose number may lie anywhere. -/
def line? (source : Bytes) (line : Int) : Option (List Char) :=
  if line < 0 then none else (rows source)[line.toNat]?

end TapeLang.Editor
