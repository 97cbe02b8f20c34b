import TapeLang.Text.Utf8

/-! White space at the ends of a text. -/
namespace TapeLang.White

def isWhite (c : Char) : Bool :=
  let n := c.toNat
  (0x09 ≤ n && n ≤ 0x0D) || n == 0x20 || n == 0x85 || n == 0xA0 || n == 0x1680 ||
    (0x2000 ≤ n && n ≤ 0x200A) || n == 0x2028 || n == 0x2029 || n == 0x202F || n == 0x205F ||
    n == 0x3000

/-- Removes what satisfies `p` from the end of a list. -/
def dropEnd {α : Type} (p : α → Bool) (xs : List α) : List α :=
  (xs.reverse.dropWhile p).reverse

def trim (cs : List Char) : List Char := dropEnd isWhite (cs.dropWhile isWhite)

/-- Trimming sees the characters of the bytes; an ill-formed byte is never white. -/
def trimBytes (bs : Bytes) : Bytes :=
  let white (p : Utf8.Piece) : Bool := isWhite p.char
  (dropEnd white ((Utf8.pieces bs).dropWhile white)).flatMap Utf8.Piece.bytes

end TapeLang.White
