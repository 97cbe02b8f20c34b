/-! Places in a source text. -/
namespace TapeLang

/-- A character of a source text: its index from zero, and its line and column from one. A
position given by hand may lie anywhere. -/
structure Position where
  offset : Int
  line : Int
  column : Int
deriving DecidableEq, Repr, Inhabited

namespace Position

def start : Position := ⟨0, 1, 1⟩

/-- The position after a character `c` that stands here; only a line feed ends a line. -/
def advance (p : Position) (c : Char) : Position :=
  if c = '\n' then ⟨p.offset + 1, p.line + 1, 1⟩ else ⟨p.offset + 1, p.line, p.column + 1⟩

end Position
end TapeLang
