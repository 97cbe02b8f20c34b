/-! The range of 64-bit integers. -/
namespace TapeLang.Word

/-- How many values a word has. -/
def count : Nat := 0x10000000000000000

/-- The first number above all signed words. -/
def bound : Nat := 0x8000000000000000

def isSigned (n : Int) : Bool := -(bound : Int) ≤ n && n < bound

end TapeLang.Word
