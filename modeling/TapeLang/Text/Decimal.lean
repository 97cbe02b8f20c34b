import TapeLang.Text.Utf8
import TapeLang.Text.Word

/-! Signed 64-bit integers in decimal: an optional sign and at least one digit. -/
namespace TapeLang.Decimal

inductive ReadError where
  | malformed
  | outOfRange
deriving DecidableEq, Repr

def ReadError.message : ReadError → String
  | .malformed => "invalid syntax"
  | .outOfRange => "value out of range"

/-- The digits are read from the left, so a value past 64 bits is reported before a later
character that is no digit. -/
def magnitude (acc : Nat) : Bytes → Except ReadError Nat
  | [] => .ok acc
  | b :: rest =>
    let d := b.toNat - 0x30
    if b.toNat < 0x30 ∨ 0x39 < b.toNat then .error .malformed
    else if Word.count ≤ acc * 10 + d then .error .outOfRange
    else magnitude (acc * 10 + d) rest

def unsigned (bs : Bytes) : Except ReadError Nat :=
  if bs.isEmpty then .error .malformed else magnitude 0 bs

def read (bs : Bytes) : Except ReadError Int := do
  let n : Int ← match bs with
    | 0x2D :: rest => do pure (-(← unsigned rest : Int))
    | 0x2B :: rest => do pure (← unsigned rest : Int)
    | _ => do pure (← unsigned bs : Int)
  if Word.isSigned n then .ok n else .error .outOfRange

end TapeLang.Decimal
