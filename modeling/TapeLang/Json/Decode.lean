import TapeLang.Json.Read
import TapeLang.Text.Decimal

/-! Filling structures from JSON values. `null` leaves what is there, unknown members are
passed over, a member given again overwrites, and a value of the wrong kind fails the whole. -/
namespace TapeLang.Json

/-- Names are compared without regard to case; two characters beyond ASCII are variants of
letters. -/
def foldCase (c : Char) : Char :=
  if c = '\u017F' then 'S' else if c = '\u212A' then 'K' else c.toUpper

def sameName (raw : Bytes) (name : String) : Bool :=
  (chars raw).map foldCase == name.toList.map foldCase

/-- A member of a structure and how its value is stored. -/
structure Member (α : Type) where
  name : String
  store : α → Value → Option α

namespace Value

def storeMember {α : Type} (fields : List (Member α)) (a : α) (m : Bytes × Value) : Option α :=
  match fields.find? fun f => sameName m.1 f.name with
  | some f => f.store a m.2
  | none => some a

/-- Overwrites a structure by a record. -/
def into? {α : Type} (fields : List (Member α)) (a : α) : Value → Option α
  | .null => some a
  | .record members => members.foldlM (storeMember fields) a
  | _ => none

def intoChars? (old : List Char) : Value → Option (List Char)
  | .null => some old
  | .text raw => some (chars raw)
  | _ => none

def intoInt? (old : Int) : Value → Option Int
  | .null => some old
  | .number literal => (Decimal.read literal).toOption
  | _ => none

end Value
end TapeLang.Json
