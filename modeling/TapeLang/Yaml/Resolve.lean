import TapeLang.Text.Word
import TapeLang.Yaml.Node

/-! What the text of a plain scalar denotes. -/
namespace TapeLang.Yaml

/-- A binary floating-point number, of which only the integer it is cut to matters: `none` when
no 64-bit integer comes of it. -/
structure Truncated where
  toInt? : Option Int
deriving DecidableEq, Repr

inductive Meaning where
  | null
  | bool
  | int (n : Int)
  | float (x : Truncated)
  | timestamp
  | text
deriving DecidableEq, Repr

def Meaning.tag : Meaning → String
  | .null => "!!null"
  | .bool => "!!bool"
  | .int _ => "!!int"
  | .float _ => "!!float"
  | .timestamp => "!!timestamp"
  | .text => "!!str"

def isDigit (c : Char) : Bool := '0' ≤ c && c ≤ '9'

/-- The value of digits in a base, of which there has to be at least one. -/
def digits? (base : Nat) (cs : List Char) : Option Nat :=
  if cs.isEmpty then none
  else cs.foldlM (fun n c => (Quoted.digit? base c).map (n * base + ·)) 0

/-- An unsigned integer: the base is given by what it starts with. -/
def natural? : List Char → Option Nat
  | '0' :: 'x' :: rest | '0' :: 'X' :: rest => digits? 16 rest
  | '0' :: 'o' :: rest | '0' :: 'O' :: rest => digits? 8 rest
  | '0' :: 'b' :: rest | '0' :: 'B' :: rest => digits? 2 rest
  | '0' :: c :: rest => digits? 8 (c :: rest)
  | cs => digits? 10 cs

/-- A sign, if any, and what follows it. -/
def splitSign : List Char → Option Bool × List Char
  | '-' :: rest => (some true, rest)
  | '+' :: rest => (some false, rest)
  | cs => (none, cs)

/-- An integer with a sign fits into 64 bits signed, one without a sign also unsigned. -/
def integer? (cs : List Char) : Option Int :=
  match splitSign cs with
  | (some true, rest) => (natural? rest).bind fun n => if n ≤ Word.bound then some (-n) else none
  | (some false, rest) => (natural? rest).bind fun n => if n < Word.bound then some n else none
  | (none, rest) => (natural? rest).bind fun n => if n < Word.count then some n else none

/-- A decimal fraction: digits, of which the last `places` are behind the point, and a power
of ten. -/
structure DecimalNumber where
  digits : Nat
  places : Nat
  exponent : Int
deriving DecidableEq, Repr

/-- An exponent with its mark, if there is one. -/
def exponent? : List Char → Option Int
  | [] => some 0
  | c :: rest =>
    if c = 'e' ∨ c = 'E' then
      match splitSign rest with
      | (some true, ds) => if ds.all isDigit then (digits? 10 ds).map (-·) else none
      | (_, ds) => if ds.all isDigit then (digits? 10 ds).map Int.ofNat else none
    else none

/-- A decimal number without sign; there is a digit before or behind the point. -/
def decimal? (cs : List Char) : Option DecimalNumber := do
  let whole := cs.takeWhile isDigit
  let after := cs.dropWhile isDigit
  let (fraction, after) := match after with
    | '.' :: rest => (rest.takeWhile isDigit, rest.dropWhile isDigit)
    | _ => ([], after)
  let digits ← digits? 10 (whole ++ fraction)
  some ⟨digits, fraction.length, ← exponent? after⟩

/-- The quotient to the nearest, a half to the even neighbour. -/
def nearest (p q : Nat) : Nat :=
  let n := p / q
  let twice := 2 * (p % q)
  if twice < q then n else if q < twice then n + 1 else n + n % 2

/-- The number `p / q` in binary with 53 digits, cut to an integer; `none` past the range of
64-bit floating point. -/
def toBinary? (p q : Nat) : Option Nat :=
  if p = 0 then some 0
  else if q ≤ p then
    let k := (p / q).log2
    let n := if k ≤ 52 then nearest (p <<< (52 - k)) q else nearest p (q <<< (k - 52))
    let n := if k ≤ 52 then n >>> (52 - k) else n <<< (k - 52)
    if n < 1 <<< 1024 then some n else none
  else if nearest (p <<< 53) q = 1 <<< 53 then some 1
  else some 0

/-- The magnitude cut to an integer. The exponent is judged first, so that no number beyond
all range is computed. -/
def DecimalNumber.truncate? (d : DecimalNumber) : Option Nat :=
  let power := d.exponent - d.places
  let size : Int := (toString d.digits).length
  if d.digits = 0 then some 0
  else if 400 < size + power then none
  else if size + power < -400 then some 0
  else if 0 ≤ power then toBinary? (d.digits * Nat.pow 10 power.toNat) 1
  else toBinary? d.digits (Nat.pow 10 (-power).toNat)

/-- The 64-bit integer of a cut number. What lies below the range is cut to the least integer,
and so is the first number above it. -/
def Truncated.ofMagnitude (negative : Bool) (n : Nat) : Truncated :=
  if negative then ⟨some (-(min n Word.bound : Nat))⟩
  else if n < Word.bound then ⟨some n⟩
  else if n = Word.bound then ⟨some (-n)⟩
  else ⟨none⟩

def float? (cs : List Char) : Option Truncated :=
  let (sign?, rest) := splitSign cs
  ((decimal? rest).bind DecimalNumber.truncate?).map (.ofMagnitude (sign? == some true))

def daysIn (year month : Nat) : Nat :=
  if month = 2 then
    if year % 4 = 0 ∧ (year % 100 ≠ 0 ∨ year % 400 = 0) then 29 else 28
  else if month = 4 ∨ month = 6 ∨ month = 9 ∨ month = 11 then 30
  else 31

def shortNumber? (cs : List Char) : Option (Nat × List Char) :=
  let ds := (cs.take 2).takeWhile isDigit
  (digits? 10 ds).map (·, cs.drop ds.length)

def expect? (c : Char) : List Char → Option (List Char)
  | x :: rest => if x = c then some rest else none
  | [] => none

/-- A fraction of a second, which may be left out. -/
def skipFraction : List Char → List Char
  | c :: d :: rest =>
    if (c == '.' || c == ',') && isDigit d then rest.dropWhile isDigit else c :: d :: rest
  | cs => cs

/-- A time of day; what follows it. -/
def timeOfDay? (cs : List Char) : Option (List Char) := do
  let (hour, cs) ← shortNumber? cs
  let (minute, cs) ← shortNumber? (← expect? ':' cs)
  let (second, cs) ← shortNumber? (← expect? ':' cs)
  if hour < 24 ∧ minute < 60 ∧ second < 60 then some (skipFraction cs) else none

/-- A time zone: `Z` or an offset. -/
def isZone : List Char → Bool
  | ['Z'] => true
  | [sign, a, b, ':', c, d] =>
    (sign == '+' || sign == '-') && [a, b, c, d].all isDigit &&
      ((digits? 10 [a, b]).any (· ≤ 24)) && ((digits? 10 [c, d]).any (· ≤ 60))
  | _ => false

def isTimestamp (cs : List Char) : Bool :=
  let year := cs.takeWhile isDigit
  let date : Option (List Char) := do
    let y ← digits? 10 year
    let (month, rest) ← shortNumber? (← expect? '-' (cs.drop 4))
    let (day, rest) ← shortNumber? (← expect? '-' rest)
    if 1 ≤ month ∧ month ≤ 12 ∧ 1 ≤ day ∧ day ≤ daysIn y month then some rest else none
  year.length == 4 &&
    match date with
    | none => false
    | some [] => true
    | some (sep :: rest) =>
      match timeOfDay? rest with
      | none => false
      | some zone => if sep == ' ' then zone.isEmpty else (sep == 'T' || sep == 't') && isZone zone

def word? (s : String) : Option Meaning :=
  match s with
  | "" | "~" | "null" | "Null" | "NULL" => some .null
  | "true" | "True" | "TRUE" | "false" | "False" | "FALSE" => some .bool
  | ".nan" | ".NaN" | ".NAN" => some (.float ⟨none⟩)
  | ".inf" | ".Inf" | ".INF" | "+.inf" | "+.Inf" | "+.INF" => some (.float ⟨none⟩)
  | "-.inf" | "-.Inf" | "-.INF" => some (.float (.ofMagnitude true Word.bound))
  | _ => none

/-- The meaning of a text that starts with a digit or a sign; low lines only divide digits. -/
def number (cs : List Char) : Meaning :=
  let bare := cs.filter (· != '_')
  if isTimestamp cs then .timestamp
  else match integer? bare, float? bare with
    | some n, _ => .int n
    | none, some x => .float x
    | none, none => .text

/-- The meaning of a plain scalar. -/
def denote (cs : List Char) : Meaning :=
  match word? (String.ofList cs), cs with
  | some d, _ => d
  | none, [] => .null
  | none, c :: _ =>
    if c = '.' then ((float? cs).map .float).getD .text
    else if isDigit c || c == '+' || c == '-' then number cs
    else .text

end TapeLang.Yaml
