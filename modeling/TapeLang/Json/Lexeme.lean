import TapeLang.Json.Basic

/-! The lexemes of JSON texts. -/
namespace TapeLang.Json

inductive Lexeme where
  | beginList
  | endList
  | beginRecord
  | endRecord
  | colon
  | comma
  | null
  | bool (b : Bool)
  | number (literal : Bytes)
  | text (raw : Bytes)
deriving DecidableEq, Repr

namespace Lexeme

def isDigit (b : UInt8) : Bool := 0x30 ≤ b.toNat && b.toNat ≤ 0x39

def isLetter (b : UInt8) : Bool := 0x61 ≤ b.toNat && b.toNat ≤ 0x7A

def isHexDigit (b : UInt8) : Bool :=
  isDigit b || (0x61 ≤ b.toNat && b.toNat ≤ 0x66) || (0x41 ≤ b.toNat && b.toNat ≤ 0x46)

/-- The bytes that occur in number literals: digits, signs, the point and the exponent mark. -/
def isNumeric (b : UInt8) : Bool :=
  isDigit b || b == 0x2B || b == 0x2D || b == 0x2E || b == 0x45 || b == 0x65

def isBlankByte (b : UInt8) : Bool := b == 0x20 || b == 0x09 || b == 0x0D || b == 0x0A

/-- At least one digit and nothing else. -/
def allDigits (bs : Bytes) : Bool := !bs.isEmpty && bs.all isDigit

/-- Nothing, or an exponent mark, an optional sign and digits. -/
def isExponent : Bytes → Bool
  | [] => true
  | mark :: rest =>
    (mark == 0x45 || mark == 0x65) &&
      match rest with
      | [] => false
      | sign :: digits =>
        if sign == 0x2B || sign == 0x2D then allDigits digits else allDigits rest

/-- Nothing or a point with digits, and then an exponent. -/
def isFraction : Bytes → Bool
  | [] => true
  | b :: rest =>
    if b == 0x2E then
      !(rest.takeWhile isDigit).isEmpty && isExponent (rest.dropWhile isDigit)
    else isExponent (b :: rest)

/-- Zero or digits that do not start with zero, and then a fraction. -/
def isMagnitude : Bytes → Bool
  | [] => false
  | b :: rest =>
    if b == 0x30 then isFraction rest
    else isDigit b && isFraction (rest.dropWhile isDigit)

def isNumber : Bytes → Bool
  | [] => false
  | b :: rest => if b == 0x2D then isMagnitude rest else isMagnitude (b :: rest)

/-- Where reading stands. The bytes of an unfinished lexeme are kept last first. -/
inductive Mode where
  | between
  | word (letters : Bytes)
  | number (literal : Bytes)
  | text (raw : Bytes)
  | escape (raw : Bytes)
  | unit (left : Nat) (raw : Bytes)
deriving DecidableEq, Repr

/-- The lexemes read so far, last first, and the current mode. -/
structure Reader where
  done : List Lexeme
  mode : Mode
deriving DecidableEq, Repr

/-- Ends a word or a number. -/
def settle? (r : Reader) : Option (List Lexeme) :=
  match r.mode with
  | .between => some r.done
  | .word letters =>
    match Bytes.toText letters.reverse with
    | "null" => some (.null :: r.done)
    | "true" => some (.bool true :: r.done)
    | "false" => some (.bool false :: r.done)
    | _ => none
  | .number literal =>
    if isNumber literal.reverse then some (.number literal.reverse :: r.done) else none
  | _ => none

def start? (done : List Lexeme) (b : UInt8) : Option Reader :=
  if isBlankByte b then some ⟨done, .between⟩
  else if b == 0x22 then some ⟨done, .text []⟩
  else if b == 0x5B then some ⟨.beginList :: done, .between⟩
  else if b == 0x5D then some ⟨.endList :: done, .between⟩
  else if b == 0x7B then some ⟨.beginRecord :: done, .between⟩
  else if b == 0x7D then some ⟨.endRecord :: done, .between⟩
  else if b == 0x3A then some ⟨.colon :: done, .between⟩
  else if b == 0x2C then some ⟨.comma :: done, .between⟩
  else if isLetter b then some ⟨done, .word [b]⟩
  else if isNumeric b then some ⟨done, .number [b]⟩
  else none

/-- The letters of one-letter escapes. -/
def isEscapeLetter (b : UInt8) : Bool :=
  b == 0x22 || b == 0x5C || b == 0x2F || b == 0x62 || b == 0x66 || b == 0x6E || b == 0x72 ||
    b == 0x74

def step? (r : Reader) (b : UInt8) : Option Reader :=
  match r.mode with
  | .between => start? r.done b
  | .word letters =>
    if isLetter b then some ⟨r.done, .word (b :: letters)⟩
    else (settle? r).bind (start? · b)
  | .number literal =>
    if isNumeric b then some ⟨r.done, .number (b :: literal)⟩
    else (settle? r).bind (start? · b)
  | .text raw =>
    if b == 0x22 then some ⟨.text raw.reverse :: r.done, .between⟩
    else if b == 0x5C then some ⟨r.done, .escape (b :: raw)⟩
    else if b.toNat < 0x20 then none
    else some ⟨r.done, .text (b :: raw)⟩
  | .escape raw =>
    if b == 0x75 then some ⟨r.done, .unit 4 (b :: raw)⟩
    else if isEscapeLetter b then some ⟨r.done, .text (b :: raw)⟩
    else none
  | .unit left raw =>
    if !isHexDigit b then none
    else if left ≤ 1 then some ⟨r.done, .text (b :: raw)⟩
    else some ⟨r.done, .unit (left - 1) (b :: raw)⟩

def scan? (bs : Bytes) : Option (List Lexeme) :=
  ((bs.foldlM step? ⟨[], .between⟩).bind settle?).map List.reverse

end Lexeme
end TapeLang.Json
