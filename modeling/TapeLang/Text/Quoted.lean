import TapeLang.Text.Printable
import TapeLang.Text.Utf8

/-! Quoted text. Printable characters stand for themselves, all others are written as escapes,
and a byte that is not part of a well-formed sequence is written as a byte escape, so every
byte string has a quoted form that reads back to it. -/
namespace TapeLang.Quoted
open Printable (isPrintable)

/-- The last `width` hexadecimal digits of `n`. -/
def hex : (width n : Nat) → List Char
  | 0, _ => []
  | w + 1, n => hex w (n / 16) ++ [Nat.digitChar (n % 16)]

def letter? (c : Char) : Option Char :=
  match c.toNat with
  | 7 => some 'a'
  | 8 => some 'b'
  | 9 => some 't'
  | 10 => some 'n'
  | 11 => some 'v'
  | 12 => some 'f'
  | 13 => some 'r'
  | _ => none

def byteEscape (n : Nat) : List Char := '\\' :: 'x' :: hex 2 n

/-- One character between quotation marks `mark`. -/
def escape (mark c : Char) : List Char :=
  if c = mark ∨ c = '\\' then ['\\', c]
  else if isPrintable c then [c]
  else match letter? c with
    | some l => ['\\', l]
    | none =>
      if c.toNat < 0x80 then byteEscape c.toNat
      else if c.toNat < 0x10000 then '\\' :: 'u' :: hex 4 c.toNat
      else '\\' :: 'U' :: hex 8 c.toNat

def quoteChar (c : Char) : String := String.ofList ('\'' :: escape '\'' c ++ ['\''])

def escapePiece (p : Utf8.Piece) : List Char :=
  if p.faithful then escape '"' p.char else p.bytes.flatMap fun b => byteEscape b.toNat

def quote (bs : Bytes) : List Char := '"' :: (Utf8.pieces bs).flatMap escapePiece ++ ['"']

def quoteText (bs : Bytes) : String := String.ofList (quote bs)

/-- What an escape by number denotes: a single byte, or a character written in UTF-8. -/
inductive Target where
  | byte
  | char
deriving DecidableEq, Repr

/-- Where reading stands: in plain text, after a backslash, or inside a number with `left`
digits still to come. -/
inductive Mode where
  | text
  | escape
  | digits (target : Target) (base left value : Nat)
deriving DecidableEq, Repr

def digit? (base : Nat) (c : Char) : Option Nat :=
  let n := c.toNat
  let d :=
    if 0x30 ≤ n ∧ n ≤ 0x39 then n - 0x30
    else if 0x61 ≤ n ∧ n ≤ 0x66 then n - 0x61 + 10
    else if 0x41 ≤ n ∧ n ≤ 0x46 then n - 0x41 + 10
    else base
  if d < base then some d else none

/-- The bytes of an escape by number; a byte has to fit and a character has to exist. -/
def Target.bytes? : Target → Nat → Option Bytes
  | .byte, v => if v < 256 then some [UInt8.ofNat v] else none
  | .char, v => if v.isValidChar then some (Utf8.encodeChar (Char.ofNat v)) else none

def afterBackslash? (c : Char) : Option (UInt8 ⊕ Mode) :=
  match c with
  | 'a' => some (.inl 7)
  | 'b' => some (.inl 8)
  | 't' => some (.inl 9)
  | 'n' => some (.inl 10)
  | 'v' => some (.inl 11)
  | 'f' => some (.inl 12)
  | 'r' => some (.inl 13)
  | '\\' => some (.inl 0x5C)
  | '"' => some (.inl 0x22)
  | 'x' => some (.inr (.digits .byte 16 2 0))
  | 'u' => some (.inr (.digits .char 16 4 0))
  | 'U' => some (.inr (.digits .char 16 8 0))
  | _ => (digit? 8 c).map fun d => .inr (.digits .byte 8 2 d)

/-- Reads up to the closing mark, which has to be the last character. The bytes read so far
are in `acc`, last first. -/
def unquoteFrom (acc : Bytes) : Mode → List Char → Option Bytes
  | _, [] => none
  | .text, c :: rest =>
    if c = '"' then
      if rest.isEmpty then some acc.reverse else none
    else if c = '\n' then none
    else if c = '\\' then unquoteFrom acc .escape rest
    else unquoteFrom ((Utf8.encodeChar c).reverse ++ acc) .text rest
  | .escape, c :: rest =>
    match afterBackslash? c with
    | some (.inl b) => unquoteFrom (b :: acc) .text rest
    | some (.inr m) => unquoteFrom acc m rest
    | none => none
  | .digits target base left value, c :: rest =>
    match digit? base c with
    | none => none
    | some d =>
      if left ≤ 1 then
        match target.bytes? (value * base + d) with
        | some bs => unquoteFrom (bs.reverse ++ acc) .text rest
        | none => none
      else unquoteFrom acc (.digits target base (left - 1) (value * base + d)) rest

/-- The byte string of a text in double quotation marks. -/
def unquote? : List Char → Option Bytes
  | c :: rest => if c = '"' then unquoteFrom [] .text rest else none
  | [] => none

end TapeLang.Quoted
