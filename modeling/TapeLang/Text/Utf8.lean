/-! UTF-8 between byte strings and characters. Decoding never fails: a byte that does not
start a well-formed sequence stands for one replacement character, and the next sequence is
looked for right after it. -/
namespace TapeLang

abbrev Bytes := List UInt8

namespace Utf8

/-- What an ill-formed byte decodes to. -/
def replacement : Char := '\uFFFD'

def isContinuation (b : UInt8) : Bool := 0x80 ≤ b.toNat && b.toNat < 0xC0

/-- The six low bits of a continuation byte. -/
def low (b : UInt8) : Nat := b.toNat % 64

/-- The character with code `n` when a sequence that long may spell it. -/
def wellFormed? (least n : Nat) : Option Char :=
  if least ≤ n ∧ n.isValidChar then some (Char.ofNat n) else none

/-- The character of the multi-byte sequence that starts with `b`, with the number of
continuation bytes it takes from `rest`. -/
def sequence? (b : UInt8) (rest : Bytes) : Option (Char × Nat) :=
  let n := b.toNat
  if n < 0xC0 then none
  else if n < 0xE0 then
    match rest with
    | b₁ :: _ =>
      if isContinuation b₁ then
        (wellFormed? 0x80 ((n - 0xC0) * 64 + low b₁)).map (·, 1)
      else none
    | _ => none
  else if n < 0xF0 then
    match rest with
    | b₁ :: b₂ :: _ =>
      if isContinuation b₁ && isContinuation b₂ then
        (wellFormed? 0x800 (((n - 0xE0) * 64 + low b₁) * 64 + low b₂)).map (·, 2)
      else none
    | _ => none
  else if n < 0xF8 then
    match rest with
    | b₁ :: b₂ :: b₃ :: _ =>
      if isContinuation b₁ && isContinuation b₂ && isContinuation b₃ then
        (wellFormed? 0x10000
          ((((n - 0xF0) * 64 + low b₁) * 64 + low b₂) * 64 + low b₃)).map (·, 3)
      else none
    | _ => none
  else none

/-- The first character of `b :: rest` and how many bytes of `rest` belong to it. -/
def head (b : UInt8) (rest : Bytes) : Char × Nat :=
  if b.toNat < 0x80 then (Char.ofNat b.toNat, 0)
  else (sequence? b rest).getD (replacement, 0)

/-- A character of a byte string with the bytes that spell it there. -/
structure Piece where
  char : Char
  bytes : Bytes
deriving DecidableEq, Repr

/-- Cuts into pieces; `skip` counts the bytes that the last one already took. -/
def piecesFrom (acc : List Piece) (skip : Nat) : Bytes → List Piece
  | [] => acc.reverse
  | b :: rest =>
    match skip with
    | k + 1 => piecesFrom acc k rest
    | 0 =>
      let (c, k) := head b rest
      piecesFrom (⟨c, b :: rest.take k⟩ :: acc) k rest

/-- A byte string cut into its characters; the pieces' bytes concatenate to it. -/
def pieces (bs : Bytes) : List Piece := piecesFrom [] 0 bs

def decode (bs : Bytes) : List Char := (pieces bs).map Piece.char

def encodeChar (c : Char) : Bytes :=
  let n := c.toNat
  if n < 0x80 then [UInt8.ofNat n]
  else if n < 0x800 then [UInt8.ofNat (0xC0 + n / 64), UInt8.ofNat (0x80 + n % 64)]
  else if n < 0x10000 then
    [UInt8.ofNat (0xE0 + n / 4096), UInt8.ofNat (0x80 + n / 64 % 64), UInt8.ofNat (0x80 + n % 64)]
  else
    [UInt8.ofNat (0xF0 + n / 262144), UInt8.ofNat (0x80 + n / 4096 % 64),
      UInt8.ofNat (0x80 + n / 64 % 64), UInt8.ofNat (0x80 + n % 64)]

def encode (cs : List Char) : Bytes := cs.flatMap encodeChar

/-- A piece is faithful when its bytes are the character's own encoding, which fails only for
an ill-formed byte. -/
def Piece.faithful (p : Piece) : Bool := p.bytes == encodeChar p.char

def isValid (bs : Bytes) : Bool := (pieces bs).all Piece.faithful

end Utf8

def Bytes.ofString (s : String) : Bytes := Utf8.encode s.toList

/-- The text of a byte string, ill-formed bytes replaced. -/
def Bytes.toText (bs : Bytes) : String := String.ofList (Utf8.decode bs)

end TapeLang
