import TapeLang.Json.Lexeme

/-! Reading JSON texts and the characters of their strings. -/
namespace TapeLang.Json

def maxDepth : Nat := 10000

/-- A container around the value being read: what it holds already, last first, and the name
of the member. -/
inductive Context where
  | list (items : List Value)
  | member (members : List (Bytes × Value)) (name : Bytes)

/-- What has been read last: nothing of a value, a bracket, a name, or a whole value. A record
between members is kept here. -/
inductive Expect where
  | value
  | firstItem
  | name (members : List (Bytes × Value))
  | colon (members : List (Bytes × Value)) (name : Bytes)
  | after (v : Value)

structure TreeReader where
  depth : Nat
  around : List Context
  expect : Expect

namespace TreeReader

/-- A lexeme that is a value or starts one. -/
def value? (r : TreeReader) : Lexeme → Option TreeReader
  | .null => some { r with expect := .after .null }
  | .bool b => some { r with expect := .after (.bool b) }
  | .number literal => some { r with expect := .after (.number literal) }
  | .text raw => some { r with expect := .after (.text raw) }
  | .beginList =>
    if r.depth < maxDepth then some ⟨r.depth + 1, .list [] :: r.around, .firstItem⟩ else none
  | .beginRecord =>
    if r.depth < maxDepth then some { r with depth := r.depth + 1, expect := .name [] } else none
  | _ => none

def next? (r : TreeReader) (v : Value) (l : Lexeme) : Option TreeReader :=
  match r.around with
  | .list items :: around =>
    match l with
    | .comma => some ⟨r.depth, .list (v :: items) :: around, .value⟩
    | .endList => some ⟨r.depth - 1, around, .after (.list (v :: items).reverse)⟩
    | _ => none
  | .member members name :: around =>
    match l with
    | .comma => some ⟨r.depth, around, .name ((name, v) :: members)⟩
    | .endRecord => some ⟨r.depth - 1, around, .after (.record ((name, v) :: members).reverse)⟩
    | _ => none
  | [] => none

def step? (r : TreeReader) (l : Lexeme) : Option TreeReader :=
  match r.expect with
  | .value => r.value? l
  | .firstItem =>
    match l with
    | .endList => some ⟨r.depth - 1, r.around.drop 1, .after (.list [])⟩
    | _ => r.value? l
  | .name members =>
    match l with
    | .text raw => some { r with expect := .colon members raw }
    | .endRecord =>
      if members.isEmpty then some ⟨r.depth - 1, r.around, .after (.record [])⟩ else none
    | _ => none
  | .colon members name =>
    match l with
    | .colon => some { r with around := .member members name :: r.around, expect := .value }
    | _ => none
  | .after v => r.next? v l

end TreeReader

/-- The value of a text that is one JSON value with blanks around it. -/
def Value.read? (bs : Bytes) : Option Value := do
  let r ← (← Lexeme.scan? bs).foldlM TreeReader.step? ⟨0, [], .value⟩
  match r.around, r.expect with
  | [], .after v => some v
  | _, _ => none

/-- A character of a raw text, or a UTF-16 unit given by number. -/
inductive Spelled where
  | char (c : Char)
  | unit (n : Nat)
deriving DecidableEq, Repr

/-- Where reading a raw text stands: outside escapes, after a backslash, or inside a unit. -/
inductive Escape where
  | none
  | letter
  | unit (left value : Nat)
deriving DecidableEq, Repr

def letterChar (c : Char) : Char :=
  match c with
  | 'b' => '\x08'
  | 'f' => '\x0c'
  | 'n' => '\n'
  | 'r' => '\r'
  | 't' => '\t'
  | c => c

def spelledFrom (acc : List Spelled) : Escape → List Char → List Spelled
  | _, [] => acc.reverse
  | .none, c :: rest =>
    if c = '\\' then spelledFrom acc .letter rest else spelledFrom (.char c :: acc) .none rest
  | .letter, c :: rest =>
    if c = 'u' then spelledFrom acc (.unit 4 0) rest
    else spelledFrom (.char (letterChar c) :: acc) .none rest
  | .unit left value, c :: rest =>
    let value := value * 16 + (Quoted.digit? 16 c).getD 0
    if left ≤ 1 then spelledFrom (.unit value :: acc) .none rest
    else spelledFrom acc (.unit (left - 1) value) rest

def isHighSurrogate (n : Nat) : Bool := 0xD800 ≤ n && n < 0xDC00

def isLowSurrogate (n : Nat) : Bool := 0xDC00 ≤ n && n < 0xE000

/-- A unit that is no character by itself is replaced. -/
def unitChar (n : Nat) : Char := if n.isValidChar then Char.ofNat n else Utf8.replacement

/-- Joins surrogate pairs. The characters so far are in `acc`, last first. -/
def joinFrom (acc : List Char) : List Spelled → List Char
  | [] => acc.reverse
  | .char c :: rest => joinFrom (c :: acc) rest
  | .unit h :: .unit l :: rest =>
    if isHighSurrogate h && isLowSurrogate l then
      joinFrom (Char.ofNat (0x10000 + (h - 0xD800) * 0x400 + (l - 0xDC00)) :: acc) rest
    else joinFrom (unitChar h :: acc) (.unit l :: rest)
  | .unit n :: rest => joinFrom (unitChar n :: acc) rest

def chars (raw : Bytes) : List Char := joinFrom [] (spelledFrom [] .none (Utf8.decode raw))

end TapeLang.Json
