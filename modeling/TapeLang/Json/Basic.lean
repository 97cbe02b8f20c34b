import TapeLang.Text.Quoted

/-! JSON values that keep the spelling of their numbers and texts. -/
namespace TapeLang.Json

/-- A number has its literal, a text and a member's name what stands between the quotation
marks. Members are in the order in which they are written. -/
inductive Value where
  | null
  | bool (b : Bool)
  | number (literal : Bytes)
  | text (raw : Bytes)
  | list (items : List Value)
  | record (members : List (Bytes × Value))

def unitEscape (n : Nat) : List Char := '\\' :: 'u' :: Quoted.hex 4 n

/-- Characters that are escaped so that the text is safe inside markup and scripts. -/
def isDelicate (c : Char) : Bool :=
  c == '<' || c == '>' || c == '&' || c == '\u2028' || c == '\u2029'

def protectPiece (p : Utf8.Piece) : Bytes :=
  if isDelicate p.char then Utf8.encode (unitEscape p.char.toNat) else p.bytes

/-- A raw text with its delicate characters escaped; its own escapes stay. -/
def protect (raw : Bytes) : Bytes := (Utf8.pieces raw).flatMap protectPiece

/-- A character as it is written in a text. -/
def escape (c : Char) : List Char :=
  match c with
  | '"' => ['\\', '"']
  | '\\' => ['\\', '\\']
  | '\x08' => ['\\', 'b']
  | '\x0c' => ['\\', 'f']
  | '\n' => ['\\', 'n']
  | '\r' => ['\\', 'r']
  | '\t' => ['\\', 't']
  | c => if c.toNat < 0x20 then unitEscape c.toNat else [c]

def rawText (cs : List Char) : Bytes := Utf8.encode (cs.flatMap escape)

namespace Value

def ofChars (cs : List Char) : Value := .text (rawText cs)

def ofString (s : String) : Value := ofChars s.toList

def ofInt (n : Int) : Value := .number (Bytes.ofString (toString n))

def ofFields (fields : List (String × Value)) : Value :=
  .record (fields.map fun (k, v) => (rawText k.toList, v))

def quoted (raw : Bytes) : Bytes := 0x22 :: (protect raw ++ [0x22])

mutual

/-- The value without blanks. -/
def render : Value → Bytes
  | .null => Bytes.ofString "null"
  | .bool true => Bytes.ofString "true"
  | .bool false => Bytes.ofString "false"
  | .number literal => literal
  | .text raw => quoted raw
  | .list items => 0x5B :: (renderItems items ++ [0x5D])
  | .record members => 0x7B :: (renderMembers members ++ [0x7D])

def renderItems : List Value → Bytes
  | [] => []
  | [v] => render v
  | v :: rest => render v ++ 0x2C :: renderItems rest

def renderMembers : List (Bytes × Value) → Bytes
  | [] => []
  | [(k, v)] => quoted k ++ 0x3A :: render v
  | (k, v) :: rest => quoted k ++ 0x3A :: (render v ++ 0x2C :: renderMembers rest)

end

end Value
end TapeLang.Json
