import TapeLang.Text.Quoted
import TapeLang.Text.White

/-! Text that is queued as input: taken as it is, or quoted. -/
namespace TapeLang.Repl

inductive InputError where
  | missing
  | badQuote
deriving DecidableEq, Repr

def InputError.message : InputError → String
  | .missing => "usage: :input <text>"
  | .badQuote => "invalid quoted input: invalid syntax"

/-- Text that starts with a quotation mark is read as quoted text, white space around it left
out; any other text is taken byte for byte. -/
def readInput (text : Bytes) : Except InputError Bytes :=
  match White.trimBytes text with
  | [] => .error .missing
  | b :: rest =>
    if b = 0x22 then
      match Quoted.unquote? (Utf8.decode (b :: rest)) with
      | some bs => .ok bs
      | none => .error .badQuote
    else .ok text

end TapeLang.Repl
