import TapeLang.Channel.Basic
import TapeLang.Text.Utf8

/-! A channel in memory. -/
namespace TapeLang

/-- Input not yet read and output written so far. -/
structure Buffer where
  input : Bytes
  output : Array UInt8
deriving DecidableEq, Repr

namespace Buffer

def ofInput (input : Bytes) : Buffer := ⟨input, #[]⟩

def empty : Buffer := ofInput []

/-- Adds bytes behind the pending input. -/
def feed (b : Buffer) (bs : Bytes) : Buffer := { b with input := b.input ++ bs }

def pending (b : Buffer) : Nat := b.input.length

def read (b : Buffer) : Option UInt8 × Buffer :=
  match b.input with
  | [] => (none, b)
  | x :: rest => (some x, { b with input := rest })

def write (x : UInt8) (b : Buffer) : Buffer := { b with output := b.output.push x }

instance : Channel Buffer where
  read b := let (x, b) := b.read; (.ok x, b)
  write x b := (none, b.write x)
  flush b := (none, b)

end Buffer
end TapeLang
