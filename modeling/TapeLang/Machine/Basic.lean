import TapeLang.Channel.Basic
import TapeLang.Program.Basic

/-! The machine that programs run on: a tape of byte cells, a pointer to one of them, the log
of all output and a channel. -/
namespace TapeLang

abbrev tapeSize : Nat := 1024

structure Machine (σ : Type) where
  tape : Vector UInt8 tapeSize
  pointer : Fin tapeSize
  log : Array UInt8
  steps : Nat
  channel : σ
deriving DecidableEq

inductive Cause where
  | pastEnd
  | belowStart
  | quotaExceeded (quota : Nat)
  | writeFailed (e : IoError)
  | readFailed (e : IoError)
deriving DecidableEq, Repr

namespace Cause

def outOfBounds : String := "pointer out of bounds"

def overQuota : String := "step quota exceeded"

/-- The error behind a fault. -/
def name : Cause → String
  | .pastEnd | .belowStart => outOfBounds
  | .quotaExceeded _ => overQuota
  | .writeFailed e | .readFailed e => e.message

def detail : Cause → String
  | .pastEnd => s!"pointer moved past the last cell ({tapeSize - 1})"
  | .belowStart => "pointer moved below cell 0"
  | .quotaExceeded q => s!"{overQuota} ({q})"
  | .writeFailed e => s!"write failed: {e.message}"
  | .readFailed e => s!"read failed: {e.message}"

def isOutOfBounds : Cause → Bool
  | .pastEnd | .belowStart => true
  | _ => false

def isOverQuota : Cause → Bool
  | .quotaExceeded _ => true
  | _ => false

end Cause

/-- A failed instruction: its place in the source and where the pointer stood. -/
structure Fault where
  cause : Cause
  pos : Position
  pointer : Fin tapeSize
deriving DecidableEq, Repr

namespace Machine
variable {σ : Type}

/-- A machine with a blank tape. -/
def fresh (channel : σ) : Machine σ :=
  ⟨Vector.replicate tapeSize 0, ⟨0, by decide⟩, #[], 0, channel⟩

/-- Blanks the tape and forgets pointer, log and steps; the channel is kept. -/
def reset (m : Machine σ) : Machine σ := fresh m.channel

/-- The count of steps as it is kept: a signed 64-bit word, which wraps around. -/
def stepWord (m : Machine σ) : Int64 := .ofNat m.steps

def current (m : Machine σ) : UInt8 := m.tape[m.pointer]

def setCurrent (m : Machine σ) (x : UInt8) : Machine σ :=
  { m with tape := m.tape.set m.pointer x }

def nonzero (m : Machine σ) : List (Nat × UInt8) :=
  (m.tape.toList.zipIdx.filter fun (x, _) => x != 0).map fun (x, i) => (i, x)

/-- The cells at most `radius` from the pointer, after the index of the first. -/
def window (m : Machine σ) (radius : Int) : Nat × List UInt8 :=
  let r := min radius.toNat tapeSize
  let first := m.pointer.val - r
  let last := min (m.pointer.val + r + 1) tapeSize
  (first, (m.tape.toList.drop first).take (last - first))

/-- The value of a cell given by any index. -/
def cell? (m : Machine σ) (i : Int) : Option UInt8 :=
  if 0 ≤ i then m.tape[i.toNat]? else none

/-- What is said of an index off the tape. -/
def noCell (i : Int) : String := s!"bf: cell {i}: {Cause.outOfBounds}"

end Machine
end TapeLang
