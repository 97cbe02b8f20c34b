import TapeLang.Machine.Run
import TapeLang.Program.Parse

/-! Engines: making them, and running whole programs on machines. -/
namespace TapeLang

structure Report where
  detail : String
  pos : Position
  pointer : Int
  frame : String
deriving DecidableEq, Repr

/-- The place is given by line and column when it has a line. -/
def Report.message (r : Report) : String :=
  CodeFrame.below r.detail r.frame ++
    if 0 < r.pos.line then s!"\n  at {r.pos.line}:{r.pos.column} (pointer {r.pointer})"
    else s!"\n  at pointer {r.pointer}"

/-- Why a run did not succeed. A fault comes with its frame in the program that was run. -/
inductive RunError where
  | noProgram
  | fault (f : Fault) (frame? : Option CodeFrame)
  | flushFailed (e : IoError)
deriving DecidableEq, Repr

def Fault.report (f : Fault) (frame? : Option CodeFrame) : Report :=
  ⟨f.cause.detail, f.pos, f.pointer.val, (frame?.map CodeFrame.render).getD ""⟩

def RunError.message : RunError → String
  | .noProgram => "bf: nil program"
  | .fault f frame? => (f.report frame?).message
  | .flushFailed e => s!"bf: flush output: {e.message}"

/-- The machine after a run, and why the run failed if it did. -/
structure Run (σ : Type) where
  error? : Option RunError
  machine : Machine σ

namespace Engine
variable {σ : Type}

def negativeQuota (quota : Int) : String := s!"bf: step quota cannot be negative ({quota})"

/-- An engine for a quota that is not negative. -/
def ofQuota (quota : Int) : Except String Engine :=
  if quota < 0 then .error (negativeQuota quota) else .ok ⟨quota.toNat⟩

def summary (e : Engine) : String :=
  s!"tape={tapeSize} steps=" ++ if e.quota = 0 then "unlimited" else toString e.quota

/-- A failure to flush is reported only after a run that has not failed otherwise. -/
def conclude [Channel σ] (source : List Char) (o : Outcome σ) : Run σ :=
  match o with
  | .finished m =>
    let (e, channel) := Channel.flush m.channel
    ⟨e.map .flushFailed, { m with channel }⟩
  | .faulted f m =>
    let (_, channel) := Channel.flush m.channel
    ⟨some (.fault f (CodeFrame.locate? source f.pos)), { m with channel }⟩

/-- Runs a program once. Steps are counted anew; tape, pointer and log go on from where they
were. Without a program nothing happens. -/
def execute [Channel σ] (e : Engine) (fuel : Nat) (program? : Option Program)
    (m : Machine σ) : Option (Run σ) :=
  match program? with
  | none => some ⟨some .noProgram, m⟩
  | some p => (e.exec fuel p.body { m with steps := 0 }).map (conclude p.text)

/-- Runs a program on a machine of its own. -/
def run [Channel σ] (e : Engine) (fuel : Nat) (program : Program) (channel : σ) :
    Option (Run σ) :=
  e.execute fuel (some program) (.fresh channel)

/-- Fuel that is enough for every run within the quota, or `unlimited` without one. -/
def fuel (e : Engine) (unlimited : Nat) : Nat := if e.quota = 0 then unlimited else e.quota + 1

end Engine
end TapeLang
