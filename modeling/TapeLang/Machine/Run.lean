import TapeLang.Machine.Basic

/-! Running programs. Every instruction and every test of a loop is one step, and a step over
the quota fails before it has an effect. -/
namespace TapeLang

/-- What all runs share: the number of steps each may take, zero for no limit. -/
structure Engine where
  quota : Nat
deriving DecidableEq, Repr

inductive Outcome (σ : Type) where
  | finished (m : Machine σ)
  | faulted (f : Fault) (m : Machine σ)
deriving DecidableEq

namespace Machine
variable {σ : Type}

def fail (m : Machine σ) (cause : Cause) (pos : Position) : Outcome σ :=
  .faulted ⟨cause, pos, m.pointer⟩ m

def perform [Channel σ] (i : Instr) (pos : Position) (m : Machine σ) : Outcome σ :=
  match i with
  | .right =>
    if h : m.pointer.val + 1 < tapeSize then
      .finished { m with pointer := ⟨m.pointer.val + 1, h⟩ }
    else m.fail .pastEnd pos
  | .left =>
    if m.pointer.val = 0 then m.fail .belowStart pos
    else .finished { m with pointer := ⟨m.pointer.val - 1, by omega⟩ }
  | .increment => .finished (m.setCurrent (m.current + 1))
  | .decrement => .finished (m.setCurrent (m.current - 1))
  | .output =>
    let x := m.current
    let (e, channel) := Channel.write x m.channel
    let m := { m with log := m.log.push x, channel }
    match e with
    | none => .finished m
    | some e => m.fail (.writeFailed e) pos
  | .input =>
    let (x, channel) := Channel.read m.channel
    let m := { m with channel }
    match x with
    | .ok none => .finished m
    | .ok (some x) => .finished (m.setCurrent x)
    | .error e => m.fail (.readFailed e) pos

end Machine

namespace Engine
variable {σ : Type}

/-- The machine has counted more steps than the quota allows. No word exceeds the greatest one, so
as a quota that word sets no limit. -/
def IsOver (e : Engine) (m : Machine σ) : Prop :=
  0 < e.quota ∧ (e.quota : Int) < m.stepWord.toInt

instance (e : Engine) (m : Machine σ) : Decidable (e.IsOver m) :=
  inferInstanceAs (Decidable (_ ∧ _))

def tick (e : Engine) (pos : Position) (m : Machine σ) : Outcome σ :=
  let m := { m with steps := m.steps + 1 }
  if e.IsOver m then m.fail (.quotaExceeded e.quota) pos else .finished m

/-- Runs a block. Fuel bounds the statements met on the way, and `none` says that it ran out;
with a quota of `q` steps that can be exceeded, fuel `q + 1` is always enough. -/
def exec [Channel σ] (e : Engine) : Nat → Block → Machine σ → Option (Outcome σ)
  | 0, _, _ => none
  | _ + 1, .done, m => some (.finished m)
  | fuel + 1, .act i pos next, m =>
    match e.tick pos m with
    | .faulted f m => some (.faulted f m)
    | .finished m =>
      match m.perform i pos with
      | .faulted f m => some (.faulted f m)
      | .finished m => exec e fuel next m
  | fuel + 1, .loop pos body next, m =>
    match e.tick pos m with
    | .faulted f m => some (.faulted f m)
    | .finished m =>
      if m.current = 0 then exec e fuel next m
      else
        match exec e fuel body m with
        | none => none
        | some (.faulted f m) => some (.faulted f m)
        | some (.finished m) => exec e fuel (.loop pos body next) m

end Engine
end TapeLang
