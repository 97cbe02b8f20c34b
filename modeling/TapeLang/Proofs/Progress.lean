import Mathlib.Data.List.Basic
import TapeLang.Channel.Buffer
import TapeLang.Proofs.Alike

/-! What a run only adds to: the steps, the log, and the input it has consumed. The input is seen
through a channel that records what is read from the one below it. -/
namespace TapeLang
variable {σ : Type}

/-- A relation between earlier and later states of a channel. -/
structure Channel.Carries [Channel σ] (G : σ → σ → Prop) : Prop where
  refl : ∀ s, G s s
  trans : ∀ {s t u}, G s t → G t u → G s u
  read : ∀ s, G s (Channel.read s).2
  write : ∀ x s, G s (Channel.write x s).2
  flush : ∀ s, G s (Channel.flush s).2

theorem Channel.carries_true [Channel σ] : Channel.Carries fun _ _ : σ => True :=
  ⟨fun _ => trivial, fun _ _ => trivial, fun _ => trivial, fun _ _ => trivial, fun _ => trivial⟩

/-- A later machine has taken more steps and written more. -/
structure Machine.Extends (G : σ → σ → Prop) (m m' : Machine σ) : Prop where
  steps : m.steps ≤ m'.steps
  log : m.log.toList <+: m'.log.toList
  channel : G m.channel m'.channel

namespace Machine
variable [Channel σ] {G : σ → σ → Prop} {m m₁ m₂ m₃ : Machine σ}

theorem extends_refl (hG : Channel.Carries G) (m : Machine σ) : m.Extends G m :=
  ⟨Nat.le_refl _, List.prefix_refl _, hG.refl _⟩

theorem Extends.trans (hG : Channel.Carries G) (h : m₁.Extends G m₂) (h' : m₂.Extends G m₃) :
    m₁.Extends G m₃ :=
  ⟨Nat.le_trans h.steps h'.steps, h.log.trans h'.log, hG.trans h.channel h'.channel⟩

theorem extends_counted (hG : Channel.Carries G) (m : Machine σ) : m.Extends G m.counted :=
  ⟨Nat.le_succ _, List.prefix_refl _, hG.refl _⟩

theorem extends_perform (hG : Channel.Carries G) (i : Instr) (pos : Position) (m : Machine σ) :
    m.Extends G (m.perform i pos).machine := by
  cases i with
  | right =>
    simp only [perform]
    split_ifs
    · exact ⟨Nat.le_refl _, List.prefix_refl _, hG.refl _⟩
    · exact extends_refl hG m
  | left =>
    simp only [perform]
    split_ifs
    · exact extends_refl hG m
    · exact ⟨Nat.le_refl _, List.prefix_refl _, hG.refl _⟩
  | increment => exact ⟨Nat.le_refl _, List.prefix_refl _, hG.refl _⟩
  | decrement => exact ⟨Nat.le_refl _, List.prefix_refl _, hG.refl _⟩
  | output =>
    have hlog : m.log.toList <+: (m.log.push m.current).toList := by
      rw [Array.toList_push]
      exact List.prefix_append _ _
    unfold perform
    dsimp only
    cases (Channel.write m.current m.channel).1 with
    | none => exact ⟨Nat.le_refl _, hlog, hG.write _ _⟩
    | some e => exact ⟨Nat.le_refl _, hlog, hG.write _ _⟩
  | input =>
    unfold perform
    dsimp only
    cases (Channel.read m.channel).1 with
    | error e => exact ⟨Nat.le_refl _, List.prefix_refl _, hG.read _⟩
    | ok x? => cases x? <;> exact ⟨Nat.le_refl _, List.prefix_refl _, hG.read _⟩

end Machine

namespace Engine
variable [Channel σ] {G : σ → σ → Prop}

theorem Ends.extends (hG : Channel.Carries G) {e : Engine} {b : Block} {m : Machine σ}
    {o : Outcome σ} (h : e.Ends b m o) : m.Extends G o.machine :=
  h.invariant (Machine.extends_refl hG) (Machine.Extends.trans hG) (Machine.extends_counted hG)
    (Machine.extends_perform hG)

theorem extends_conclude (hG : Channel.Carries G) (text : List Char) (o : Outcome σ) :
    o.machine.Extends G (conclude text o).machine := by
  cases o <;> exact ⟨Nat.le_refl _, List.prefix_refl _, hG.flush _⟩

end Engine

/-- A channel with the bytes that were read from it, in order. -/
structure Recorded (σ : Type) where
  channel : σ
  taken : Bytes

namespace Recorded

/-- The end of the input and a failure to read consume nothing. -/
def take (taken : Bytes) : Except IoError (Option UInt8) → Bytes
  | .ok (some x) => taken ++ [x]
  | _ => taken

instance [Channel σ] : Channel (Recorded σ) where
  read s := let (x, channel) := Channel.read s.channel; (x, ⟨channel, take s.taken x⟩)
  write x s := let (e, channel) := Channel.write x s.channel; (e, { s with channel })
  flush s := let (e, channel) := Channel.flush s.channel; (e, { s with channel })

theorem bisimilar [Channel σ] :
    Channel.Bisimilar fun (s : σ) (t : Recorded σ) => t.channel = s where
  read h := by subst h; exact ⟨rfl, rfl⟩
  write x h := by subst h; exact ⟨rfl, rfl⟩
  flush h := by subst h; exact ⟨rfl, rfl⟩

theorem carries_taken [Channel σ] :
    Channel.Carries fun s t : Recorded σ => s.taken <+: t.taken where
  refl s := List.prefix_refl _
  trans h h' := h.trans h'
  read s := by
    change s.taken <+: take s.taken (Channel.read s.channel).1
    unfold take
    split
    · exact List.prefix_append _ _
    · exact List.prefix_refl _
  write x s := List.prefix_refl _
  flush s := List.prefix_refl _

/-- On a buffer, what was taken and what is pending are always the same bytes. -/
theorem carries_input : Channel.Carries fun s t : Recorded Buffer =>
    t.taken ++ t.channel.input = s.taken ++ s.channel.input where
  refl s := rfl
  trans h h' := h'.trans h
  read s := by
    obtain ⟨⟨input, output⟩, taken⟩ := s
    cases input with
    | nil => rfl
    | cons x rest => exact List.append_assoc taken [x] rest
  write x s := rfl
  flush s := rfl

end Recorded

/-- The machine with a record of what is read from now on. -/
def Machine.recording (m : Machine σ) : Machine (Recorded σ) :=
  { m with channel := ⟨m.channel, []⟩ }

namespace Engine
variable [Channel σ] {e : Engine} {fuel : Nat} {p : Program} {m : Machine σ} {r : Run σ}

/-- The input that a run consumes. -/
def consumed (e : Engine) (fuel : Nat) (program? : Option Program) (m : Machine σ) : Bytes :=
  ((e.execute fuel program? m.recording).map fun r => r.machine.channel.taken).getD []

/-- A run is the same with a record of its input, and what it consumed is on record. -/
theorem execute_recording (h : e.execute fuel (some p) m = some r) :
    ∃ r', e.execute fuel (some p) m.recording = some r' ∧
      r.Alike Eq (Machine.Agree Eq fun s t => t.channel = s) r' ∧
      e.consumed fuel (some p) m = r'.machine.channel.taken := by
  have hm : m.Agree Eq (fun s t => t.channel = s) m.recording := ⟨rfl, rfl, rfl, rfl, rfl⟩
  have hrel := execute_alike (e := e) Recorded.bisimilar p.body.aligned_refl hm fuel
  rw [h] at hrel
  generalize hr : e.execute fuel (some p) m.recording = r? at hrel
  cases hrel with
  | some halike => exact ⟨_, rfl, halike, by rw [consumed, hr]; rfl⟩

theorem consumed_append_input {m : Machine Buffer} {r : Run Buffer}
    (h : e.execute fuel (some p) m = some r) :
    e.consumed fuel (some p) m ++ r.machine.channel.input = m.channel.input := by
  obtain ⟨r', hr, halike, htaken⟩ := execute_recording h
  obtain ⟨o, ho, rfl⟩ := executes_iff.mp ⟨fuel, hr⟩
  have hrun := (ho.extends Recorded.carries_input).trans Recorded.carries_input
    (extends_conclude Recorded.carries_input p.text o)
  rw [htaken, ← halike.machine.channel]
  exact hrun.channel

end Engine
end TapeLang
