import TapeLang.Proofs.Quota
import TapeLang.Proofs.Splitting

/-! Runs step by step. On its way a run passes through states: a machine, and what is left to run on
it. A loop that is entered is left to run again behind its body. A run that ends does so from the
last state it passes through, and a run that goes on for ever is seen through all of its states.
Between runs a machine is at rest, with a history of calls behind it. -/
namespace TapeLang

theorem Block.append_assoc (a b c : Block) : (a.append b).append c = a.append (b.append c) := by
  induction a with
  | done => rfl
  | act i p next ih => rw [append, append, append, ih]
  | loop p body next _ ih => rw [append, append, append, ih]

/-- What is asked of a machine at rest: to run a program, if there is one, or to be reset. -/
inductive Call where
  | execute (program? : Option Program)
  | reset
deriving DecidableEq

namespace Engine
variable {σ : Type} [Channel σ] {e : Engine} {b c d : Block} {m m' x y : Machine σ}
  {is js : List Instr} {f : Fault} {o : Outcome σ}

/-- Running `b` on `m` comes to running `c` on `x`, and `is` are the instructions carried out on the
way. -/
inductive Passes (e : Engine) : Block → Machine σ → List Instr → Block → Machine σ → Prop where
  | here {b : Block} {m : Machine σ} : Passes e b m [] b m
  | act {i : Instr} {pos : Position} {next c : Block} {m m' x : Machine σ} {is : List Instr}
      (h : e.advance i pos m = .finished m') (hn : Passes e next m' is c x) :
      Passes e (.act i pos next) m (i :: is) c x
  | skip {pos : Position} {body next c : Block} {m m' x : Machine σ} {is : List Instr}
      (h : e.tick pos m = .finished m') (hz : m'.current = 0) (hn : Passes e next m' is c x) :
      Passes e (.loop pos body next) m is c x
  | enter {pos : Position} {body next c : Block} {m m' x : Machine σ} {is : List Instr}
      (h : e.tick pos m = .finished m') (hz : m'.current ≠ 0)
      (hn : Passes e (body.append (.loop pos body next)) m' is c x) :
      Passes e (.loop pos body next) m is c x

/-- The first statement of a block fails. -/
def Stops (e : Engine) (b : Block) (m : Machine σ) (f : Fault) (m' : Machine σ) : Prop :=
  match b with
  | .done => False
  | .act i pos _ => e.advance i pos m = .faulted f m'
  | .loop pos _ _ => e.tick pos m = .faulted f m'

/-- A run ends in `o` when the instructions `is` have been carried out. -/
def EndsAfter (e : Engine) (b : Block) (m : Machine σ) (is : List Instr) (o : Outcome σ) : Prop :=
  match o with
  | .finished m' => e.Passes b m is .done m'
  | .faulted f m' => ∃ c x, e.Passes b m is c x ∧ e.Stops c x f m'

theorem Passes.trans (h : e.Passes b m is c x) (h' : e.Passes c x js d y) :
    e.Passes b m (is ++ js) d y := by
  induction h with
  | here => exact h'
  | act h _ ih => exact .act h (ih h')
  | skip h hz _ ih => exact .skip h hz (ih h')
  | enter h hz _ ih => exact .enter h hz (ih h')

/-- What stands behind a block is passed over while the block runs. -/
theorem Passes.append (h : e.Passes b m is c x) (d : Block) :
    e.Passes (b.append d) m is (c.append d) x := by
  induction h with
  | here => exact .here
  | act h _ ih => exact .act h ih
  | skip h hz _ ih => exact .skip h hz ih
  | enter h hz _ ih =>
    rw [Block.append_assoc, Block.append] at ih
    exact .enter h hz ih

theorem Passes.ends (h : e.Passes b m is c x) (ho : e.Ends c x o) : e.Ends b m o := by
  induction h with
  | here => exact ho
  | act h _ ih => exact .act h (ih ho)
  | skip h hz _ ih => exact .skip h hz (ih ho)
  | enter h hz _ ih =>
    rcases (ih ho).of_append with ⟨f, m', rfl, hbody⟩ | ⟨m', hbody, hagain⟩
    · exact .inside h hz hbody
    · exact .again h hz hbody hagain

theorem Stops.ends (h : e.Stops b m f m') : e.Ends b m (.faulted f m') := by
  cases b with
  | done => exact h.elim
  | act i pos next => exact .fault h
  | loop pos body next => exact .stop h

theorem Stops.append (h : e.Stops b m f m') (d : Block) : e.Stops (b.append d) m f m' := by
  cases b with
  | done => exact h.elim
  | act i pos next => exact h
  | loop pos body next => exact h

theorem EndsAfter.ends (h : e.EndsAfter b m is o) : e.Ends b m o := by
  cases o with
  | finished m' => exact Passes.ends h .done
  | faulted f m' =>
    obtain ⟨c, x, hc, hstop⟩ := h
    exact hc.ends hstop.ends

theorem Passes.endsAfter (h : e.Passes b m is c x) (ho : e.EndsAfter c x js o) :
    e.EndsAfter b m (is ++ js) o := by
  cases o with
  | finished m' => exact Passes.trans h ho
  | faulted f m' =>
    obtain ⟨d, y, hd, hstop⟩ := ho
    exact ⟨d, y, h.trans hd, hstop⟩

theorem Ends.exists_endsAfter (h : e.Ends b m o) : ∃ is, e.EndsAfter b m is o := by
  induction h with
  | done => exact ⟨[], .here⟩
  | @act i _ _ _ _ _ h _ ih =>
    obtain ⟨is, his⟩ := ih
    exact ⟨i :: is, (Passes.act h .here).endsAfter his⟩
  | fault h => exact ⟨[], _, _, .here, h⟩
  | stop h => exact ⟨[], _, _, .here, h⟩
  | skip h hz _ ih =>
    obtain ⟨is, his⟩ := ih
    exact ⟨is, (Passes.skip h hz .here).endsAfter his⟩
  | inside h hz _ ih =>
    obtain ⟨is, c, x, hc, hstop⟩ := ih
    exact ⟨is, _, x, .enter h hz (hc.append _), hstop.append _⟩
  | again h hz _ _ ihb ih =>
    obtain ⟨is, his⟩ := ihb
    obtain ⟨js, hjs⟩ := ih
    exact ⟨is ++ js, (Passes.enter h hz (Passes.append his _)).endsAfter hjs⟩

/-- Whole runs are those that end after some instructions. -/
theorem ends_iff_exists_endsAfter : e.Ends b m o ↔ ∃ is, e.EndsAfter b m is o :=
  ⟨Ends.exists_endsAfter, fun ⟨_, h⟩ => h.ends⟩

/-- What every step keeps of a machine holds in every state that a run passes through. -/
theorem Passes.invariant {I : Machine σ → Prop} (counted : ∀ m, I m → I m.counted)
    (perform : ∀ i pos m, I m → I (m.perform i pos).machine) (h : e.Passes b m is c x)
    (hm : I m) : I x := by
  have htick {pos : Position} {m m' : Machine σ} (ht : e.tick pos m = .finished m') (hm : I m) :
      I m' := by
    rw [(tick_eq_finished_iff.mp ht).1]
    exact counted m hm
  induction h with
  | here => exact hm
  | @act i pos _ _ m m' _ _ h _ ih =>
    unfold advance at h
    cases ht : e.tick pos m with
    | faulted f m₁ =>
      rw [ht] at h
      cases h
    | finished m₁ =>
      rw [ht] at h
      have hperform := perform i pos m₁ (htick ht hm)
      dsimp only at h
      rw [h] at hperform
      exact ih hperform
  | skip h _ _ ih => exact ih (htick h hm)
  | enter h _ _ ih => exact ih (htick h hm)

/-- On its way a run keeps to a quota that can be exceeded. -/
theorem Passes.steps_le_quota (he : e.IsLimited) (h : e.Passes b m is c x)
    (hm : m.steps ≤ e.quota) : x.steps ≤ e.quota := by
  induction h with
  | here => exact hm
  | @act i pos _ _ _ _ _ _ h _ ih =>
    have hadvance := within_advance he hm i pos
    rw [h, Outcome.within_finished] at hadvance
    exact ih hadvance
  | skip h _ _ ih => exact ih (steps_of_tick_finished he hm h).2
  | enter h _ _ ih => exact ih (steps_of_tick_finished he hm h).2

/-- The next step is refused when all that the quota allows have been taken. -/
theorem Passes.isOver_counted_iff (h : e.Passes b m is c x) (hm : m.steps ≤ e.quota) :
    e.IsOver x.counted ↔ e.IsLimited ∧ e.quota ≤ x.steps := by
  constructor
  · intro hover
    exact ⟨hover.isLimited, Nat.le_of_lt_succ hover.quota_lt⟩
  · rintro ⟨he, hle⟩
    have hx := h.steps_le_quota he hm
    exact (he.isOver_iff (Nat.succ_le_succ hx)).mpr (Nat.lt_succ_of_le hle)

/-- A machine at rest after calls, the first of them on a fresh one, and the instructions carried
out since its tape was last blanked. -/
inductive History (e : Engine) (channel : σ) : List Call → List Instr → Machine σ → Prop where
  | fresh : History e channel [] [] (.fresh channel)
  | execute {calls : List Call} {is js : List Instr} {m : Machine σ} {p : Program} {o : Outcome σ}
      (h : History e channel calls is m) (ho : e.EndsAfter p.body { m with steps := 0 } js o) :
      History e channel (calls ++ [.execute (some p)]) (is ++ js) (conclude p.text o).machine
  | idle {calls : List Call} {is : List Instr} {m : Machine σ} (h : History e channel calls is m) :
      History e channel (calls ++ [.execute none]) is m
  | reset {calls : List Call} {is : List Instr} {m : Machine σ} (h : History e channel calls is m) :
      History e channel (calls ++ [.reset]) [] m.reset

/-- Every call that returns goes into the history. -/
theorem History.exists_of_executes {channel : σ} {calls : List Call}
    (h : e.History channel calls is m) {program? : Option Program} {r : Run σ}
    (hr : e.Executes program? m r) :
    ∃ js, e.History channel (calls ++ [.execute program?]) (is ++ js) r.machine := by
  cases program? with
  | none =>
    obtain ⟨fuel, hfuel⟩ := hr
    obtain rfl := Option.some.inj hfuel
    exact ⟨[], by simpa using h.idle⟩
  | some p =>
    obtain ⟨o, ho, rfl⟩ := executes_iff.mp hr
    obtain ⟨js, hjs⟩ := ho.exists_endsAfter
    exact ⟨js, h.execute hjs⟩

end Engine
end TapeLang
