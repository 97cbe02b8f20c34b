import TapeLang.Machine.Engine
import TapeLang.Text.Word

/-! Runs without fuel: the rules by which a block ends. Fuel only cuts a run short, so that some
amount of it is enough exactly for what ends by the rules. -/
namespace TapeLang
variable {σ : Type}

namespace Outcome

/-- The machine that a run leaves behind. -/
def machine : Outcome σ → Machine σ
  | .finished m => m
  | .faulted _ m => m

/-- Goes on after a success; a fault is the end. -/
def andThen (o : Outcome σ) (next : Machine σ → Option (Outcome σ)) : Option (Outcome σ) :=
  match o with
  | .finished m => next m
  | .faulted f m => some (.faulted f m)

theorem andThen_eq_some_iff {o o' : Outcome σ} {next : Machine σ → Option (Outcome σ)} :
    o.andThen next = some o' ↔
      (∃ m, o = .finished m ∧ next m = some o') ∨ ∃ f m, o = .faulted f m ∧ o' = .faulted f m := by
  cases o with
  | finished m => simp [andThen]
  | faulted f m =>
    constructor
    · intro h
      exact Or.inr ⟨f, m, rfl, (Option.some.inj h).symm⟩
    · rintro (⟨_, h, -⟩ | ⟨_, _, h, rfl⟩)
      · cases h
      · rw [h]
        rfl

end Outcome

namespace Machine

/-- A machine after one more step. -/
def counted (m : Machine σ) : Machine σ := { m with steps := m.steps + 1 }

theorem setCurrent_setCurrent (m : Machine σ) (x y : UInt8) :
    (m.setCurrent x).setCurrent y = m.setCurrent y := by
  simp [setCurrent]

theorem setCurrent_current (m : Machine σ) : m.setCurrent m.current = m := by
  simp [setCurrent, current]

theorem current_setCurrent (m : Machine σ) (x : UInt8) : (m.setCurrent x).current = x := by
  simp [setCurrent, current]

theorem stepWord_lt (m : Machine σ) : m.stepWord.toInt < Word.bound := Int64.toInt_lt _

/-- The word tells the count as long as that is one. -/
theorem stepWord_eq {m : Machine σ} (h : m.steps < Word.bound) : m.stepWord.toInt = m.steps :=
  Int64.toInt_ofNat_of_lt h

theorem stepWord_le (m : Machine σ) : m.stepWord.toInt ≤ m.steps := by
  have hlt := m.stepWord_lt
  by_cases h : m.steps < Word.bound
  · exact Int.le_of_eq (stepWord_eq h)
  · omega

end Machine

namespace Engine
variable {e : Engine} {pos : Position} {m m' : Machine σ}

/-- The engine has a quota, and one that a count of steps can exceed. -/
def IsLimited (e : Engine) : Prop := 0 < e.quota ∧ e.quota + 1 < Word.bound

instance (e : Engine) : Decidable e.IsLimited := inferInstanceAs (Decidable (_ ∧ _))

theorem IsOver.isLimited (h : e.IsOver m) : e.IsLimited := by
  obtain ⟨hpos, hlt⟩ := h
  have hword := m.stepWord_lt
  exact ⟨hpos, by omega⟩

theorem IsOver.quota_lt (h : e.IsOver m) : e.quota < m.steps := by
  obtain ⟨-, hlt⟩ := h
  have hword := m.stepWord_le
  omega

/-- Up to the first step over a quota, the word is the count. -/
theorem IsLimited.isOver_iff (he : e.IsLimited) (hm : m.steps ≤ e.quota + 1) :
    e.IsOver m ↔ e.quota < m.steps := by
  constructor
  · exact IsOver.quota_lt
  · intro hlt
    obtain ⟨hpos, hbound⟩ := he
    have hword := Machine.stepWord_eq (Nat.lt_of_le_of_lt hm hbound)
    exact ⟨hpos, by omega⟩

theorem tick_eq (e : Engine) (pos : Position) (m : Machine σ) :
    e.tick pos m = if e.IsOver m.counted then
      .faulted ⟨.quotaExceeded e.quota, pos, m.pointer⟩ m.counted else .finished m.counted := rfl

theorem tick_eq_finished_iff :
    e.tick pos m = .finished m' ↔ m' = m.counted ∧ ¬ e.IsOver m.counted := by
  rw [tick_eq]
  by_cases hover : e.IsOver m.counted
  · rw [if_pos hover]
    exact iff_of_false (fun h => by cases h) fun h => h.2 hover
  · rw [if_neg hover, Outcome.finished.injEq]
    exact ⟨fun h => ⟨h.symm, hover⟩, fun h => h.1.symm⟩

theorem tick_eq_faulted_iff {f : Fault} :
    e.tick pos m = .faulted f m' ↔ m' = m.counted ∧
      f = ⟨.quotaExceeded e.quota, pos, m.pointer⟩ ∧ e.IsOver m.counted := by
  rw [tick_eq]
  by_cases hover : e.IsOver m.counted
  · rw [if_pos hover, Outcome.faulted.injEq]
    exact ⟨fun h => ⟨h.2.symm, h.1.symm, hover⟩, fun h => ⟨h.2.1.symm, h.1.symm⟩⟩
  · rw [if_neg hover]
    exact iff_of_false (fun h => by cases h) fun h => hover h.2.2

/-- The engine without a quota. -/
def unlimited : Engine := ⟨0⟩

/-- Without a limit no step is refused. -/
theorem tick_of_not_isLimited (h : ¬ e.IsLimited) (pos : Position) (m : Machine σ) :
    e.tick pos m = .finished m.counted :=
  tick_eq_finished_iff.mpr ⟨rfl, fun hover => h hover.isLimited⟩

variable [Channel σ] {b : Block} {o : Outcome σ}

/-- One instruction with the step it takes. -/
def advance (e : Engine) (i : Instr) (pos : Position) (m : Machine σ) : Outcome σ :=
  match e.tick pos m with
  | .finished m => m.perform i pos
  | .faulted f m => .faulted f m

theorem advance_of_not_isLimited (h : ¬ e.IsLimited) (i : Instr) (pos : Position)
    (m : Machine σ) : e.advance i pos m = m.counted.perform i pos := by
  rw [advance, tick_of_not_isLimited h]

theorem advance_unlimited (i : Instr) (pos : Position) (m : Machine σ) :
    unlimited.advance i pos m = m.counted.perform i pos :=
  advance_of_not_isLimited (by decide) i pos m

theorem exec_act (e : Engine) (fuel : Nat) (i : Instr) (pos : Position) (next : Block)
    (m : Machine σ) :
    e.exec (fuel + 1) (.act i pos next) m = (e.advance i pos m).andThen (e.exec fuel next) := by
  rw [exec, advance]
  cases e.tick pos m with
  | faulted f m => rfl
  | finished m =>
    dsimp only
    cases m.perform i pos <;> rfl

theorem exec_loop (e : Engine) (fuel : Nat) (pos : Position) (body next : Block)
    (m : Machine σ) :
    e.exec (fuel + 1) (.loop pos body next) m = (e.tick pos m).andThen fun m =>
      if m.current = 0 then e.exec fuel next m
      else (e.exec fuel body m).bind fun o => o.andThen (e.exec fuel (.loop pos body next)) := by
  rw [exec]
  cases e.tick pos m with
  | faulted f m => rfl
  | finished m =>
    dsimp only [Outcome.andThen]
    by_cases hz : m.current = 0
    · rw [if_pos hz, if_pos hz]
    · rw [if_neg hz, if_neg hz]
      cases e.exec fuel body m with
      | none => rfl
      | some o => cases o <;> rfl

/-- More fuel does not change how a run ends. -/
theorem exec_mono {fuel fuel' : Nat} (h : e.exec fuel b m = some o) (hle : fuel ≤ fuel') :
    e.exec fuel' b m = some o := by
  induction fuel generalizing fuel' b m o with
  | zero => simp [exec] at h
  | succ fuel ih =>
    obtain ⟨fuel', rfl⟩ : ∃ k, fuel' = k + 1 := ⟨fuel' - 1, by omega⟩
    have hle : fuel ≤ fuel' := by omega
    cases b with
    | done => exact h
    | act i pos next =>
      rw [exec_act, Outcome.andThen_eq_some_iff] at h ⊢
      exact h.imp_left fun ⟨m₁, hm, hn⟩ => ⟨m₁, hm, ih hn hle⟩
    | loop pos body next =>
      rw [exec_loop, Outcome.andThen_eq_some_iff] at h ⊢
      refine h.imp_left ?_
      rintro ⟨m₁, hm, hn⟩
      refine ⟨m₁, hm, ?_⟩
      by_cases hz : m₁.current = 0
      · rw [if_pos hz] at hn ⊢
        exact ih hn hle
      · rw [if_neg hz, Option.bind_eq_some_iff] at hn ⊢
        obtain ⟨o₁, hb, hn⟩ := hn
        refine ⟨o₁, ih hb hle, ?_⟩
        rw [Outcome.andThen_eq_some_iff] at hn ⊢
        exact hn.imp_left fun ⟨m₂, hm₂, hn⟩ => ⟨m₂, hm₂, ih hn hle⟩

/-- How a block ends. A run that goes on for ever has no outcome. -/
inductive Ends (e : Engine) : Block → Machine σ → Outcome σ → Prop where
  | done {m : Machine σ} : Ends e .done m (.finished m)
  | act {i : Instr} {pos : Position} {next : Block} {m m' : Machine σ} {o : Outcome σ}
      (h : e.advance i pos m = .finished m') (hn : Ends e next m' o) :
      Ends e (.act i pos next) m o
  | fault {i : Instr} {pos : Position} {next : Block} {m m' : Machine σ} {f : Fault}
      (h : e.advance i pos m = .faulted f m') :
      Ends e (.act i pos next) m (.faulted f m')
  | stop {pos : Position} {body next : Block} {m m' : Machine σ} {f : Fault}
      (h : e.tick pos m = .faulted f m') :
      Ends e (.loop pos body next) m (.faulted f m')
  | skip {pos : Position} {body next : Block} {m m' : Machine σ} {o : Outcome σ}
      (h : e.tick pos m = .finished m') (hz : m'.current = 0) (hn : Ends e next m' o) :
      Ends e (.loop pos body next) m o
  | inside {pos : Position} {body next : Block} {m m' m'' : Machine σ} {f : Fault}
      (h : e.tick pos m = .finished m') (hz : m'.current ≠ 0)
      (hb : Ends e body m' (.faulted f m'')) :
      Ends e (.loop pos body next) m (.faulted f m'')
  | again {pos : Position} {body next : Block} {m m' m'' : Machine σ} {o : Outcome σ}
      (h : e.tick pos m = .finished m') (hz : m'.current ≠ 0)
      (hb : Ends e body m' (.finished m'')) (hn : Ends e (.loop pos body next) m'' o) :
      Ends e (.loop pos body next) m o

theorem ends_of_exec {fuel : Nat} (h : e.exec fuel b m = some o) : e.Ends b m o := by
  induction fuel generalizing b m o with
  | zero => simp [exec] at h
  | succ fuel ih =>
    cases b with
    | done =>
      obtain rfl := Option.some.inj h
      exact .done
    | act i pos next =>
      rw [exec_act, Outcome.andThen_eq_some_iff] at h
      obtain ⟨m₁, hm, hn⟩ | ⟨f, m₁, hm, rfl⟩ := h
      · exact .act hm (ih hn)
      · exact .fault hm
    | loop pos body next =>
      rw [exec_loop, Outcome.andThen_eq_some_iff] at h
      obtain ⟨m₁, hm, hn⟩ | ⟨f, m₁, hm, rfl⟩ := h
      · by_cases hz : m₁.current = 0
        · rw [if_pos hz] at hn
          exact .skip hm hz (ih hn)
        · rw [if_neg hz, Option.bind_eq_some_iff] at hn
          obtain ⟨o₁, hb, hn⟩ := hn
          rw [Outcome.andThen_eq_some_iff] at hn
          obtain ⟨m₂, rfl, hn⟩ | ⟨f, m₂, rfl, rfl⟩ := hn
          · exact .again hm hz (ih hb) (ih hn)
          · exact .inside hm hz (ih hb)
      · exact .stop hm

theorem Ends.exists_exec (h : e.Ends b m o) : ∃ fuel, e.exec fuel b m = some o := by
  induction h with
  | done => exact ⟨1, rfl⟩
  | act h _ ih =>
    obtain ⟨fuel, hfuel⟩ := ih
    refine ⟨fuel + 1, ?_⟩
    rw [exec_act, h]
    exact hfuel
  | fault h =>
    refine ⟨1, ?_⟩
    rw [exec_act, h]
    rfl
  | stop h =>
    refine ⟨1, ?_⟩
    rw [exec_loop, h]
    rfl
  | skip h hz _ ih =>
    obtain ⟨fuel, hfuel⟩ := ih
    refine ⟨fuel + 1, ?_⟩
    rw [exec_loop, h, Outcome.andThen, if_pos hz]
    exact hfuel
  | inside h hz _ ih =>
    obtain ⟨fuel, hfuel⟩ := ih
    refine ⟨fuel + 1, ?_⟩
    rw [exec_loop, h, Outcome.andThen, if_neg hz, hfuel]
    rfl
  | again h hz _ _ ihb ih =>
    obtain ⟨k, hk⟩ := ihb
    obtain ⟨l, hl⟩ := ih
    refine ⟨max k l + 1, ?_⟩
    rw [exec_loop, h, Outcome.andThen, if_neg hz, exec_mono hk (Nat.le_max_left k l)]
    exact exec_mono hl (Nat.le_max_right k l)

theorem exists_exec_iff_ends : (∃ fuel, e.exec fuel b m = some o) ↔ e.Ends b m o :=
  ⟨fun ⟨_, h⟩ => ends_of_exec h, Ends.exists_exec⟩

theorem Ends.unique {o' : Outcome σ} (h : e.Ends b m o) (h' : e.Ends b m o') : o = o' := by
  obtain ⟨k, hk⟩ := h.exists_exec
  obtain ⟨l, hl⟩ := h'.exists_exec
  have hboth := exec_mono hk (Nat.le_max_left k l)
  rw [exec_mono hl (Nat.le_max_right k l)] at hboth
  exact (Option.some.inj hboth).symm

theorem ends_act_iff {i : Instr} {pos : Position} {next : Block} {m' : Machine σ}
    (h : e.advance i pos m = .finished m') :
    e.Ends (.act i pos next) m o ↔ e.Ends next m' o := by
  constructor
  · intro hends
    cases hends with
    | act h' hn =>
      cases h.symm.trans h'
      exact hn
    | fault h' => cases h.symm.trans h'
  · exact .act h

theorem ends_fault_iff {i : Instr} {pos : Position} {next : Block} {m' : Machine σ} {f : Fault}
    (h : e.advance i pos m = .faulted f m') :
    e.Ends (.act i pos next) m o ↔ o = .faulted f m' := by
  constructor
  · intro hends
    cases hends with
    | act h' _ => cases h.symm.trans h'
    | fault h' =>
      cases h.symm.trans h'
      rfl
  · rintro rfl
    exact .fault h

theorem ends_skip_iff {pos : Position} {body next : Block} {m' : Machine σ}
    (h : e.tick pos m = .finished m') (hz : m'.current = 0) :
    e.Ends (.loop pos body next) m o ↔ e.Ends next m' o := by
  constructor
  · intro hends
    cases hends with
    | stop h' => cases h.symm.trans h'
    | skip h' _ hn =>
      cases h.symm.trans h'
      exact hn
    | inside h' hz' _ =>
      cases h.symm.trans h'
      exact absurd hz hz'
    | again h' hz' _ _ =>
      cases h.symm.trans h'
      exact absurd hz hz'
  · exact .skip h hz

theorem ends_enter_iff {pos : Position} {body next : Block} {m' : Machine σ}
    (h : e.tick pos m = .finished m') (hz : m'.current ≠ 0) :
    e.Ends (.loop pos body next) m o ↔
      (∃ f m'', o = .faulted f m'' ∧ e.Ends body m' (.faulted f m'')) ∨
        ∃ m'', e.Ends body m' (.finished m'') ∧ e.Ends (.loop pos body next) m'' o := by
  constructor
  · intro hends
    cases hends with
    | stop h' => cases h.symm.trans h'
    | skip h' hz' _ =>
      cases h.symm.trans h'
      exact absurd hz' hz
    | inside h' _ hb =>
      cases h.symm.trans h'
      exact Or.inl ⟨_, _, rfl, hb⟩
    | again h' _ hb hn =>
      cases h.symm.trans h'
      exact Or.inr ⟨_, hb, hn⟩
  · rintro (⟨f, m'', rfl, hb⟩ | ⟨m'', hb, hn⟩)
    · exact .inside h hz hb
    · exact .again h hz hb hn

/-- Induction on the passes of one loop. -/
theorem Ends.loop_induction {pos : Position} {body next : Block}
    {motive : ∀ m o, e.Ends (.loop pos body next) m o → Prop}
    (stop : ∀ {m m' f} (h : e.tick pos m = .faulted f m'), motive m (.faulted f m') (.stop h))
    (skip : ∀ {m m' o} (h : e.tick pos m = .finished m') (hz : m'.current = 0)
      (hn : e.Ends next m' o), motive m o (.skip h hz hn))
    (inside : ∀ {m m' m'' f} (h : e.tick pos m = .finished m') (hz : m'.current ≠ 0)
      (hb : e.Ends body m' (.faulted f m'')), motive m (.faulted f m'') (.inside h hz hb))
    (again : ∀ {m m' m'' o} (h : e.tick pos m = .finished m') (hz : m'.current ≠ 0)
      (hb : e.Ends body m' (.finished m'')) (hn : e.Ends (.loop pos body next) m'' o),
      motive m'' o hn → motive m o (.again h hz hb hn))
    {m : Machine σ} {o : Outcome σ} (h : e.Ends (.loop pos body next) m o) : motive m o h := by
  have hall {l : Block} {m : Machine σ} {o : Outcome σ} (h : e.Ends l m o) :
      l = .loop pos body next → ∀ h, motive m o h := by
    induction h with
    | done => simp
    | act => simp
    | fault => simp
    | stop h =>
      rintro ⟨⟩ -
      exact stop h
    | skip h hz hn _ =>
      rintro ⟨⟩ -
      exact skip h hz hn
    | inside h hz hb _ =>
      rintro ⟨⟩ -
      exact inside h hz hb
    | again h hz hb hn _ ih =>
      rintro ⟨⟩ -
      exact again h hz hb hn (ih rfl hn)
  exact hall h rfl h

/-- What every step keeps of a machine, relative to any earlier one, every run keeps. -/
theorem Ends.invariant {I : Machine σ → Machine σ → Prop} (refl : ∀ m, I m m)
    (trans : ∀ {m₁ m₂ m₃}, I m₁ m₂ → I m₂ m₃ → I m₁ m₃) (counted : ∀ m, I m m.counted)
    (perform : ∀ i pos m, I m (m.perform i pos).machine) (h : e.Ends b m o) : I m o.machine := by
  have htick {pos : Position} {m m' : Machine σ} (ht : e.tick pos m = .finished m') : I m m' := by
    rw [(tick_eq_finished_iff.mp ht).1]
    exact counted m
  have hadvance (i : Instr) (pos : Position) (m : Machine σ) :
      I m (e.advance i pos m).machine := by
    unfold advance
    cases ht : e.tick pos m with
    | finished m' => exact trans (htick ht) (perform i pos m')
    | faulted f m' =>
      rw [Outcome.machine, (tick_eq_faulted_iff.mp ht).1]
      exact counted m
  induction h with
  | done => exact refl _
  | @act i pos _ m _ _ h _ ih =>
    have hm := hadvance i pos m
    rw [h] at hm
    exact trans hm ih
  | @fault i pos _ m _ _ h =>
    have hm := hadvance i pos m
    rw [h] at hm
    exact hm
  | stop h =>
    rw [Outcome.machine, (tick_eq_faulted_iff.mp h).1]
    exact counted _
  | skip h _ _ ih => exact trans (htick h) ih
  | inside h _ _ ih => exact trans (htick h) ih
  | again h _ _ _ ihb ih => exact trans (htick h) (trans ihb ih)

/-- The whole run of a program ends in `r`. -/
def Executes (e : Engine) (program? : Option Program) (m : Machine σ) (r : Run σ) : Prop :=
  ∃ fuel, e.execute fuel program? m = some r

theorem executes_iff {p : Program} {r : Run σ} :
    e.Executes (some p) m r ↔
      ∃ o, e.Ends p.body { m with steps := 0 } o ∧ r = conclude p.text o := by
  simp only [Executes, execute, Option.map_eq_some_iff, ← exists_exec_iff_ends]
  constructor
  · rintro ⟨fuel, o, ho, rfl⟩
    exact ⟨o, ⟨fuel, ho⟩, rfl⟩
  · rintro ⟨o, ⟨fuel, ho⟩, rfl⟩
    exact ⟨fuel, o, ho, rfl⟩

theorem Executes.unique {p : Program} {r r' : Run σ} (h : e.Executes (some p) m r)
    (h' : e.Executes (some p) m r') : r = r' := by
  obtain ⟨o, ho, rfl⟩ := executes_iff.mp h
  obtain ⟨o', ho', rfl⟩ := executes_iff.mp h'
  rw [ho.unique ho']

end Engine
end TapeLang
