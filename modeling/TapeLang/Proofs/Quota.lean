import TapeLang.Proofs.Progress

/-! Quotas: a run with a quota that can be exceeded always ends, at most one step over it, and a
larger quota changes nothing but where a run is stopped. -/
namespace TapeLang
variable {σ : Type}

def Outcome.isOverQuota : Outcome σ → Bool
  | .finished _ => false
  | .faulted f _ => f.cause.isOverQuota

/-- The run was stopped by its quota. -/
def Run.isOverQuota (r : Run σ) : Bool :=
  match r.error? with
  | some (.fault f _) => f.cause.isOverQuota
  | _ => false

/-- Only a run that its quota stops goes over it, and by one step. -/
structure Outcome.Within (quota : Nat) (o : Outcome σ) : Prop where
  bound : o.machine.steps ≤ quota + 1
  exceeds_iff : o.machine.steps = quota + 1 ↔ o.isOverQuota = true

theorem Outcome.within_finished {quota : Nat} {m : Machine σ} :
    (Outcome.finished m).Within quota ↔ m.steps ≤ quota := by
  constructor
  · rintro ⟨hbound, hover⟩
    simp only [machine, isOverQuota, Bool.false_eq_true, iff_false] at hbound hover
    omega
  · intro h
    refine ⟨by simp only [machine]; omega, ?_⟩
    simp only [machine, isOverQuota, Bool.false_eq_true, iff_false]
    omega

theorem Run.Alike.isOverQuota {τ : Type} {T : Position → Position → Prop}
    {M : Machine σ → Machine τ → Prop} {r : Run σ} {r' : Run τ} (h : r.Alike T M r') :
    r.isOverQuota = r'.isOverQuota := by
  obtain ⟨error?, m⟩ := r
  obtain ⟨error'?, m'⟩ := r'
  obtain ⟨herror, -⟩ := h
  cases herror with
  | none => rfl
  | some herror =>
    cases herror with
    | noProgram => rfl
    | fault hf => exact congrArg Cause.isOverQuota hf.cause
    | flushFailed => rfl

namespace Engine
variable {e e' : Engine} {pos : Position} {m m' : Machine σ}

theorem within_of_tick_faulted {f : Fault} (hm : m.steps ≤ e.quota)
    (h : e.tick pos m = .faulted f m') : (Outcome.faulted f m').Within e.quota := by
  obtain ⟨rfl, rfl, hover⟩ := tick_eq_faulted_iff.mp h
  have hsteps : m.counted.steps = e.quota + 1 := by
    have hlt := hover.quota_lt
    simp only [Machine.counted] at hlt ⊢
    omega
  exact ⟨Nat.le_of_eq hsteps, iff_of_true hsteps rfl⟩

theorem steps_of_tick_finished (he : e.IsLimited) (hm : m.steps ≤ e.quota)
    (h : e.tick pos m = .finished m') : m'.steps = m.steps + 1 ∧ m'.steps ≤ e.quota := by
  obtain ⟨rfl, hover⟩ := tick_eq_finished_iff.mp h
  rw [he.isOver_iff (Nat.succ_le_succ hm), Nat.not_lt] at hover
  exact ⟨rfl, hover⟩

/-- Any larger quota, or none. -/
def Widens (e e' : Engine) : Prop := e'.quota = 0 ∨ e.quota < e'.quota

theorem tick_of_widens (hq : 0 < e.quota) (hw : e.Widens e')
    (h : e.tick pos m = .finished m') : e'.tick pos m = .finished m' := by
  obtain ⟨rfl, hover⟩ := tick_eq_finished_iff.mp h
  refine tick_eq_finished_iff.mpr ⟨rfl, ?_⟩
  rintro ⟨hq', hlt⟩
  refine hover ⟨hq, ?_⟩
  rcases hw with hw | hw <;> omega

end Engine

section
variable [Channel σ]

/-- What an instruction does is not counted and needs no quota. -/
theorem Machine.perform_uncounted (m : Machine σ) (i : Instr) (pos : Position) :
    (m.perform i pos).machine.steps = m.steps ∧ (m.perform i pos).isOverQuota = false := by
  cases i with
  | right =>
    simp only [perform]
    split_ifs <;> exact ⟨rfl, rfl⟩
  | left =>
    simp only [perform]
    split_ifs <;> exact ⟨rfl, rfl⟩
  | increment => exact ⟨rfl, rfl⟩
  | decrement => exact ⟨rfl, rfl⟩
  | output =>
    simp only [perform]
    cases (Channel.write m.current m.channel).1 <;> exact ⟨rfl, rfl⟩
  | input =>
    simp only [perform]
    cases (Channel.read m.channel).1 with
    | error e => exact ⟨rfl, rfl⟩
    | ok x? => cases x? <;> exact ⟨rfl, rfl⟩

namespace Engine
variable {e e' : Engine} {b : Block} {i : Instr} {pos : Position} {m m' : Machine σ}
  {o o' : Outcome σ}

theorem isOverQuota_conclude (text : List Char) (o : Outcome σ) :
    (conclude text o).isOverQuota = o.isOverQuota := by
  cases o with
  | faulted f m => rfl
  | finished m =>
    unfold conclude Run.isOverQuota
    dsimp only
    cases (Channel.flush m.channel).1 <;> rfl

theorem advance_steps (e : Engine) (i : Instr) (pos : Position) (m : Machine σ) :
    (e.advance i pos m).machine.steps = m.steps + 1 := by
  unfold advance
  cases h : e.tick pos m with
  | faulted f m' =>
    obtain ⟨rfl, -⟩ := tick_eq_faulted_iff.mp h
    rfl
  | finished m' =>
    obtain ⟨rfl, -⟩ := tick_eq_finished_iff.mp h
    exact (m.counted.perform_uncounted i pos).1

theorem within_advance (he : e.IsLimited) (hm : m.steps ≤ e.quota) (i : Instr)
    (pos : Position) : (e.advance i pos m).Within e.quota := by
  unfold advance
  cases h : e.tick pos m with
  | faulted f m' => exact within_of_tick_faulted hm h
  | finished m' =>
    obtain ⟨hsteps, hover⟩ := m'.perform_uncounted i pos
    have hle := (steps_of_tick_finished he hm h).2
    refine ⟨by rw [hsteps]; omega, ?_⟩
    rw [hsteps, hover, Bool.false_eq_true, iff_false]
    omega

theorem Ends.within (he : e.IsLimited) (h : e.Ends b m o) (hm : m.steps ≤ e.quota) :
    o.Within e.quota := by
  induction h with
  | done => exact Outcome.within_finished.mpr hm
  | @act i pos _ m _ _ h _ ih =>
    have hadvance := within_advance he hm i pos
    rw [h, Outcome.within_finished] at hadvance
    exact ih hadvance
  | @fault i pos _ m _ _ h =>
    have hadvance := within_advance he hm i pos
    rw [h] at hadvance
    exact hadvance
  | stop h => exact within_of_tick_faulted hm h
  | skip h _ _ ih => exact ih (steps_of_tick_finished he hm h).2
  | inside h _ _ ih => exact ih (steps_of_tick_finished he hm h).2
  | again h _ _ _ ihb ih =>
    exact ih (Outcome.within_finished.mp (ihb (steps_of_tick_finished he hm h).2))

theorem Ends.steps_le (h : e.Ends b m o) : m.steps ≤ o.machine.steps :=
  (h.extends Channel.carries_true).steps

/-- Every statement on the way costs a step, so that fuel for the steps left, and one more, is
always enough. -/
theorem exists_exec_of_quota (he : e.IsLimited) {fuel : Nat} (hm : m.steps ≤ e.quota)
    (hfuel : e.quota < m.steps + fuel) : ∃ o, e.exec fuel b m = some o := by
  induction fuel generalizing b m with
  | zero => omega
  | succ fuel ih =>
    cases b with
    | done => exact ⟨.finished m, rfl⟩
    | act i pos next =>
      rw [exec_act]
      cases h : e.advance i pos m with
      | faulted f m' => exact ⟨.faulted f m', rfl⟩
      | finished m' =>
        have hadvance := within_advance he hm i pos
        rw [h, Outcome.within_finished] at hadvance
        have hsteps := e.advance_steps i pos m
        rw [h, Outcome.machine] at hsteps
        exact ih hadvance (by omega)
    | loop pos body next =>
      rw [exec_loop]
      cases h : e.tick pos m with
      | faulted f m' => exact ⟨.faulted f m', rfl⟩
      | finished m' =>
        obtain ⟨hsteps, hle⟩ := steps_of_tick_finished he hm h
        dsimp only [Outcome.andThen]
        by_cases hz : m'.current = 0
        · rw [if_pos hz]
          exact ih hle (by omega)
        · rw [if_neg hz]
          obtain ⟨o, ho⟩ := ih (b := body) hle (by omega)
          rw [ho, Option.bind_some]
          cases o with
          | faulted f m'' => exact ⟨.faulted f m'', rfl⟩
          | finished m'' =>
            -- The loop test has cost a step, so even an empty pass leaves less to go.
            have hends := ends_of_exec ho
            have hle' := Outcome.within_finished.mp (hends.within he hle)
            have hlater : m'.steps ≤ m''.steps := hends.steps_le
            exact ih hle' (by omega)

theorem advance_of_widens (hq : 0 < e.quota) (hw : e.Widens e')
    (ho : (e.advance i pos m).isOverQuota = false) : e'.advance i pos m = e.advance i pos m := by
  unfold advance at ho ⊢
  cases h : e.tick pos m with
  | finished m' => rw [tick_of_widens hq hw h]
  | faulted f m' =>
    rw [h] at ho
    obtain ⟨-, rfl, -⟩ := tick_eq_faulted_iff.mp h
    simp [Outcome.isOverQuota, Cause.isOverQuota] at ho

/-- A run that its quota does not stop is the same with a larger one. -/
theorem Ends.of_widens (hq : 0 < e.quota) (hw : e.Widens e') (h : e.Ends b m o)
    (ho : o.isOverQuota = false) : e'.Ends b m o := by
  induction h with
  | done => exact .done
  | act h _ ih => exact .act (by rw [advance_of_widens hq hw (by rw [h]; rfl), h]) (ih ho)
  | fault h => exact .fault (by rw [advance_of_widens hq hw (by rw [h]; exact ho), h])
  | stop h =>
    obtain ⟨-, rfl, -⟩ := tick_eq_faulted_iff.mp h
    simp [Outcome.isOverQuota, Cause.isOverQuota] at ho
  | skip h hz _ ih => exact .skip (tick_of_widens hq hw h) hz (ih ho)
  | inside h hz _ ih => exact .inside (tick_of_widens hq hw h) hz (ih ho)
  | again h hz _ _ ihb ih => exact .again (tick_of_widens hq hw h) hz (ihb rfl) (ih ho)

section
variable {G : σ → σ → Prop}

theorem extends_advance (hG : Channel.Carries G) (e : Engine) (i : Instr) (pos : Position)
    (m : Machine σ) : m.counted.Extends G (e.advance i pos m).machine := by
  unfold advance
  cases h : e.tick pos m with
  | faulted f m' =>
    obtain ⟨rfl, -⟩ := tick_eq_faulted_iff.mp h
    exact Machine.extends_refl hG _
  | finished m' =>
    obtain ⟨rfl, -⟩ := tick_eq_finished_iff.mp h
    exact Machine.extends_perform hG i pos _

theorem Ends.extends_act (hG : Channel.Carries G) {next : Block}
    (h : e.Ends (.act i pos next) m o) : m.counted.Extends G o.machine := by
  have hadvance := extends_advance hG e i pos m
  cases h with
  | act h hn =>
    rw [h] at hadvance
    exact hadvance.trans hG (hn.extends hG)
  | fault h =>
    rw [h] at hadvance
    exact hadvance

theorem Ends.extends_loop (hG : Channel.Carries G) {body next : Block}
    (h : e.Ends (.loop pos body next) m o) : m.counted.Extends G o.machine := by
  cases h with
  | stop h =>
    obtain ⟨rfl, -⟩ := tick_eq_faulted_iff.mp h
    exact Machine.extends_refl hG _
  | skip h _ hn =>
    obtain ⟨rfl, -⟩ := tick_eq_finished_iff.mp h
    exact hn.extends hG
  | inside h _ hb =>
    obtain ⟨rfl, -⟩ := tick_eq_finished_iff.mp h
    exact hb.extends hG
  | again h _ hb hn =>
    obtain ⟨rfl, -⟩ := tick_eq_finished_iff.mp h
    exact (hb.extends hG).trans hG (hn.extends hG)

theorem machine_of_advance_over (h : (e.advance i pos m).isOverQuota = true) :
    (e.advance i pos m).machine = m.counted := by
  unfold advance at h ⊢
  cases ht : e.tick pos m with
  | faulted f m' =>
    obtain ⟨rfl, -⟩ := tick_eq_faulted_iff.mp ht
    rfl
  | finished m' =>
    rw [ht] at h
    rw [(m'.perform_uncounted i pos).2] at h
    cases h

/-- Where a quota stops a run, the run with a larger one goes on. -/
theorem Ends.extends_over (hG : Channel.Carries G) (hq : 0 < e.quota) (hw : e.Widens e')
    (h : e.Ends b m o) (ho : o.isOverQuota = true) (h' : e'.Ends b m o') :
    o.machine.Extends G o'.machine := by
  induction h generalizing o' with
  | done => cases ho
  | act h _ ih =>
    have hadvance := advance_of_widens hq hw (by rw [h]; rfl)
    exact ih ho ((ends_act_iff (hadvance.trans h)).mp h')
  | fault h =>
    have hmachine := machine_of_advance_over (by rw [h]; exact ho)
    rw [h] at hmachine
    rw [hmachine]
    exact h'.extends_act hG
  | stop h =>
    obtain ⟨rfl, -⟩ := tick_eq_faulted_iff.mp h
    exact h'.extends_loop hG
  | skip h hz _ ih => exact ih ho ((ends_skip_iff (tick_of_widens hq hw h) hz).mp h')
  | inside h hz _ ih =>
    rcases (ends_enter_iff (tick_of_widens hq hw h) hz).mp h' with ⟨f, m₂, rfl, hb⟩ | ⟨m₂, hb, hn⟩
    · exact ih ho hb
    · exact (ih ho hb).trans hG (hn.extends hG)
  | again h hz hb _ _ ih =>
    -- The pass itself was not stopped, so it is the same with the larger quota.
    have hbody := hb.of_widens hq hw rfl
    rcases (ends_enter_iff (tick_of_widens hq hw h) hz).mp h' with ⟨f, m₂, rfl, hb₂⟩ | ⟨m₂, hb₂, hn⟩
    · cases hbody.unique hb₂
    · cases hbody.unique hb₂
      exact ih ho hn

end

theorem conclude_steps (text : List Char) (o : Outcome σ) :
    (conclude text o).machine.steps = o.machine.steps := by
  cases o <;> rfl

/-- With its input on record, a run that was stopped is seen to be the beginning of a longer one. -/
theorem Executes.extends_over {p : Program} {m : Machine (Recorded σ)} {r r' : Run (Recorded σ)}
    (hq : 0 < e.quota) (hw : e.Widens e') (h : e.Executes (some p) m r)
    (ho : r.isOverQuota = true) (h' : e'.Executes (some p) m r') :
    r.machine.Extends (fun s t => s.taken <+: t.taken) r'.machine := by
  obtain ⟨o, hends, rfl⟩ := executes_iff.mp h
  obtain ⟨o', hends', rfl⟩ := executes_iff.mp h'
  rw [isOverQuota_conclude] at ho
  have hrun := hends.extends_over Recorded.carries_taken hq hw ho hends'
  cases o <;> cases o' <;> exact ⟨hrun.steps, hrun.log, hrun.channel⟩

/-- A run with a quota `q` below the greatest word ends, after at most `q + 1` steps, and after that
many exactly when the quota stopped it. If it did not, a larger quota or none changes nothing. If it
did, every run with a larger quota or none that ends takes more than `q` steps, writes what was
written and more, and consumes what was consumed and more. -/
theorem execute_quota (p : Program) (m : Machine σ) {q : Nat} (hq : 0 < q)
    (hword : q + 1 < Word.bound) :
    ∃ r, execute ⟨q⟩ (q + 1) (some p) m = some r ∧ r.machine.steps ≤ q + 1 ∧
      (r.machine.steps = q + 1 ↔ r.isOverQuota = true) ∧
      ∀ q', q' = 0 ∨ q < q' →
        (r.isOverQuota = false → Executes ⟨q'⟩ (some p) m r) ∧
        (r.isOverQuota = true → ∀ fuel r', execute ⟨q'⟩ fuel (some p) m = some r' →
          q < r'.machine.steps ∧ r.machine.log.toList <+: r'.machine.log.toList ∧
            consumed ⟨q⟩ (q + 1) (some p) m <+: consumed ⟨q'⟩ fuel (some p) m) := by
  let e : Engine := ⟨q⟩
  have he : e.IsLimited := ⟨hq, hword⟩
  obtain ⟨o, ho⟩ : ∃ o, e.exec (q + 1) p.body { m with steps := 0 } = some o :=
    exists_exec_of_quota he (Nat.zero_le _) (by change q < 0 + (q + 1); omega)
  have hends := ends_of_exec ho
  have hwithin := hends.within he (Nat.zero_le _)
  have hr : e.execute (q + 1) (some p) m = some (conclude p.text o) := by
    rw [execute, ho]
    rfl
  refine ⟨conclude p.text o, hr, ?_, ?_, ?_⟩
  · rw [conclude_steps]
    exact hwithin.bound
  · rw [conclude_steps, isOverQuota_conclude]
    exact hwithin.exceeds_iff
  intro q' hw
  constructor
  · intro hover
    rw [isOverQuota_conclude] at hover
    exact executes_iff.mpr ⟨o, hends.of_widens hq hw hover, rfl⟩
  · intro hover fuel r' hr'
    -- The runs are compared with their input on record, since a channel need not show it.
    obtain ⟨s, hs, hlike, htaken⟩ := execute_recording hr
    obtain ⟨s', hs', hlike', htaken'⟩ := execute_recording hr'
    have hrun := Executes.extends_over hq hw ⟨_, hs⟩ (hlike.isOverQuota ▸ hover) ⟨_, hs'⟩
    have hsteps : (conclude p.text o).machine.steps = q + 1 := by
      rw [conclude_steps, hwithin.exceeds_iff, ← isOverQuota_conclude p.text]
      exact hover
    refine ⟨?_, ?_, ?_⟩
    · have hle := hrun.steps
      rw [← hlike.machine.steps, ← hlike'.machine.steps, hsteps] at hle
      exact hle
    · rw [hlike.machine.log, hlike'.machine.log]
      exact hrun.log
    · rw [htaken, htaken']
      exact hrun.channel

/-- Stopped at its second read, a run has consumed one byte; without the quota it goes on. -/
theorem execute_quota_second_read :
    ∃ p r, Program.parse [0x2C, 0x2E, 0x2C, 0x2E] = .ok p ∧
      execute ⟨2⟩ 3 (some p) (.fresh (Buffer.ofInput [7, 8])) = some r ∧ r.isOverQuota = true ∧
      ∀ fuel r', execute ⟨0⟩ fuel (some p) (.fresh (Buffer.ofInput [7, 8])) = some r' →
        2 < r'.machine.steps ∧
          [7] <+: consumed ⟨0⟩ fuel (some p) (.fresh (Buffer.ofInput [7, 8])) := by
  let p : Program := ⟨.act .input ⟨0, 1, 1⟩ (.act .output ⟨1, 1, 2⟩ (.act .input ⟨2, 1, 3⟩
    (.act .output ⟨3, 1, 4⟩ .done))), [0x2C, 0x2E, 0x2C, 0x2E]⟩
  let m : Machine Buffer := .fresh (.ofInput [7, 8])
  obtain ⟨r, hr, -, -, hlarger⟩ := execute_quota p m (q := 2) (by decide) (by decide)
  have hover : (execute ⟨2⟩ 3 (some p) m).map Run.isOverQuota = some true := rfl
  have hconsumed : consumed ⟨2⟩ 3 (some p) m = [7] := rfl
  rw [hr, Option.map_some, Option.some.injEq] at hover
  refine ⟨p, r, rfl, hr, hover, ?_⟩
  intro fuel r' hr'
  obtain ⟨hsteps, -, htaken⟩ := (hlarger 0 (Or.inl rfl)).2 hover fuel r' hr'
  rw [hconsumed] at htaken
  exact ⟨hsteps, htaken⟩

end Engine
end
end TapeLang
