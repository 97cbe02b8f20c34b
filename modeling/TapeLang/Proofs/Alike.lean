import TapeLang.Proofs.Runs

/-! Two runs side by side. Blocks of the same shape, started on machines that agree, end in the
same way after the same fuel, whatever the places of their statements, and agree when they end. -/
namespace TapeLang

section
variable {α β γ δ : Type} {r : α → β → Prop} {s : γ → δ → Prop} {x : Option α} {y : Option β}

theorem rel_bind {f : α → Option γ} {g : β → Option δ} (h : Option.Rel r x y)
    (hfg : ∀ a b, r a b → Option.Rel s (f a) (g b)) : Option.Rel s (x.bind f) (y.bind g) := by
  cases h with
  | none => exact .none
  | some h => exact hfg _ _ h

theorem rel_map {f : α → γ} {g : β → δ} (h : Option.Rel r x y)
    (hfg : ∀ a b, r a b → s (f a) (g b)) : Option.Rel s (x.map f) (y.map g) := by
  cases h with
  | none => exact .none
  | some h => exact .some (hfg _ _ h)

theorem rel_imp {r' : α → β → Prop} (h : Option.Rel r x y) (himp : ∀ a b, r a b → r' a b) :
    Option.Rel r' x y := by
  cases h with
  | none => exact .none
  | some h => exact .some (himp _ _ h)

end

variable {σ τ : Type} {T : Position → Position → Prop} {R : Nat → Nat → Prop} {C : σ → τ → Prop}

/-- Related states of two channels give the same answers and stay related. -/
structure Channel.Bisimilar [Channel σ] [Channel τ] (C : σ → τ → Prop) : Prop where
  read : ∀ {s t}, C s t → (Channel.read s).1 = (Channel.read t).1 ∧
    C (Channel.read s).2 (Channel.read t).2
  write : ∀ {s t} (x : UInt8), C s t → (Channel.write x s).1 = (Channel.write x t).1 ∧
    C (Channel.write x s).2 (Channel.write x t).2
  flush : ∀ {s t}, C s t → (Channel.flush s).1 = (Channel.flush t).1 ∧
    C (Channel.flush s).2 (Channel.flush t).2

theorem Channel.bisimilar_eq [Channel σ] : Channel.Bisimilar (@Eq σ) where
  read h := by rw [h]; exact ⟨rfl, rfl⟩
  write x h := by rw [h]; exact ⟨rfl, rfl⟩
  flush h := by rw [h]; exact ⟨rfl, rfl⟩

/-- Two machines that differ at most in their channels and counts of steps. -/
structure Machine.Agree (R : Nat → Nat → Prop) (C : σ → τ → Prop) (m : Machine σ)
    (m' : Machine τ) : Prop where
  tape : m.tape = m'.tape
  pointer : m.pointer = m'.pointer
  log : m.log = m'.log
  steps : R m.steps m'.steps
  channel : C m.channel m'.channel

/-- The same failure, of statements at related places. -/
structure Fault.Alike (T : Position → Position → Prop) (f f' : Fault) : Prop where
  cause : f.cause = f'.cause
  pos : T f.pos f'.pos
  pointer : f.pointer = f'.pointer

theorem Fault.Alike.eq {f f' : Fault} (h : f.Alike Eq f') : f = f' := by
  obtain ⟨cause, pos, pointer⟩ := f
  obtain ⟨rfl, rfl, rfl⟩ := h
  rfl

inductive Outcome.Alike (T : Position → Position → Prop) (M : Machine σ → Machine τ → Prop) :
    Outcome σ → Outcome τ → Prop where
  | finished {m : Machine σ} {m' : Machine τ} (hm : M m m') :
      Alike T M (.finished m) (.finished m')
  | faulted {f f' : Fault} {m : Machine σ} {m' : Machine τ} (hf : f.Alike T f') (hm : M m m') :
      Alike T M (.faulted f m) (.faulted f' m')

/-- Frames show the text around a place, so they are left open. -/
inductive RunError.Alike (T : Position → Position → Prop) : RunError → RunError → Prop where
  | noProgram : Alike T .noProgram .noProgram
  | fault {f f' : Fault} {frame? frame'? : Option CodeFrame} (hf : f.Alike T f') :
      Alike T (.fault f frame?) (.fault f' frame'?)
  | flushFailed (e : IoError) : Alike T (.flushFailed e) (.flushFailed e)

structure Run.Alike (T : Position → Position → Prop) (M : Machine σ → Machine τ → Prop)
    (r : Run σ) (r' : Run τ) : Prop where
  error : Option.Rel (RunError.Alike T) r.error? r'.error?
  machine : M r.machine r'.machine

/-- The same statements, at related places. -/
inductive Block.Aligned (T : Position → Position → Prop) : Block → Block → Prop where
  | done : Aligned T .done .done
  | act {i : Instr} {x y : Position} {next next' : Block} (hx : T x y)
      (hn : Aligned T next next') : Aligned T (.act i x next) (.act i y next')
  | loop {x y : Position} {body body' next next' : Block} (hx : T x y)
      (hb : Aligned T body body') (hn : Aligned T next next') :
      Aligned T (.loop x body next) (.loop y body' next')

theorem Block.aligned_refl (b : Block) : b.Aligned Eq b := by
  induction b with
  | done => exact .done
  | act i p next ih => exact .act rfl ih
  | loop p body next ihb ih => exact .loop rfl ihb ih

/-- Related counts of steps stay so, and are equal where a quota looks at them. -/
structure Engine.InStep (e : Engine) (R : Nat → Nat → Prop) : Prop where
  succ : ∀ {k l}, R k l → R (k + 1) (l + 1)
  eq : ∀ {k l}, 0 < e.quota → R k l → k = l

theorem Engine.inStep_eq (e : Engine) : e.InStep Eq where
  succ h := by rw [h]
  eq _ h := h

theorem Machine.agree_refl (m : Machine σ) : m.Agree Eq Eq m := ⟨rfl, rfl, rfl, rfl, rfl⟩

theorem Machine.agree_eq : (Machine.Agree Eq Eq : Machine σ → Machine σ → Prop) = Eq := by
  funext m m'
  apply propext
  constructor
  · rintro ⟨ht, hp, hl, hs, hc⟩
    cases m
    cases m'
    simp_all
  · rintro rfl
    exact m.agree_refl

theorem Machine.Agree.current {m : Machine σ} {m' : Machine τ} (h : m.Agree R C m') :
    m.current = m'.current := by
  simp only [Machine.current, h.tape, h.pointer]

theorem Machine.Agree.setCurrent {m : Machine σ} {m' : Machine τ} (h : m.Agree R C m')
    (x : UInt8) : (m.setCurrent x).Agree R C (m'.setCurrent x) where
  tape := by simp only [Machine.setCurrent, h.tape, h.pointer]
  pointer := h.pointer
  log := h.log
  steps := h.steps
  channel := h.channel

theorem Machine.Agree.fail {m : Machine σ} {m' : Machine τ} (h : m.Agree R C m') (c : Cause)
    {x y : Position} (hx : T x y) : Outcome.Alike T (Agree R C) (m.fail c x) (m'.fail c y) :=
  .faulted ⟨rfl, hx, h.pointer⟩ h

theorem Outcome.Alike.andThen {M : Machine σ → Machine τ → Prop} {o : Outcome σ} {o' : Outcome τ}
    {next : Machine σ → Option (Outcome σ)} {next' : Machine τ → Option (Outcome τ)}
    (h : o.Alike T M o') (hn : ∀ m m', M m m' → Option.Rel (Alike T M) (next m) (next' m')) :
    Option.Rel (Alike T M) (o.andThen next) (o'.andThen next') := by
  cases h with
  | finished hm => exact hn _ _ hm
  | faulted hf hm => exact .some (.faulted hf hm)

theorem Machine.Agree.tick {e : Engine} (hR : e.InStep R) {m : Machine σ} {m' : Machine τ}
    (h : m.Agree R C m') {x y : Position} (hx : T x y) :
    Outcome.Alike T (Agree R C) (e.tick x m) (e.tick y m') := by
  have hm : m.counted.Agree R C m'.counted :=
    ⟨h.tape, h.pointer, h.log, hR.succ h.steps, h.channel⟩
  have hquota : e.IsOver m.counted ↔ e.IsOver m'.counted :=
    and_congr_right fun hq => by simp only [stepWord, counted, hR.eq hq h.steps]
  rw [Engine.tick_eq, Engine.tick_eq]
  by_cases hover : e.IsOver m.counted
  · rw [if_pos hover, if_pos (hquota.mp hover)]
    exact hm.fail _ hx
  · rw [if_neg hover, if_neg (mt hquota.mpr hover)]
    exact .finished hm

section
variable [Channel σ] [Channel τ]

theorem Machine.Agree.perform (hC : Channel.Bisimilar C) {m : Machine σ} {m' : Machine τ}
    (h : m.Agree R C m') (i : Instr) {x y : Position} (hx : T x y) :
    Outcome.Alike T (Agree R C) (m.perform i x) (m'.perform i y) := by
  cases i with
  | right =>
    unfold Machine.perform
    by_cases hp : m.pointer.val + 1 < tapeSize
    · have hp' : m'.pointer.val + 1 < tapeSize := by rw [← h.pointer]; exact hp
      rw [dif_pos hp, dif_pos hp']
      exact .finished ⟨h.tape, by simp only [h.pointer], h.log, h.steps, h.channel⟩
    · have hp' : ¬ m'.pointer.val + 1 < tapeSize := by rw [← h.pointer]; exact hp
      rw [dif_neg hp, dif_neg hp']
      exact h.fail .pastEnd hx
  | left =>
    unfold Machine.perform
    by_cases hp : m.pointer.val = 0
    · have hp' : m'.pointer.val = 0 := by rw [← h.pointer]; exact hp
      rw [if_pos hp, if_pos hp']
      exact h.fail .belowStart hx
    · have hp' : ¬ m'.pointer.val = 0 := by rw [← h.pointer]; exact hp
      rw [if_neg hp, if_neg hp']
      exact .finished ⟨h.tape, by simp only [h.pointer], h.log, h.steps, h.channel⟩
  | increment =>
    unfold Machine.perform
    rw [h.current]
    exact .finished (h.setCurrent _)
  | decrement =>
    unfold Machine.perform
    rw [h.current]
    exact .finished (h.setCurrent _)
  | output =>
    obtain ⟨hanswer, hafter⟩ := hC.write m.current h.channel
    unfold Machine.perform
    dsimp only
    rw [← h.current, ← hanswer]
    have hm : Machine.Agree R C
        { m with log := m.log.push m.current, channel := (Channel.write m.current m.channel).2 }
        { m' with log := m'.log.push m.current, channel := (Channel.write m.current m'.channel).2 } :=
      ⟨h.tape, h.pointer, by rw [h.log], h.steps, hafter⟩
    cases (Channel.write m.current m.channel).1 with
    | none => exact .finished hm
    | some e => exact hm.fail (.writeFailed e) hx
  | input =>
    obtain ⟨hanswer, hafter⟩ := hC.read h.channel
    unfold Machine.perform
    dsimp only
    rw [← hanswer]
    have hm : Machine.Agree R C { m with channel := (Channel.read m.channel).2 }
        { m' with channel := (Channel.read m'.channel).2 } :=
      ⟨h.tape, h.pointer, h.log, h.steps, hafter⟩
    cases (Channel.read m.channel).1 with
    | error e => exact hm.fail (.readFailed e) hx
    | ok x? =>
      cases x? with
      | none => exact .finished hm
      | some x => exact .finished (hm.setCurrent x)

namespace Engine
variable {e : Engine} {m : Machine σ} {m' : Machine τ}

theorem advance_alike (hR : e.InStep R) (hC : Channel.Bisimilar C) (h : m.Agree R C m')
    (i : Instr) {x y : Position} (hx : T x y) :
    Outcome.Alike T (Machine.Agree R C) (e.advance i x m) (e.advance i y m') := by
  have ht := h.tick hR hx
  unfold advance
  generalize e.tick x m = o at ht ⊢
  generalize e.tick y m' = o' at ht ⊢
  cases ht with
  | finished hm => exact hm.perform hC i hx
  | faulted hf hm => exact .faulted hf hm

/-- Aligned blocks run alike on machines that agree, and need the same fuel for it. -/
theorem exec_alike (hR : e.InStep R) (hC : Channel.Bisimilar C) {b b' : Block}
    (hb : b.Aligned T b') (h : m.Agree R C m') (fuel : Nat) :
    Option.Rel (Outcome.Alike T (Machine.Agree R C)) (e.exec fuel b m) (e.exec fuel b' m') := by
  induction fuel generalizing b b' m m' with
  | zero => exact .none
  | succ fuel ih =>
    cases hb with
    | done => exact .some (.finished h)
    | act hx hn =>
      rw [exec_act, exec_act]
      exact (advance_alike hR hC h _ hx).andThen fun _ _ hm => ih hn hm
    | loop hx hb hn =>
      rw [exec_loop, exec_loop]
      refine (h.tick hR hx).andThen fun m₁ m₁' hm => ?_
      rw [hm.current]
      by_cases hz : m₁'.current = 0
      · rw [if_pos hz, if_pos hz]
        exact ih hn hm
      · rw [if_neg hz, if_neg hz]
        exact rel_bind (ih hb hm) fun _ _ ho =>
          ho.andThen fun _ _ hm₂ => ih (.loop hx hb hn) hm₂

theorem Ends.alike (hR : e.InStep R) (hC : Channel.Bisimilar C) {b b' : Block}
    (hb : b.Aligned T b') (h : m.Agree R C m') {o : Outcome σ} (ho : e.Ends b m o) :
    ∃ o', e.Ends b' m' o' ∧ o.Alike T (Machine.Agree R C) o' := by
  obtain ⟨fuel, hfuel⟩ := ho.exists_exec
  have hrel := exec_alike hR hC hb h fuel
  rw [hfuel] at hrel
  generalize hx : e.exec fuel b' m' = x at hrel
  cases hrel with
  | some halike => exact ⟨_, ends_of_exec hx, halike⟩

theorem Ends.of_alike (hR : e.InStep R) (hC : Channel.Bisimilar C) {b b' : Block}
    (hb : b.Aligned T b') (h : m.Agree R C m') {o' : Outcome τ} (ho : e.Ends b' m' o') :
    ∃ o, e.Ends b m o ∧ o.Alike T (Machine.Agree R C) o' := by
  obtain ⟨fuel, hfuel⟩ := ho.exists_exec
  have hrel := exec_alike hR hC hb h fuel
  rw [hfuel] at hrel
  generalize hx : e.exec fuel b m = x at hrel
  cases hrel with
  | some halike => exact ⟨_, ends_of_exec hx, halike⟩

theorem conclude_alike (hC : Channel.Bisimilar C) {o : Outcome σ} {o' : Outcome τ}
    (h : o.Alike T (Machine.Agree R C) o') (text text' : List Char) :
    (conclude text o).Alike T (Machine.Agree R C) (conclude text' o') := by
  cases h with
  | finished hm =>
    rename_i m m'
    obtain ⟨hanswer, hafter⟩ := hC.flush hm.channel
    refine ⟨?_, ⟨hm.tape, hm.pointer, hm.log, hm.steps, hafter⟩⟩
    dsimp only [conclude]
    rw [hanswer]
    cases (Channel.flush m'.channel).1 with
    | none => exact .none
    | some e => exact .some (.flushFailed e)
  | faulted hf hm =>
    obtain ⟨-, hafter⟩ := hC.flush hm.channel
    exact ⟨.some (.fault hf), ⟨hm.tape, hm.pointer, hm.log, hm.steps, hafter⟩⟩

/-- In one text, at the same places, frames are the same too. -/
theorem error_conclude_eq (hC : Channel.Bisimilar C) {o : Outcome σ} {o' : Outcome τ}
    (h : o.Alike Eq (Machine.Agree R C) o') (text : List Char) :
    (conclude text o).error? = (conclude text o').error? := by
  cases h with
  | finished hm =>
    dsimp only [conclude]
    rw [(hC.flush hm.channel).1]
  | faulted hf hm =>
    rw [hf.eq]
    rfl

/-- Programs with aligned statements run alike from machines that agree, whatever their counts of
steps were before. -/
theorem execute_alike (hC : Channel.Bisimilar C) {p q : Program} (hb : p.body.Aligned T q.body)
    (h : m.Agree R C m') (fuel : Nat) :
    Option.Rel (Run.Alike T (Machine.Agree Eq C)) (e.execute fuel (some p) m)
      (e.execute fuel (some q) m') := by
  have hm : Machine.Agree Eq C { m with steps := 0 } { m' with steps := 0 } :=
    ⟨h.tape, h.pointer, h.log, rfl, h.channel⟩
  have hrel := exec_alike e.inStep_eq hC hb hm fuel
  exact rel_map hrel fun _ _ ho => conclude_alike hC ho p.text q.text

end Engine
end
end TapeLang
