import Mathlib.Logic.Function.Iterate
import TapeLang.Channel.Buffer
import TapeLang.Machine.Engine
import TapeLang.Proofs.Parse

/-! Programs run as plain sequences of symbols with a counter, brackets being jumps. Running the
tree of a program comes to the same: neither ends without the other, and both end alike. -/
namespace TapeLang

/-- A run of a sequence of symbols: before the symbol with index `counter`, or at its end. -/
inductive Flat (σ : Type) where
  | running (counter : Nat) (m : Machine σ)
  | halted (o : Outcome σ)

namespace Flat
open Brackets
variable {σ : Type}

/-- The index of the bracket that closes the one with index `i`. -/
def closingOf (code : List Token) (i : Nat) : Nat :=
  ((List.range code.length).find? fun j =>
    Encloses Symbol.opening Symbol.closing (code.map Token.symbol) i j).getD code.length

/-- The index of the bracket that the one with index `j` closes. -/
def openingOf (code : List Token) (j : Nat) : Nat :=
  ((List.range code.length).find? fun i =>
    Encloses Symbol.opening Symbol.closing (code.map Token.symbol) i j).getD code.length

/-- Goes on from a success; a fault is the end. -/
def andThen (o : Outcome σ) (next : Machine σ → Flat σ) : Flat σ :=
  match o with
  | .finished m => next m
  | .faulted f m => .halted (.faulted f m)

/-- One symbol. An instruction or an opening bracket counts as a step before it does anything; a
closing bracket only jumps back. -/
def step [Channel σ] (e : Engine) (code : List Token) : Flat σ → Flat σ
  | .halted o => .halted o
  | .running i m =>
    match code[i]? with
    | none => .halted (.finished m)
    | some ⟨.act instr, pos⟩ =>
      andThen (e.tick pos m) fun m => andThen (m.perform instr pos) fun m => .running (i + 1) m
    | some ⟨.opening, pos⟩ =>
      andThen (e.tick pos m) fun m =>
        .running (if m.current = 0 then closingOf code i + 1 else i + 1) m
    | some ⟨.closing, _⟩ => .running (openingOf code i) m

/-- A sequence of symbols, run from its first one, ends in `o`. -/
def Halts [Channel σ] (e : Engine) (code : List Token) (m : Machine σ) (o : Outcome σ) : Prop :=
  ∃ n, (step e code)^[n] (.running 0 m) = .halted o

private theorem find_range_eq {p : Nat → Bool} {n k : Nat} (hk : k < n) (hp : p k = true)
    (hu : ∀ l, p l = true → l = k) : ((List.range n).find? p).getD n = k := by
  have hsome : ((List.range n).find? p).isSome :=
    List.find?_isSome.mpr ⟨k, List.mem_range.mpr hk, hp⟩
  obtain ⟨l, hl⟩ := Option.isSome_iff_exists.mp hsome
  rw [hl]
  exact hu l (List.find?_some hl)

/-- The symbols `ts` stand in `code` from index `i` on. -/
private def Placed (code : List Token) (i : Nat) (ts : List Token) : Prop :=
  ∃ before after, code = before ++ (ts ++ after) ∧ i = before.length

private theorem placed_head {code ts : List Token} {i : Nat} {t : Token}
    (h : Placed code i (t :: ts)) : code[i]? = some t := by
  obtain ⟨before, after, rfl, rfl⟩ := h
  simp

private theorem placed_left {code us ts : List Token} {i : Nat} (h : Placed code i (us ++ ts)) :
    Placed code i us := by
  obtain ⟨before, after, rfl, rfl⟩ := h
  exact ⟨before, ts ++ after, by simp, rfl⟩

private theorem placed_right {code us ts : List Token} {i : Nat} (h : Placed code i (us ++ ts)) :
    Placed code (i + us.length) ts := by
  obtain ⟨before, after, rfl, rfl⟩ := h
  exact ⟨before ++ us, after, by simp, by simp⟩

private theorem placed_tail {code ts : List Token} {i : Nat} {t : Token}
    (h : Placed code i (t :: ts)) : Placed code (i + 1) ts :=
  @placed_right code [t] ts i h

/-- The brackets around a block find each other. -/
private theorem jumps_eq {code inside ts : List Token} {body : Block} {i : Nat} {p q : Position}
    (hb : body.Spells inside)
    (h : Placed code i (⟨.opening, p⟩ :: (inside ++ ⟨.closing, q⟩ :: ts))) :
    closingOf code i = i + 1 + inside.length ∧ openingOf code (i + 1 + inside.length) = i := by
  obtain ⟨before, after, rfl, rfl⟩ := h
  have henc := encloses_append hb.balanced (before.map Token.symbol)
    (ts.map Token.symbol ++ after.map Token.symbol)
  simp only [List.length_map] at henc
  unfold closingOf openingOf
  rw [show (before ++ (⟨.opening, p⟩ :: (inside ++ ⟨.closing, q⟩ :: ts) ++ after)).map
      Token.symbol = before.map Token.symbol ++ .opening :: (inside.map Token.symbol ++ .closing ::
        (ts.map Token.symbol ++ after.map Token.symbol)) by simp]
  constructor
  · refine find_range_eq (by simp; omega) (by simpa using henc) ?_
    intro j hj
    exact (henc.right_unique Symbol.opening_ne_closing (by simpa using hj)).symm
  · refine find_range_eq (by simp) (by simpa using henc) ?_
    intro j hj
    exact (henc.left_unique Symbol.opening_ne_closing (by simpa using hj)).symm

variable [Channel σ] {e : Engine} {code : List Token}

/-- Where the flat run is when the run of a block has used its fuel: at the end of the block's
symbols or at the same fault, or still on its way after at least as many symbols. -/
private def Tracks (e : Engine) (code : List Token) (start stop : Nat) (m : Machine σ)
    (fuel : Nat) : Option (Outcome σ) → Prop
  | some o => ∃ n, (step e code)^[n] (.running start m) = andThen o (.running stop)
  | none => ∃ n i m', fuel ≤ n ∧ (step e code)^[n] (.running start m) = .running i m'

private theorem tracks_after {start stop i k fuel : Nat} {m m' : Machine σ}
    {r : Option (Outcome σ)} (hk : 1 ≤ k)
    (h : (step e code)^[k] (.running start m) = .running i m')
    (ht : Tracks e code i stop m' fuel r) : Tracks e code start stop m (fuel + 1) r := by
  cases r with
  | some o =>
    obtain ⟨n, hn⟩ := ht
    refine ⟨n + k, ?_⟩
    rw [Function.iterate_add_apply, h, hn]
  | none =>
    obtain ⟨n, j, m'', hfuel, hn⟩ := ht
    refine ⟨n + k, j, m'', by omega, ?_⟩
    rw [Function.iterate_add_apply, h, hn]

private theorem tracks_fault {start stop fuel : Nat} {m m' : Machine σ} {f : Fault}
    (h : step e code (.running start m) = .halted (.faulted f m')) :
    Tracks e code start stop m fuel (some (.faulted f m')) :=
  ⟨1, h⟩

private theorem step_act {i : Nat} {instr : Instr} {p : Position} {m : Machine σ}
    (h : code[i]? = some ⟨.act instr, p⟩) :
    step e code (.running i m) = andThen (e.tick p m) fun m =>
      andThen (m.perform instr p) fun m => .running (i + 1) m := by
  rw [step, h]

private theorem step_opening {i : Nat} {p : Position} {m : Machine σ}
    (h : code[i]? = some ⟨.opening, p⟩) :
    step e code (.running i m) = andThen (e.tick p m) fun m =>
      .running (if m.current = 0 then closingOf code i + 1 else i + 1) m := by
  rw [step, h]

private theorem step_closing {i : Nat} {p : Position} {m : Machine σ}
    (h : code[i]? = some ⟨.closing, p⟩) :
    step e code (.running i m) = .running (openingOf code i) m := by
  rw [step, h]

/-- Into the body of a loop, through it, and back from its closing bracket. -/
private theorem iterate_pass {i j n : Nat} {q : Position} {m m₁ m₂ : Machine σ}
    (hin : step e code (.running i m) = .running (i + 1) m₁)
    (hbody : (step e code)^[n] (.running (i + 1) m₁) = .running j m₂)
    (hclosing : code[j]? = some ⟨.closing, q⟩) (hback : openingOf code j = i) :
    (step e code)^[1 + (n + 1)] (.running i m) = .running i m₂ := by
  rw [Function.iterate_add_apply, Function.iterate_add_apply, Function.iterate_one, hin, hbody,
    step_closing hclosing, hback]

/-- Running a block tracks running its symbols, wherever they stand. -/
private theorem tracks_exec {b : Block} {ts : List Token} {i : Nat} (hb : b.Spells ts)
    (hts : Placed code i ts) (fuel : Nat) (m : Machine σ) :
    Tracks e code i (i + ts.length) m fuel (e.exec fuel b m) := by
  -- On the fuel, since a loop is run again as a whole after each pass of its body.
  induction fuel generalizing b ts i m with
  | zero => exact ⟨0, i, m, le_rfl, rfl⟩
  | succ fuel ih =>
    cases hb with
    | done => exact ⟨0, rfl⟩
    | @act instr p next ts hnext =>
      have hstep := step_act (e := e) (m := m) (placed_head hts)
      have hstop : i + (⟨.act instr, p⟩ :: ts : List Token).length = i + 1 + ts.length := by
        simp only [List.length_cons]
        omega
      rw [hstop, Engine.exec]
      cases ht : e.tick p m with
      | faulted f m₁ =>
        rw [ht] at hstep
        exact tracks_fault hstep
      | finished m₁ =>
        rw [ht] at hstep
        dsimp only [andThen] at hstep ⊢
        cases hp : m₁.perform instr p with
        | faulted f m₂ =>
          rw [hp] at hstep
          exact tracks_fault hstep
        | finished m₂ =>
          rw [hp] at hstep
          exact tracks_after le_rfl hstep (ih hnext (placed_tail hts) m₂)
    | @loop p q body next inside ts hbody hnext =>
      have hstep := step_opening (e := e) (m := m) (placed_head hts)
      obtain ⟨hjump, hback⟩ := jumps_eq hbody hts
      have hstop : i + (⟨.opening, p⟩ :: (inside ++ ⟨.closing, q⟩ :: ts) : List Token).length =
          i + 1 + inside.length + 1 + ts.length := by
        simp only [List.length_cons, List.length_append]
        omega
      have hagain := ih (.loop hbody hnext) hts
      have hclosing := placed_right (placed_tail hts)
      rw [hstop] at hagain ⊢
      rw [Engine.exec]
      cases ht : e.tick p m with
      | faulted f m₁ =>
        rw [ht] at hstep
        exact tracks_fault hstep
      | finished m₁ =>
        rw [ht] at hstep
        dsimp only [andThen] at hstep ⊢
        by_cases hz : m₁.current = 0
        · rw [if_pos hz, hjump] at hstep
          rw [if_pos hz]
          exact tracks_after le_rfl hstep (ih hnext (placed_tail hclosing) m₁)
        · rw [if_neg hz] at hstep ⊢
          have hinside := ih hbody (placed_left (placed_tail hts)) m₁
          cases hx : e.exec fuel body m₁ with
          | none =>
            rw [hx] at hinside
            exact tracks_after le_rfl hstep hinside
          | some o =>
            rw [hx] at hinside
            cases o with
            | faulted f m₂ => exact tracks_after le_rfl hstep hinside
            | finished m₂ =>
              obtain ⟨n, hn⟩ := hinside
              have hpass := iterate_pass hstep hn (placed_head hclosing) hback
              exact tracks_after (by omega) hpass (hagain m₂)

theorem iterate_halted (n : Nat) (o : Outcome σ) :
    (step e code)^[n] (.halted o) = .halted o :=
  Function.iterate_fixed rfl n

theorem Halts.unique {m : Machine σ} {o o' : Outcome σ} (h : Halts e code m o)
    (h' : Halts e code m o') : o = o' := by
  obtain ⟨n, hn⟩ := h
  obtain ⟨n', hn'⟩ := h'
  have hboth : (step e code)^[n' + n] (.running 0 m) = .halted o := by
    rw [Function.iterate_add_apply, hn, iterate_halted]
  rw [Nat.add_comm, Function.iterate_add_apply, hn', iterate_halted] at hboth
  exact (Flat.halted.inj hboth).symm

/-- A tree's run ends as the run of its symbols does, and ends whenever that does. -/
theorem exists_exec_iff_halts {b : Block} (hb : b.Spells code) (m : Machine σ) (o : Outcome σ) :
    (∃ fuel, e.exec fuel b m = some o) ↔ Halts e code m o := by
  have hplaced : Placed code 0 code := ⟨[], [], by simp, rfl⟩
  have htracks (fuel : Nat) := tracks_exec (e := e) hb hplaced fuel m
  have hhalts {fuel : Nat} {o : Outcome σ} (h : e.exec fuel b m = some o) :
      Halts e code m o := by
    have hend := htracks fuel
    rw [h] at hend
    obtain ⟨n, hn⟩ := hend
    refine ⟨1 + n, ?_⟩
    rw [Function.iterate_add_apply, hn]
    cases o with
    | faulted f m' => rfl
    | finished m' => simp [andThen, step]
  constructor
  · rintro ⟨fuel, h⟩
    exact hhalts h
  · rintro ⟨n, hn⟩
    cases hx : e.exec n b m with
    | some o' => exact ⟨n, by rw [hx, (hhalts hx).unique ⟨n, hn⟩]⟩
    | none =>
      -- With as much fuel as the flat run has steps, running out is a longer flat run.
      have hlong := htracks n
      rw [hx] at hlong
      obtain ⟨k, i, m', hk, hrun⟩ := hlong
      obtain ⟨d, rfl⟩ := Nat.exists_eq_add_of_le hk
      rw [Nat.add_comm, Function.iterate_add_apply, hn, iterate_halted] at hrun
      exact absurd hrun (by simp)

end Flat

/-- Running a program agrees with running its symbols: before the last flush both have the same
outcome. The whole run is that outcome and the flush behind it, and its failure is the fault with
the frame of its place, or else that of the flush. -/
theorem Engine.execute_iff_halts {σ : Type} [Channel σ] (e : Engine) {source : Bytes}
    {p : Program} (hp : Program.parse source = .ok p) (m : Machine σ) :
    (∀ o, (∃ fuel, e.exec fuel p.body { m with steps := 0 } = some o) ↔
      Flat.Halts e (Token.ofText (Utf8.decode source)) { m with steps := 0 } o) ∧
    ∀ r, (∃ fuel, e.execute fuel (some p) m = some r) ↔
      (∃ m', Flat.Halts e (Token.ofText (Utf8.decode source)) { m with steps := 0 }
          (.finished m') ∧
        r.error? = (Channel.flush m'.channel).1.map RunError.flushFailed ∧
        r.machine = { m' with channel := (Channel.flush m'.channel).2 }) ∨
      ∃ f m', Flat.Halts e (Token.ofText (Utf8.decode source)) { m with steps := 0 }
          (.faulted f m') ∧
        r.error? = some (.fault f (CodeFrame.locate? (Utf8.decode source) f.pos)) ∧
        r.machine = { m' with channel := (Channel.flush m'.channel).2 } := by
  obtain ⟨-, hsource, hspells⟩ := Program.parse_eq_ok_iff.mp hp
  have hbody (o : Outcome σ) := Flat.exists_exec_iff_halts (e := e) hspells { m with steps := 0 } o
  refine ⟨hbody, ?_⟩
  intro r
  have htext : p.text = Utf8.decode source := by rw [Program.text, hsource]
  simp only [execute, Option.map_eq_some_iff, htext]
  constructor
  · rintro ⟨fuel, o, ho, rfl⟩
    have hhalts := (hbody o).mp ⟨fuel, ho⟩
    cases o with
    | finished m' => exact Or.inl ⟨m', hhalts, rfl, rfl⟩
    | faulted f m' => exact Or.inr ⟨f, m', hhalts, rfl, rfl⟩
  · obtain ⟨error?, after⟩ := r
    rintro (⟨m', hhalts, rfl, rfl⟩ | ⟨f, m', hhalts, rfl, rfl⟩)
    · obtain ⟨fuel, hfuel⟩ := (hbody _).mpr hhalts
      exact ⟨fuel, .finished m', hfuel, rfl⟩
    · obtain ⟨fuel, hfuel⟩ := (hbody _).mpr hhalts
      exact ⟨fuel, .faulted f m', hfuel, rfl⟩

/-- Each test of a loop counts, and the fault is at the one over the quota. -/
theorem Engine.execute_iff_halts_quota :
    let p : Program := ⟨.act .increment ⟨0, 1, 1⟩ (.loop ⟨1, 1, 2⟩
      (.act .decrement ⟨2, 1, 3⟩ .done) .done), [0x2B, 0x5B, 0x2D, 0x5D]⟩
    let f : Fault := ⟨.quotaExceeded 3, ⟨1, 1, 2⟩, 0⟩
    Program.parse p.source = .ok p ∧ ∃ (r : Run Buffer) (m : Machine Buffer),
      execute ⟨3⟩ 5 (some p) (.fresh .empty) = some r ∧ r.machine.steps = 4 ∧
      r.error? = some (.fault f (CodeFrame.locate? ['+', '[', '-', ']'] ⟨1, 1, 2⟩)) ∧
      Flat.Halts ⟨3⟩ (Token.ofText ['+', '[', '-', ']']) (.fresh .empty) (.faulted f m) ∧
      r.machine = m := by
  intro p f
  have hp : Program.parse p.source = .ok p := rfl
  have hrun : (execute ⟨3⟩ 5 (some p) (.fresh Buffer.empty)).map
      (fun r => (r.error?, r.machine.steps)) =
        some (some (.fault f (CodeFrame.locate? ['+', '[', '-', ']'] ⟨1, 1, 2⟩)), 4) := rfl
  obtain ⟨r, hr, hends⟩ := Option.map_eq_some_iff.mp hrun
  obtain ⟨herror, hsteps⟩ := Prod.mk.inj hends
  have hflat := ((execute_iff_halts ⟨3⟩ hp (.fresh Buffer.empty)).2 r).mp ⟨5, hr⟩
  rcases hflat with ⟨m, -, hflush, -⟩ | ⟨g, m, hhalts, hfault, hmachine⟩
  · cases herror.symm.trans hflush
  · cases herror.symm.trans hfault
    exact ⟨hp, r, m, hr, hsteps, herror, hhalts, hmachine⟩

end TapeLang
