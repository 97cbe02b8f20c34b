import Mathlib.Algebra.BigOperators.Group.List.Basic
import Mathlib.Algebra.Order.Group.Abs
import Mathlib.Algebra.Order.Ring.Int
import Mathlib.Data.List.Intervals
import Mathlib.Order.Bounds.Defs
import TapeLang.Channel.Buffer
import TapeLang.Proofs.Steps

/-! The pointer and the ends of the tape. Counted in integers, the moves that have been carried out
since the tape was blank lead to where the pointer is, so that they never lead off the tape; the
move that would is the one that fails, and leaves everything as it was. The window around the
pointer is cut off at the ends. -/
namespace TapeLang

/-- How far an instruction moves the pointer. -/
def Instr.shift : Instr → Int
  | .right => 1
  | .left => -1
  | _ => 0

/-- Why an instruction that would lead off the tape fails. -/
def Instr.edge : Instr → Cause
  | .right => .pastEnd
  | _ => .belowStart

/-- Where instructions lead from the first cell, if the tape had no ends. -/
def walk (is : List Instr) : Int := (is.map Instr.shift).sum

/-- The index of a cell. -/
def OnTape (z : Int) : Prop := 0 ≤ z ∧ z < tapeSize

theorem walk_append (is js : List Instr) : walk (is ++ js) = walk is + walk js := by
  simp [walk]

namespace Machine
variable {σ : Type}

theorem onTape_pointer (m : Machine σ) : OnTape m.pointer.val := by
  have hlt := m.pointer.isLt
  exact ⟨by omega, by omega⟩

section
variable [Channel σ]

/-- All that an instruction can do to the pointer: it moves it by its shift, or fails because that
leads off the tape and leaves the machine as it was, or fails otherwise and does not move it. -/
theorem perform_cases (m : Machine σ) (i : Instr) (pos : Position) :
    (∃ m', m.perform i pos = .finished m' ∧ (m'.pointer.val : Int) = m.pointer.val + i.shift) ∨
    (m.perform i pos = m.fail i.edge pos ∧ ¬ OnTape (m.pointer.val + i.shift)) ∨
    ∃ f m', m.perform i pos = .faulted f m' ∧ f.cause.isOutOfBounds = false ∧
      m'.pointer = m.pointer ∧ i.shift = 0 := by
  have hlt := m.pointer.isLt
  cases i with
  | right =>
    simp only [perform, OnTape, Instr.shift]
    split_ifs with hp
    · exact Or.inl ⟨_, rfl, by simp⟩
    · exact Or.inr (Or.inl ⟨rfl, by omega⟩)
  | left =>
    simp only [perform, OnTape, Instr.shift]
    split_ifs with hp
    · exact Or.inr (Or.inl ⟨rfl, by omega⟩)
    · exact Or.inl ⟨_, rfl, by dsimp only; omega⟩
  | increment => exact Or.inl ⟨_, rfl, by simp [Instr.shift, setCurrent]⟩
  | decrement => exact Or.inl ⟨_, rfl, by simp [Instr.shift, setCurrent]⟩
  | output =>
    simp only [perform]
    cases (Channel.write m.current m.channel).1 with
    | none => exact Or.inl ⟨_, rfl, by simp [Instr.shift]⟩
    | some e => exact Or.inr (Or.inr ⟨_, _, rfl, rfl, rfl, rfl⟩)
  | input =>
    simp only [perform]
    cases (Channel.read m.channel).1 with
    | error e => exact Or.inr (Or.inr ⟨_, _, rfl, rfl, rfl, rfl⟩)
    | ok x? =>
      cases x? with
      | none => exact Or.inl ⟨_, rfl, by simp [Instr.shift]⟩
      | some x => exact Or.inl ⟨_, rfl, by simp [Instr.shift, setCurrent]⟩

/-- An instruction fails at an end of the tape exactly when it would lead off it, and does nothing
then. -/
theorem perform_outOfBounds_iff {m m' : Machine σ} {i : Instr} {pos : Position} {f : Fault} :
    (m.perform i pos = .faulted f m' ∧ f.cause.isOutOfBounds = true) ↔
      ¬ OnTape (m.pointer.val + i.shift) ∧ f = ⟨i.edge, pos, m.pointer⟩ ∧ m' = m := by
  have hedge : i.edge.isOutOfBounds = true := by cases i <;> rfl
  rcases m.perform_cases i pos with ⟨x, hx, hmoved⟩ | ⟨hx, hoff⟩ | ⟨g, x, hx, hg, -, hshift⟩
  · have hon := x.onTape_pointer
    rw [hmoved] at hon
    rw [hx]
    exact iff_of_false (fun h => by cases h.1) (fun h => h.1 hon)
  · rw [hx]
    constructor
    · rintro ⟨h, -⟩
      cases h
      exact ⟨hoff, rfl, rfl⟩
    · rintro ⟨-, rfl, rfl⟩
      exact ⟨rfl, hedge⟩
  · have hon := m.onTape_pointer
    rw [hx, hshift, Int.add_zero]
    refine iff_of_false ?_ (fun h => h.1 hon)
    rintro ⟨h, hf⟩
    cases h
    rw [hg] at hf
    cases hf

theorem pointer_of_perform {m m' : Machine σ} {i : Instr} {pos : Position}
    (h : m.perform i pos = .finished m') :
    (m'.pointer.val : Int) = m.pointer.val + i.shift := by
  rcases m.perform_cases i pos with ⟨x, hx, hmoved⟩ | ⟨hx, -⟩ | ⟨g, x, hx, -⟩
  · cases h.symm.trans hx
    exact hmoved
  · cases h.symm.trans hx
  · cases h.symm.trans hx

theorem pointer_of_perform_faulted {m m' : Machine σ} {i : Instr} {pos : Position} {f : Fault}
    (h : m.perform i pos = .faulted f m') : m'.pointer = m.pointer := by
  rcases m.perform_cases i pos with ⟨x, hx, -⟩ | ⟨hx, -⟩ | ⟨g, x, hx, -, hstays, -⟩
  · cases h.symm.trans hx
  · cases h.symm.trans hx
    rfl
  · cases h.symm.trans hx
    exact hstays

end
end Machine

/-- The run failed at an end of the tape. -/
def Run.isOutOfBounds {σ : Type} (r : Run σ) : Bool :=
  match r.error? with
  | some (.fault f _) => f.cause.isOutOfBounds
  | _ => false

namespace Engine
variable {σ : Type} [Channel σ] {e : Engine} {b c : Block} {m m' x : Machine σ}
  {is js : List Instr} {f : Fault} {o : Outcome σ}

theorem pointer_of_advance {i : Instr} {pos : Position} (h : e.advance i pos m = .finished m') :
    (m'.pointer.val : Int) = m.pointer.val + i.shift := by
  unfold advance at h
  cases ht : e.tick pos m with
  | faulted f m₁ =>
    rw [ht] at h
    cases h
  | finished m₁ =>
    rw [ht] at h
    rw [Machine.pointer_of_perform h, (tick_eq_finished_iff.mp ht).1]
    rfl

/-- Along a run the pointer is where the instructions have led it. -/
theorem Passes.pointer (h : e.Passes b m is c x) :
    (x.pointer.val : Int) = m.pointer.val + walk is := by
  induction h with
  | here => simp [walk]
  | act h _ ih =>
    rw [ih, pointer_of_advance h, walk, walk, List.map_cons, List.sum_cons, Int.add_assoc]
  | skip h _ _ ih =>
    rw [ih, (tick_eq_finished_iff.mp h).1]
    rfl
  | enter h _ _ ih =>
    rw [ih, (tick_eq_finished_iff.mp h).1]
    rfl

/-- A statement that fails does not move the pointer. -/
theorem Stops.pointer (h : e.Stops b m f m') : m'.pointer = m.pointer := by
  cases b with
  | done => exact h.elim
  | loop pos body next =>
    rw [(tick_eq_faulted_iff.mp h).1]
    rfl
  | act i pos next =>
    change e.advance i pos m = .faulted f m' at h
    unfold advance at h
    cases ht : e.tick pos m with
    | faulted g m₁ =>
      rw [ht] at h
      cases h
      rw [(tick_eq_faulted_iff.mp ht).1]
      rfl
    | finished m₁ =>
      rw [ht] at h
      rw [Machine.pointer_of_perform_faulted h, (tick_eq_finished_iff.mp ht).1]
      rfl

theorem EndsAfter.pointer (h : e.EndsAfter b m is o) :
    (o.machine.pointer.val : Int) = m.pointer.val + walk is := by
  cases o with
  | finished m' => exact Passes.pointer h
  | faulted f m' =>
    obtain ⟨c, x, hc, hstop⟩ := h
    rw [Outcome.machine, hstop.pointer]
    exact hc.pointer

theorem conclude_pointer (text : List Char) (o : Outcome σ) :
    (conclude text o).machine.pointer = o.machine.pointer := by
  cases o <;> rfl

theorem History.pointer {channel : σ} {calls : List Call} (h : e.History channel calls is m) :
    (m.pointer.val : Int) = walk is := by
  induction h with
  | fresh => rfl
  | execute _ ho ih => rw [conclude_pointer, ho.pointer, walk_append, ← ih]
  | idle _ ih => exact ih
  | reset _ _ => rfl

theorem advance_outOfBounds_iff {i : Instr} {pos : Position} :
    (e.advance i pos m = .faulted f m' ∧ f.cause.isOutOfBounds = true) ↔
      ¬ e.IsOver m.counted ∧ ¬ OnTape (m.pointer.val + i.shift) ∧
        f = ⟨i.edge, pos, m.pointer⟩ ∧ m' = m.counted := by
  unfold advance
  cases ht : e.tick pos m with
  | faulted g m₁ =>
    obtain ⟨-, rfl, hover⟩ := tick_eq_faulted_iff.mp ht
    refine iff_of_false ?_ ?_
    · rintro ⟨h, hf⟩
      cases h
      cases hf
    · rintro ⟨hallowed, -⟩
      exact hallowed hover
  | finished m₁ =>
    obtain ⟨rfl, hallowed⟩ := tick_eq_finished_iff.mp ht
    dsimp only
    rw [Machine.perform_outOfBounds_iff]
    exact (and_iff_right hallowed).symm

/-- A run stops at an end of the tape when the next instruction would lead off it. -/
theorem stops_outOfBounds_iff :
    (e.Stops b m f m' ∧ f.cause.isOutOfBounds = true) ↔
      ∃ i pos next, b = .act i pos next ∧ ¬ e.IsOver m.counted ∧
        ¬ OnTape (m.pointer.val + i.shift) ∧ f = ⟨i.edge, pos, m.pointer⟩ ∧ m' = m.counted := by
  cases b with
  | done => simp [Stops]
  | loop pos body next =>
    refine iff_of_false ?_ (by simp)
    rintro ⟨h, hf⟩
    obtain ⟨-, rfl, -⟩ := tick_eq_faulted_iff.mp h
    cases hf
  | act i pos next =>
    rw [Stops, advance_outOfBounds_iff]
    constructor
    · intro h
      exact ⟨i, pos, next, rfl, h⟩
    · rintro ⟨_, _, _, hb, h⟩
      cases hb
      exact h

theorem executes_outOfBounds_iff {p : Program} {r : Run σ} :
    (e.Executes (some p) m r ∧ r.isOutOfBounds = true) ↔
      ∃ js i pos next x, e.Passes p.body { m with steps := 0 } js (.act i pos next) x ∧
        (e.IsLimited → x.steps < e.quota) ∧ ¬ OnTape (x.pointer.val + i.shift) ∧
        r = ⟨some (.fault ⟨i.edge, pos, x.pointer⟩ (CodeFrame.locate? p.text pos)),
          { x.counted with channel := (Channel.flush x.channel).2 }⟩ := by
  have hallowed {js : List Instr} {c : Block} {x : Machine σ}
      (hc : e.Passes p.body { m with steps := 0 } js c x) :
      ¬ e.IsOver x.counted ↔ (e.IsLimited → x.steps < e.quota) := by
    rw [hc.isOver_counted_iff (Nat.zero_le _), not_and, Nat.not_le]
  constructor
  · rintro ⟨hr, hout⟩
    obtain ⟨o, ho, rfl⟩ := executes_iff.mp hr
    obtain ⟨js, hjs⟩ := ho.exists_endsAfter
    cases o with
    | finished m' =>
      simp only [conclude, Run.isOutOfBounds] at hout
      cases hflush : (Channel.flush m'.channel).1 <;> simp [hflush] at hout
    | faulted f m' =>
      obtain ⟨c, x, hc, hstop⟩ := hjs
      obtain ⟨i, pos, next, rfl, hq, hoff, rfl, rfl⟩ := stops_outOfBounds_iff.mp ⟨hstop, hout⟩
      exact ⟨js, i, pos, next, x, hc, (hallowed hc).mp hq, hoff, rfl⟩
  · rintro ⟨js, i, pos, next, x, hc, hq, hoff, rfl⟩
    obtain ⟨hstop, hout⟩ := stops_outOfBounds_iff.mpr
      ⟨i, pos, next, rfl, (hallowed hc).mpr hq, hoff, rfl, rfl⟩
    have hends : e.EndsAfter p.body { m with steps := 0 } js
        (.faulted ⟨i.edge, pos, x.pointer⟩ x.counted) := ⟨_, x, hc, hstop⟩
    exact ⟨executes_iff.mpr ⟨_, hends.ends, rfl⟩, hout⟩

end Engine

namespace Machine
variable {σ : Type} {m : Machine σ} {radius : Int}

/-- The index of a cell at most `radius` from the pointer; a negative radius counts as zero. -/
def IsNear (m : Machine σ) (radius : Int) (i : Nat) : Prop :=
  i < tapeSize ∧ |(i : Int) - m.pointer.val| ≤ max radius 0

instance : DecidablePred (m.IsNear radius) := fun _ => inferInstanceAs (Decidable (_ ∧ _))

/-- The cells near the pointer in their order, after the index of the first. -/
structure Shows (m : Machine σ) (radius : Int) (view : Nat × List UInt8) : Prop where
  least : IsLeast {i | m.IsNear radius i} view.1
  cells : view.2.map some =
    ((List.range tapeSize).filter (m.IsNear radius ·)).map fun i : Nat => m.cell? i

/-- The first index of a window and the one behind its last, as 64-bit words whose sums and
differences wrap around. -/
def wordEnds (pointer radius : Int64) : Int64 × Int64 :=
  let r := min (max radius 0) 1024
  (max (pointer - r) 0, min (pointer + r + 1) 1024)

theorem isNear_iff {i : Nat} : m.IsNear radius i ↔
    m.pointer.val - min radius.toNat tapeSize ≤ i ∧
      i < min (m.pointer.val + min radius.toNat tapeSize + 1) tapeSize := by
  have hlt := m.pointer.isLt
  rw [IsNear, abs_le]
  omega

theorem filter_range_eq {first last n : Nat} (h : last ≤ n) {p : Nat → Bool}
    (hp : ∀ i, p i = true ↔ first ≤ i ∧ i < last) :
    (List.range n).filter p = List.range' first (last - first) := by
  have hsplit : (List.range n).filter p =
      ((List.range n).filter (first ≤ ·)).filter (· < last) := by
    rw [List.filter_filter]
    apply List.filter_congr
    intro i _
    rw [Bool.eq_iff_iff, hp]
    simp [and_comm]
  rw [hsplit, ← List.Ico.zero_bot, List.Ico.filter_le, List.Ico.filter_lt, List.Ico,
    Nat.zero_max, Nat.min_eq_right h]

/-- A part of the tape, cell by cell. -/
theorem map_some_cells {first last : Nat} (h : last ≤ tapeSize) :
    ((m.tape.toList.drop first).take (last - first)).map some =
      (List.range' first (last - first)).map fun i : Nat => m.cell? i := by
  apply List.ext_getElem
  · simp only [List.length_map, List.length_take, List.length_drop, Vector.length_toList,
      List.length_range']
    omega
  · intro k hk hk'
    have hlt : first + k < tapeSize := by
      simp only [List.length_map, List.length_range'] at hk'
      omega
    simp [cell?, hlt]

theorem shows_window (m : Machine σ) (radius : Int) : m.Shows radius (m.window radius) := by
  have hlt := m.pointer.isLt
  refine ⟨⟨?_, ?_⟩, ?_⟩
  · change m.IsNear radius _
    rw [isNear_iff]
    simp only [window]
    omega
  · intro i hi
    exact (isNear_iff.mp hi).1
  · rw [filter_range_eq (Nat.min_le_right _ _) (fun i => by rw [decide_eq_true_iff, isNear_iff])]
    exact map_some_cells (Nat.min_le_right _ _)

private theorem toInt_max (a b : Int64) : (max a b).toInt = max a.toInt b.toInt := by
  change (if a ≤ b then b else a).toInt = _
  split_ifs with h <;> rw [Int64.le_iff_toInt_le] at h <;> omega

private theorem toInt_min (a b : Int64) : (min a b).toInt = min a.toInt b.toInt := by
  change (if a ≤ b then a else b).toInt = _
  split_ifs with h <;> rw [Int64.le_iff_toInt_le] at h <;> omega

/-- A number near the tape is the same when it wraps around at 64 bits. -/
private theorem bmod_word {z : Int} (hlo : -1024 ≤ z) (hhi : z ≤ 2048) : z.bmod (2 ^ 64) = z :=
  Int.bmod_eq_of_le (by omega) (by omega)

/-- With a clamped radius nothing wraps around. -/
theorem toInt_wordEnds (m : Machine σ) (radius : Int64) :
    let r : Int := min (max radius.toInt 0) tapeSize
    let ends := wordEnds (.ofNat m.pointer.val) radius
    ends.1.toInt = max (m.pointer.val - r) 0 ∧
      ends.2.toInt = min (m.pointer.val + r + 1) tapeSize := by
  have hlt : m.pointer.val < 1024 := m.pointer.isLt
  have hzero : (0 : Int64).toInt = 0 := rfl
  have hone : (1 : Int64).toInt = 1 := rfl
  have hsize : (1024 : Int64).toInt = tapeSize := rfl
  have hpointer : (Int64.ofNat m.pointer.val).toInt = m.pointer.val :=
    Int64.toInt_ofNat_of_lt (by omega)
  have hradius : (min (max radius 0) 1024).toInt = min (max radius.toInt 0) tapeSize := by
    rw [toInt_min, toInt_max, hzero, hsize]
  have hr : 0 ≤ min (max radius.toInt 0) (tapeSize : Int) ∧
      min (max radius.toInt 0) (tapeSize : Int) ≤ 1024 := by
    have htape : (tapeSize : Int) = 1024 := rfl
    omega
  simp only [wordEnds]
  rw [toInt_max, toInt_min, Int64.toInt_sub, Int64.toInt_add, Int64.toInt_add, hradius, hpointer,
    hzero, hone, hsize]
  generalize min (max radius.toInt 0) (tapeSize : Int) = r at hr ⊢
  obtain ⟨hr₀, hr₁⟩ := hr
  have hdiff : (m.pointer.val - r).bmod (2 ^ 64) = m.pointer.val - r :=
    bmod_word (by omega) (by omega)
  have hsum : (m.pointer.val + r).bmod (2 ^ 64) = m.pointer.val + r :=
    bmod_word (by omega) (by omega)
  have hbehind : (m.pointer.val + r + 1).bmod (2 ^ 64) = m.pointer.val + r + 1 :=
    bmod_word (by omega) (by omega)
  rw [hdiff, hsum, hbehind]
  exact ⟨rfl, rfl⟩

/-- Computed in words, the ends of a window lie on the tape, and what is between them is the
window. -/
theorem window_eq_extract (m : Machine σ) (radius : Int64) :
    let ends := wordEnds (.ofNat m.pointer.val) radius
    0 ≤ ends.1 ∧ ends.1 ≤ ends.2 ∧ ends.2 ≤ 1024 ∧
      m.window radius.toInt =
        (ends.1.toInt.toNat, m.tape.toList.extract ends.1.toInt.toNat ends.2.toInt.toNat) := by
  intro ends
  have hlt : m.pointer.val < 1024 := m.pointer.isLt
  have hzero : (0 : Int64).toInt = 0 := rfl
  have hsize : (1024 : Int64).toInt = 1024 := rfl
  have htape : (tapeSize : Int) = 1024 := rfl
  obtain ⟨hfirst, hlast⟩ := m.toInt_wordEnds radius
  simp only [Int64.le_iff_toInt_le, hzero, hsize, ends, hfirst, hlast, htape]
  refine ⟨by omega, by omega, by omega, ?_⟩
  have hstart : (max ((m.pointer.val : Int) - min (max radius.toInt 0) 1024) 0).toNat =
      m.pointer.val - min radius.toInt.toNat tapeSize := by
    have htape : tapeSize = 1024 := rfl
    omega
  have hstop : (min ((m.pointer.val : Int) + min (max radius.toInt 0) 1024 + 1) 1024).toNat =
      min (m.pointer.val + min radius.toInt.toNat tapeSize + 1) tapeSize := by
    have htape : tapeSize = 1024 := rfl
    omega
  rw [hstart, hstop, List.extract_eq_take_drop]
  rfl

end Machine

namespace Engine
variable {σ : Type} [Channel σ]

/-- After any calls and at every state that a further run passes through, the pointer is where the
moves since the last blank tape lead, counted in integers, and that is on the tape. An instruction
fails at an end of the tape exactly when it would lead off it, and changes nothing then; so a run
fails there exactly when it comes to such an instruction, and ends as it was before, but for the
step and the last flush. The window shows the cells near the pointer, and 64-bit words are enough to
find its ends, which lie on the tape. -/
theorem pointer_stays_on_tape (e : Engine) (channel : σ) {calls : List Call} {is : List Instr}
    {m : Machine σ} (h : e.History channel calls is m) :
    ((m.pointer.val : Int) = walk is ∧ OnTape (walk is)) ∧
    (∀ (p : Program) js c x, e.Passes p.body { m with steps := 0 } js c x →
      (x.pointer.val : Int) = walk (is ++ js) ∧ OnTape (walk (is ++ js)) ∧
      ∀ i pos f x', (x.perform i pos = .faulted f x' ∧ f.cause.isOutOfBounds = true) ↔
        ¬ OnTape (walk (is ++ js ++ [i])) ∧ f = ⟨i.edge, pos, x.pointer⟩ ∧ x' = x) ∧
    (∀ (p : Program) r, (e.Executes (some p) m r ∧ r.isOutOfBounds = true) ↔
      ∃ js i pos next x, e.Passes p.body { m with steps := 0 } js (.act i pos next) x ∧
        (e.IsLimited → x.steps < e.quota) ∧ ¬ OnTape (walk (is ++ js ++ [i])) ∧
        r = ⟨some (.fault ⟨i.edge, pos, x.pointer⟩ (CodeFrame.locate? p.text pos)),
          { x.counted with channel := (Channel.flush x.channel).2 }⟩) ∧
    ∀ radius : Int64, m.Shows radius.toInt (m.window radius.toInt) ∧
      let ends := Machine.wordEnds (.ofNat m.pointer.val) radius
      0 ≤ ends.1 ∧ ends.1 ≤ ends.2 ∧ ends.2 ≤ 1024 ∧
        m.window radius.toInt =
          (ends.1.toInt.toNat, m.tape.toList.extract ends.1.toInt.toNat ends.2.toInt.toNat) := by
  have hpointer := h.pointer
  have hpasses {p : Program} {js : List Instr} {c : Block} {x : Machine σ}
      (hx : e.Passes p.body { m with steps := 0 } js c x) :
      (x.pointer.val : Int) = walk (is ++ js) := by
    rw [hx.pointer, walk_append, ← hpointer]
  have hnext {p : Program} {js : List Instr} {c : Block} {x : Machine σ}
      (hx : e.Passes p.body { m with steps := 0 } js c x) (i : Instr) :
      walk (is ++ js ++ [i]) = x.pointer.val + i.shift := by
    rw [walk_append, ← hpasses hx]
    simp [walk]
  refine ⟨⟨hpointer, hpointer ▸ m.onTape_pointer⟩, ?_, ?_, ?_⟩
  · intro p js c x hx
    refine ⟨hpasses hx, hpasses hx ▸ x.onTape_pointer, ?_⟩
    intro i pos f x'
    rw [Machine.perform_outOfBounds_iff, hnext hx]
  · intro p r
    rw [executes_outOfBounds_iff]
    constructor
    · rintro ⟨js, i, pos, next, x, hx, hq, hoff, hr⟩
      exact ⟨js, i, pos, next, x, hx, hq, hnext hx i ▸ hoff, hr⟩
    · rintro ⟨js, i, pos, next, x, hx, hq, hoff, hr⟩
      exact ⟨js, i, pos, next, x, hx, hq, hnext hx i ▸ hoff, hr⟩
  · intro radius
    exact ⟨m.shows_window radius.toInt, m.window_eq_extract radius⟩

/-- One step from the first cell, there is one step back and no more. -/
theorem pointer_stays_on_tape_one_step :
    ∃ p q m r, Program.parse [0x3E] = .ok p ∧ Program.parse [0x3C, 0x3C] = .ok q ∧
      unlimited.History Buffer.empty [.execute (some p)] [.right] m ∧
      (m.pointer.val : Int) = walk [.right] ∧
      unlimited.Executes (some q) m r ∧ r.isOutOfBounds = true ∧
      m.Shows Int64.minValue.toInt (m.window Int64.minValue.toInt) := by
  let p : Program := ⟨.act .right ⟨0, 1, 1⟩ .done, [0x3E]⟩
  let q : Program := ⟨.act .left ⟨0, 1, 1⟩ (.act .left ⟨1, 1, 2⟩ .done), [0x3C, 0x3C]⟩
  let m : Machine Buffer := { Machine.fresh .empty with pointer := 1, steps := 1 }
  let x : Machine Buffer := { m with pointer := 0 }
  have hm : unlimited.History Buffer.empty [.execute (some p)] [.right] m :=
    .execute (o := .finished m) .fresh (.act rfl .here)
  obtain ⟨⟨hpointer, -⟩, -, hruns, hwindow⟩ := pointer_stays_on_tape unlimited Buffer.empty hm
  have hx : unlimited.Passes q.body { m with steps := 0 } [.left] (.act .left ⟨1, 1, 2⟩ .done) x :=
    .act rfl .here
  have hoff : ¬ OnTape (walk ([.right] ++ [.left] ++ [.left])) := by
    simp [OnTape, walk, Instr.shift]
  obtain ⟨hr, hout⟩ := (hruns q _).mpr
    ⟨[.left], .left, _, _, x, hx, fun h => absurd h (by decide), hoff, rfl⟩
  exact ⟨p, q, m, _, rfl, rfl, hm, hpointer, hr, hout, (hwindow Int64.minValue).1⟩

end Engine
end TapeLang
