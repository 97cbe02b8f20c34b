import Mathlib.Data.List.Nodup
import TapeLang.Channel.Buffer
import TapeLang.Lint
import TapeLang.Machine.Engine
import TapeLang.Proofs.Parse

/-! Loops that are reported never to run: what stands in their bodies does not matter. -/
namespace TapeLang

/-- Puts another body into the loop at a position. -/
def Block.replaceBody : Block → Position → Block → Block
  | .done, _, _ => .done
  | .act i p next, pos, new => .act i p (next.replaceBody pos new)
  | .loop p body next, pos, new =>
    .loop p (if p = pos then new else body.replaceBody pos new) (next.replaceBody pos new)

namespace Lint
variable {σ : Type}

/-- What is known of a machine before a statement: all cells are zero as long as `blank` holds,
and the current one is zero right after a loop. -/
structure Holds (blank : Bool) (previous? : Option Symbol) (m : Machine σ) : Prop where
  tape : blank = true → ∀ i : Fin tapeSize, m.tape[i] = 0
  current : previous? = some .opening → m.current = 0

/-- Every loop at `pos` is met when the current cell is known to be zero. -/
def Idle (pos : Position) (blank : Bool) (previous? : Option Symbol) : Block → Prop
  | .done => True
  | .act i _ next => Idle pos (blank && !changesCells i) (some (.act i)) next
  | .loop p body next =>
    (p = pos → blank = true ∨ previous? = some .opening) ∧ Idle pos false none body ∧
      Idle pos blank (some .opening) next

theorem holds_fresh (channel : σ) : Holds true none (Machine.fresh channel) :=
  ⟨fun _ i => by simp [Machine.fresh], fun h => by simp at h⟩

theorem Holds.current_eq_zero {blank : Bool} {previous? : Option Symbol} {m : Machine σ}
    (h : Holds blank previous? m) (hz : blank = true ∨ previous? = some .opening) :
    m.current = 0 := by
  rcases hz with hz | hz
  · exact h.tape hz m.pointer
  · exact h.current hz

theorem Holds.tick {e : Engine} {blank : Bool} {previous? : Option Symbol} {pos : Position}
    {m m' : Machine σ} (h : Holds blank previous? m) (ht : e.tick pos m = .finished m') :
    Holds blank previous? m' := by
  unfold Engine.tick at ht
  dsimp only at ht
  split_ifs at ht with hq
  · simp [Machine.fail] at ht
  · obtain rfl := Outcome.finished.inj ht
    exact ⟨h.tape, h.current⟩

/-- Moving and writing change no cell. -/
theorem tape_of_perform [Channel σ] {i : Instr} {pos : Position} {m m' : Machine σ}
    (hi : changesCells i = false) (h : m.perform i pos = .finished m') : m'.tape = m.tape := by
  cases i with
  | right =>
    simp only [Machine.perform] at h
    split_ifs at h
    · rw [← Outcome.finished.inj h]
    · simp [Machine.fail] at h
  | left =>
    simp only [Machine.perform] at h
    split_ifs at h
    · simp [Machine.fail] at h
    · rw [← Outcome.finished.inj h]
  | output =>
    simp only [Machine.perform] at h
    split at h
    · rw [← Outcome.finished.inj h]
    · simp [Machine.fail] at h
  | increment => simp [changesCells] at hi
  | decrement => simp [changesCells] at hi
  | input => simp [changesCells] at hi

theorem Holds.perform [Channel σ] {blank : Bool} {previous? : Option Symbol} {i : Instr}
    {pos : Position} {m m' : Machine σ} (h : Holds blank previous? m)
    (hp : m.perform i pos = .finished m') :
    Holds (blank && !changesCells i) (some (.act i)) m' := by
  refine ⟨fun hb => ?_, fun hs => by simp at hs⟩
  simp only [Bool.and_eq_true, Bool.not_eq_true'] at hb
  rw [tape_of_perform hb.2 hp]
  exact h.tape hb.1

/-- A loop that is idle at `pos` runs alike with any body there. -/
theorem exec_replaceBody [Channel σ] (e : Engine) {pos : Position} (new : Block) {b : Block}
    {blank : Bool} {previous? : Option Symbol} {m : Machine σ} (hi : Idle pos blank previous? b)
    (hm : Holds blank previous? m) (fuel : Nat) :
    e.exec fuel (b.replaceBody pos new) m = e.exec fuel b m := by
  induction fuel generalizing b blank previous? m with
  | zero => rfl
  | succ fuel ih =>
    cases b with
    | done => rfl
    | act i p next =>
      rw [Block.replaceBody, Engine.exec, Engine.exec]
      cases ht : e.tick p m with
      | faulted f m₁ => rfl
      | finished m₁ =>
        dsimp only
        cases hp : m₁.perform i p with
        | faulted f m₂ => rfl
        | finished m₂ => exact ih hi ((hm.tick ht).perform hp)
    | loop p body next =>
      obtain ⟨hloop, hbody, hnext⟩ := hi
      rw [Block.replaceBody, Engine.exec, Engine.exec]
      cases ht : e.tick p m with
      | faulted f m₁ => rfl
      | finished m₁ =>
        have hm₁ := hm.tick ht
        dsimp only
        by_cases hz : m₁.current = 0
        · rw [if_pos hz, if_pos hz]
          exact ih hnext ⟨hm₁.tape, fun _ => hz⟩
        · -- The body is entered, so nothing was known here and this is not the loop at `pos`.
          have hunknown : ¬ (blank = true ∨ previous? = some .opening) :=
            fun h => hz (hm₁.current_eq_zero h)
          have hp : p ≠ pos := fun h => hunknown (hloop h)
          have hblank : blank = false := by simpa using fun h => hunknown (Or.inl h)
          subst hblank
          have hno (m : Machine σ) : Holds false none m :=
            ⟨fun h => by simp at h, fun h => by simp at h⟩
          have hagain : Idle pos false none (.loop p body next) :=
            ⟨fun h => absurd h hp, hbody, hnext⟩
          rw [if_neg hz, if_neg hz, if_neg hp, ih hbody (hno m₁)]
          cases e.exec fuel body m₁ with
          | none => rfl
          | some o =>
            cases o with
            | faulted f m₂ => rfl
            | finished m₂ =>
              have hrest := ih hagain (hno m₂)
              rw [Block.replaceBody, if_neg hp] at hrest
              exact hrest

/-- The warning is about some statement of a block. -/
def Flags (w : Warning) (blank : Bool) (previous? : Option Symbol) : Block → Prop
  | .done => False
  | .act i p next =>
    (w.pos = p ∧ pairIssue? previous? i = some w.issue) ∨
      Flags w (blank && !changesCells i) (some (.act i)) next
  | .loop p body next =>
    (w.pos = p ∧ loopIssue? blank previous? body = some w.issue) ∨ Flags w false none body ∨
      Flags w blank (some .opening) next

private theorem mem_note {w : Warning} {pos : Position} {issue? : Option Issue}
    {acc : List Warning} :
    w ∈ note pos issue? acc ↔ w ∈ acc ∨ (w.pos = pos ∧ issue? = some w.issue) := by
  obtain ⟨p, i⟩ := w
  cases issue? with
  | none => simp [note]
  | some issue =>
    rw [note, List.mem_cons, Warning.mk.injEq, Option.some.injEq, or_comm, eq_comm (a := i)]

private theorem mem_warningsFrom {w : Warning} {blank : Bool} {previous? : Option Symbol}
    {acc : List Warning} {b : Block} :
    w ∈ warningsFrom blank previous? acc b ↔ w ∈ acc ∨ Flags w blank previous? b := by
  induction b generalizing blank previous? acc with
  | done => simp [warningsFrom, Flags]
  | act i p next ih => rw [warningsFrom, ih, mem_note, Flags, or_assoc]
  | loop p body next ihb ih =>
    rw [warningsFrom, ih, ihb, mem_note, Flags, or_assoc, or_assoc]

theorem mem_warnings_iff {w : Warning} {p : Program} :
    w ∈ p.warnings ↔ Flags w true none p.body := by
  rw [Program.warnings, List.mem_mergeSort, List.mem_reverse, mem_warningsFrom]
  simp

def NeverRuns (i : Issue) : Prop := i = .blankTape ∨ i = .afterLoop

theorem neverRuns_iff {i : Issue} :
    NeverRuns i ↔ i.message = "loop never runs: tape is still zero" ∨
      i.message = "loop never runs: current cell is zero after the previous loop" := by
  unfold NeverRuns
  rcases i with _ | _ | _ | ⟨a, b⟩
  · decide
  · decide
  · decide
  · cases a <;> cases b <;> decide

private theorem not_neverRuns_pair {previous? : Option Symbol} {i : Instr} {issue : Issue}
    (h : pairIssue? previous? i = some issue) : ¬ NeverRuns issue := by
  unfold pairIssue? at h
  split at h
  · split_ifs at h
    rw [← Option.some.inj h]
    simp [NeverRuns]
  · simp at h

private theorem known_of_neverRuns {blank : Bool} {previous? : Option Symbol} {body : Block}
    {issue : Issue} (h : loopIssue? blank previous? body = some issue) (hi : NeverRuns issue) :
    blank = true ∨ previous? = some .opening := by
  unfold loopIssue? at h
  split_ifs at h with hb hp hd
  · exact Or.inl hb
  · exact Or.inr hp
  · rw [← Option.some.inj h] at hi
    simp [NeverRuns] at hi

theorem mem_loops_of_flags {w : Warning} {blank : Bool} {previous? : Option Symbol} {b : Block}
    (hw : NeverRuns w.issue) (h : Flags w blank previous? b) : w.pos ∈ b.loops.map Prod.fst := by
  induction b generalizing blank previous? with
  | done => exact h.elim
  | act i p next ih =>
    rcases h with ⟨-, h⟩ | h
    · exact absurd hw (not_neverRuns_pair h)
    · exact ih h
  | loop p body next ihb ih =>
    rw [Block.loops, List.map_cons, List.map_append, List.mem_cons, List.mem_append]
    rcases h with ⟨h, -⟩ | h | h
    · exact Or.inl h
    · exact Or.inr (Or.inl (ihb h))
    · exact Or.inr (Or.inr (ih h))

theorem idle_of_not_mem {pos : Position} {blank : Bool} {previous? : Option Symbol} {b : Block}
    (h : pos ∉ b.loops.map Prod.fst) : Idle pos blank previous? b := by
  induction b generalizing blank previous? with
  | done => trivial
  | act i p next ih => exact ih h
  | loop p body next ihb ih =>
    rw [Block.loops, List.map_cons, List.map_append, List.mem_cons, List.mem_append] at h
    simp only [not_or] at h
    exact ⟨fun hp => absurd hp.symm h.1, ihb h.2.1, ih h.2.2⟩

/-- Where no two loops share a place, a loop reported never to run is met only with a zero. -/
theorem idle_of_flags {w : Warning} {blank : Bool} {previous? : Option Symbol} {b : Block}
    (hw : NeverRuns w.issue) (hb : (b.loops.map Prod.fst).Nodup)
    (h : Flags w blank previous? b) : Idle w.pos blank previous? b := by
  induction b generalizing blank previous? with
  | done => trivial
  | act i p next ih =>
    rcases h with ⟨-, h⟩ | h
    · exact absurd hw (not_neverRuns_pair h)
    · exact ih hb h
  | loop p body next ihb ih =>
    rw [Block.loops, List.map_cons, List.map_append, List.nodup_cons, List.mem_append,
      List.nodup_append] at hb
    obtain ⟨hp, hbody, hnext, hdisj⟩ := hb
    rcases h with ⟨hpos, h⟩ | h | h
    · rw [hpos]
      exact ⟨fun _ => known_of_neverRuns h hw, idle_of_not_mem fun hm => hp (Or.inl hm),
        idle_of_not_mem fun hm => hp (Or.inr hm)⟩
    · have hmem := mem_loops_of_flags hw h
      refine ⟨fun he => absurd (Or.inl (he ▸ hmem)) hp, ihb hbody h, idle_of_not_mem ?_⟩
      exact fun hm => hdisj _ hmem _ hm rfl
    · have hmem := mem_loops_of_flags hw h
      refine ⟨fun he => absurd (Or.inr (he ▸ hmem)) hp, idle_of_not_mem ?_, ih hnext h⟩
      exact fun hm => hdisj _ hm _ hmem rfl

end Lint

namespace Engine

/-- A loop reported never to run is the only one at its place, and with any other body there the
program runs alike on a machine of its own. -/
theorem run_replaceBody {source : Bytes} {p : Program} (hp : Program.parse source = .ok p)
    {w : Warning} (hw : w ∈ p.warnings)
    (hi : w.issue.message = "loop never runs: tape is still zero" ∨
      w.issue.message = "loop never runs: current cell is zero after the previous loop") :
    (p.body.loops.map Prod.fst).count w.pos = 1 ∧
      ∀ (σ : Type) [Channel σ] (e : Engine) (channel : σ) (new : Block) (fuel : Nat),
        e.run fuel { p with body := p.body.replaceBody w.pos new } channel =
          e.run fuel p channel := by
  obtain ⟨-, -, hspells⟩ := Program.parse_eq_ok_iff.mp hp
  have hnodup := hspells.nodup_loops
  have hnever := Lint.neverRuns_iff.mpr hi
  have hflags := Lint.mem_warnings_iff.mp hw
  refine ⟨List.count_eq_one_of_mem hnodup (Lint.mem_loops_of_flags hnever hflags), ?_⟩
  intro σ _ e channel new fuel
  have hidle := Lint.idle_of_flags hnever hnodup hflags
  have hexec := Lint.exec_replaceBody e new hidle (Lint.holds_fresh channel) fuel
  exact congrArg (Option.map (conclude p.text)) hexec

/-- Right behind another loop, a loop may as well move off the tape. -/
theorem run_replaceBody_afterLoop :
    ∃ p, Program.parse [0x2B, 0x5B, 0x2D, 0x5D, 0x5B, 0x3E, 0x5D] = .ok p ∧
      (p.body.loops.map Prod.fst).count ⟨4, 1, 5⟩ = 1 ∧
      Engine.run ⟨0⟩ 9 { p with body := p.body.replaceBody ⟨4, 1, 5⟩ (.act .left .start .done) }
          Buffer.empty =
        Engine.run ⟨0⟩ 9 p Buffer.empty := by
  let p : Program := ⟨.act .increment ⟨0, 1, 1⟩ (.loop ⟨1, 1, 2⟩ (.act .decrement ⟨2, 1, 3⟩ .done)
    (.loop ⟨4, 1, 5⟩ (.act .right ⟨5, 1, 6⟩ .done) .done)),
    [0x2B, 0x5B, 0x2D, 0x5D, 0x5B, 0x3E, 0x5D]⟩
  have hp : Program.parse [0x2B, 0x5B, 0x2D, 0x5D, 0x5B, 0x3E, 0x5D] = .ok p := rfl
  have hw : ⟨⟨4, 1, 5⟩, .afterLoop⟩ ∈ p.warnings :=
    Lint.mem_warnings_iff.mpr (Or.inr (Or.inr (Or.inr (Or.inl ⟨rfl, rfl⟩))))
  obtain ⟨hcount, hrun⟩ := run_replaceBody hp hw (Or.inr rfl)
  exact ⟨p, hp, hcount, hrun Buffer ⟨0⟩ .empty (.act .left .start .done) 9⟩

end Engine
end TapeLang
