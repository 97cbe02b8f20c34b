import Mathlib.Data.List.Nodup
import TapeLang.Channel.Buffer
import TapeLang.Proofs.Quota
import TapeLang.Proofs.Steps

/-! What a fault tells. A run that fails has come to a statement that it cannot carry out, however
deep in loops that is, and the fault has the place of this statement in the text of the program, the
pointer as the run leaves it, and a cause that fits the statement. -/
namespace TapeLang

theorem Block.statements_append (b c : Block) :
    (b.append c).statements = b.statements ++ c.statements := by
  induction b with
  | done => rfl
  | act i p next ih => rw [append, statements, statements, ih, List.cons_append]
  | loop p body next _ ih =>
    rw [append, statements, statements, ih, List.cons_append, List.append_assoc]

/-- What the cause of a fault says of the symbol that failed on the machine `x`, and of the machine
`m` that it left behind. -/
def Fault.Fits {σ : Type} (f : Fault) (quota : Nat) (s : Symbol) (x m : Machine σ) : Prop :=
  match f.cause with
  | .pastEnd => s = .act .right ∧ f.pointer.val = 1023
  | .belowStart => s = .act .left ∧ f.pointer.val = 0
  | .writeFailed _ => s = .act .output ∧ m.log = x.log.push x.current
  | .readFailed _ => s = .act .input
  | .quotaExceeded q => q = quota ∧ m.steps = quota + 1

/-- An instruction that cannot be carried out leaves the pointer where it was and says why. -/
theorem Machine.fits_of_perform_faulted {σ : Type} [Channel σ] {i : Instr} {pos : Position}
    {x m : Machine σ} {f : Fault} (h : x.perform i pos = .faulted f m) (quota : Nat) :
    f.pos = pos ∧ f.pointer = m.pointer ∧ f.Fits quota (.act i) x m := by
  cases i with
  | right =>
    have hlt := x.pointer.isLt
    have hsize : tapeSize = 1024 := rfl
    simp only [perform] at h
    split_ifs at h with hp
    cases h
    have hlast : x.pointer.val = 1023 := by omega
    exact ⟨rfl, rfl, rfl, hlast⟩
  | left =>
    simp only [perform] at h
    split_ifs at h with hp
    cases h
    exact ⟨rfl, rfl, rfl, hp⟩
  | increment => cases h
  | decrement => cases h
  | output =>
    simp only [perform] at h
    cases hw : (Channel.write x.current x.channel).1 with
    | none =>
      rw [hw] at h
      cases h
    | some err =>
      rw [hw] at h
      cases h
      exact ⟨rfl, rfl, rfl, rfl⟩
  | input =>
    simp only [perform] at h
    cases hr : (Channel.read x.channel).1 with
    | error err =>
      rw [hr] at h
      cases h
      exact ⟨rfl, rfl, rfl⟩
    | ok x? =>
      rw [hr] at h
      cases x? <;> cases h

namespace Engine
variable {σ : Type} {e : Engine} {pos : Position} {x m : Machine σ} {f : Fault}

theorem fits_of_tick_faulted (hx : e.IsLimited → x.steps ≤ e.quota)
    (h : e.tick pos x = .faulted f m) (s : Symbol) :
    f.pos = pos ∧ f.pointer = m.pointer ∧ f.Fits e.quota s x m := by
  obtain ⟨rfl, rfl, hover⟩ := tick_eq_faulted_iff.mp h
  have hle : e.quota ≤ x.steps := Nat.le_of_lt_succ hover.quota_lt
  have hsteps : x.counted.steps = e.quota + 1 :=
    congrArg (· + 1) (le_antisymm (hx hover.isLimited) hle)
  exact ⟨rfl, rfl, rfl, hsteps⟩

variable [Channel σ] {b c : Block} {is : List Instr}

/-- The step lemma: a statement that fails is the first one left to run, and its fault fits it. -/
theorem Stops.exists_fits (hx : e.IsLimited → x.steps ≤ e.quota) (h : e.Stops c x f m) :
    ∃ t, c.statements.head? = some t ∧ f.pos = t.pos ∧ f.pointer = m.pointer ∧
      f.Fits e.quota t.symbol x m := by
  cases c with
  | done => exact h.elim
  | loop pos body next => exact ⟨⟨.opening, pos⟩, rfl, fits_of_tick_faulted hx h _⟩
  | act i pos next =>
    refine ⟨⟨.act i, pos⟩, rfl, ?_⟩
    change e.advance i pos x = .faulted f m at h
    unfold advance at h
    cases ht : e.tick pos x with
    | faulted g m₁ =>
      rw [ht] at h
      cases h
      exact fits_of_tick_faulted hx ht _
    | finished m₁ =>
      rw [ht] at h
      obtain ⟨rfl, -⟩ := tick_eq_finished_iff.mp ht
      exact Machine.fits_of_perform_faulted h e.quota

/-- Nothing is left to run that was not there from the start. -/
theorem Passes.statements_subset (h : e.Passes b m is c x) : c.statements ⊆ b.statements := by
  induction h with
  | here => exact List.Subset.refl _
  | act _ _ ih => exact List.subset_cons_of_subset _ ih
  | skip _ _ _ ih => exact List.subset_cons_of_subset _ (List.subset_append_of_subset_right _ ih)
  | @enter pos body next _ _ _ _ _ _ _ _ ih =>
    rw [Block.statements_append] at ih
    have hbody : body.statements ⊆ (Block.loop pos body next).statements :=
      List.subset_cons_of_subset _ (List.subset_append_left _ _)
    exact List.Subset.trans ih (List.append_subset.mpr ⟨hbody, List.Subset.refl _⟩)

/-- A run that fails has come to one of its statements, and the fault is about that one. -/
theorem Ends.exists_fits {m' : Machine σ} (hm : e.IsLimited → m.steps ≤ e.quota)
    (h : e.Ends b m (.faulted f m')) :
    ∃ is c x t, e.Passes b m is c x ∧ c.statements.head? = some t ∧ t ∈ b.statements ∧
      f.pos = t.pos ∧ f.pointer = m'.pointer ∧ f.Fits e.quota t.symbol x m' := by
  obtain ⟨is, c, x, hpasses, hstops⟩ := h.exists_endsAfter
  -- The quota was kept up to the statement that failed, so it is exceeded by one there.
  have hx : e.IsLimited → x.steps ≤ e.quota := fun he => hpasses.steps_le_quota he (hm he)
  obtain ⟨t, ht, hfits⟩ := hstops.exists_fits hx
  have hmem : t ∈ b.statements := hpasses.statements_subset (List.mem_of_head? ht)
  exact ⟨is, c, x, t, hpasses, ht, hmem, hfits⟩

/-- A run that has failed otherwise than in its last flush. -/
theorem exists_of_error?_conclude {text : List Char} {o : Outcome σ} {frame? : Option CodeFrame}
    (h : (conclude text o).error? = some (.fault f frame?)) :
    ∃ m, o = .faulted f m ∧ frame? = CodeFrame.locate? text f.pos := by
  cases o with
  | finished m =>
    simp only [conclude] at h
    cases hflush : (Channel.flush m.channel).1 <;> simp [hflush] at h
  | faulted g m =>
    cases h
    exact ⟨m, rfl, rfl⟩

/-- Whatever was run on the machine before, a fault is about a statement of the program that the run
had come to, and no other statement has its place. It is reported with that place, the pointer as
the run leaves it and the frame of the place in the program's own text. At an end of the tape it is
about a move there; a failed write is about an output, whose byte ends the log; a failed read is
about an input; and a quota has been exceeded by one step. -/
theorem fault_names_statement {source : Bytes} {p : Program} (hp : Program.parse source = .ok p)
    (e : Engine) (m : Machine σ) {r : Run σ} (hr : e.Executes (some p) m r) {f : Fault}
    {frame? : Option CodeFrame} (hf : r.error? = some (.fault f frame?)) :
    ∃ is c x t, e.Passes p.body { m with steps := 0 } is c x ∧ c.statements.head? = some t ∧
      t ∈ p.body.statements ∧ (∀ u ∈ p.body.statements, u.pos = t.pos → u = t) ∧
      f.report frame? = ⟨f.cause.detail, t.pos, r.machine.pointer.val,
        CodeFrame.describe (Utf8.decode source) t.pos⟩ ∧
      f.Fits e.quota t.symbol x r.machine := by
  obtain ⟨-, hsource, hspells⟩ := Program.parse_eq_ok_iff.mp hp
  obtain ⟨o, ho, rfl⟩ := executes_iff.mp hr
  obtain ⟨m', rfl, rfl⟩ := exists_of_error?_conclude hf
  obtain ⟨is, c, x, t, hpasses, ht, hmem, hpos, hpointer, hfits⟩ :=
    ho.exists_fits (fun _ => Nat.zero_le _)
  have hunique : ∀ u ∈ p.body.statements, u.pos = t.pos → u = t := fun u hu he =>
    List.inj_on_of_nodup_map hspells.nodup_statements hu hmem he
  have htext : p.text = Utf8.decode source := congrArg Utf8.decode hsource
  refine ⟨is, c, x, t, hpasses, ht, hmem, hunique, ?_, hfits⟩
  rw [Fault.report, htext, hpos, hpointer]
  rfl

/-- In the second pass of a loop on the second line, on a machine that another program has left. -/
theorem fault_names_statement_second_pass :
    let first : Program := ⟨.act .increment ⟨0, 1, 1⟩ (.act .right ⟨1, 1, 2⟩ .done), [0x2B, 0x3E]⟩
    let p : Program := ⟨.act .increment ⟨1, 2, 1⟩ (.loop ⟨2, 2, 2⟩
      (.act .left ⟨3, 2, 3⟩ .done) .done), [0x0A, 0x2B, 0x5B, 0x3C, 0x5D]⟩
    let f : Fault := ⟨.belowStart, ⟨3, 2, 3⟩, 0⟩
    ∃ r r' frame? t, unlimited.Executes (some first) (.fresh Buffer.empty) r ∧
      Program.parse p.source = .ok p ∧ unlimited.Executes (some p) r.machine r' ∧
      r'.error? = some (.fault f frame?) ∧ t ∈ p.body.statements ∧ t.symbol = .act .left ∧
      f.report frame? = ⟨"pointer moved below cell 0", t.pos, r'.machine.pointer.val,
        CodeFrame.describe ['\n', '+', '[', '<', ']'] t.pos⟩ := by
  intro first p f
  have hp : Program.parse p.source = .ok p := rfl
  have hruns : ((unlimited.execute 9 (some first) (.fresh Buffer.empty)).bind fun r =>
      (unlimited.execute 9 (some p) r.machine).map fun r' => (r, r')).map (·.2.error?) =
        some (some (.fault f (CodeFrame.locate? p.text f.pos))) := rfl
  obtain ⟨⟨r, r'⟩, hboth, herror⟩ := Option.map_eq_some_iff.mp hruns
  obtain ⟨r₁, hfirst, hsecond⟩ := Option.bind_eq_some_iff.mp hboth
  obtain ⟨r₂, hexec, hpair⟩ := Option.map_eq_some_iff.mp hsecond
  cases hpair
  obtain ⟨_, _, x, t, -, -, hmem, -, hreport, hfits⟩ :=
    fault_names_statement hp unlimited r.machine ⟨9, hexec⟩ herror
  exact ⟨r, r', _, t, ⟨9, hfirst⟩, hp, ⟨9, hexec⟩, herror, hmem, hfits.1, hreport⟩

end Engine
end TapeLang
