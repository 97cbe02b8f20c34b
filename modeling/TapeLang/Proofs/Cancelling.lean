import TapeLang.Channel.Buffer
import TapeLang.Proofs.Alike
import TapeLang.Proofs.DeadLoops

/-! Instructions that are reported to cancel each other: without a quota they may be taken out, and
the program does the same unless the first of them would have moved off the tape. -/
namespace TapeLang
variable {σ : Type}

/-- The second block is the first without two instructions in a row, `a` at `x` and `b` at `y`. -/
inductive Block.Cut (a b : Instr) (x y : Position) : Block → Block → Prop where
  | here {rest : Block} : Cut a b x y (.act a x (.act b y rest)) rest
  | act {i : Instr} {p : Position} {next next' : Block} (h : Cut a b x y next next') :
      Cut a b x y (.act i p next) (.act i p next')
  | inside {p : Position} {body body' next : Block} (h : Cut a b x y body body') :
      Cut a b x y (.loop p body next) (.loop p body' next)
  | after {p : Position} {body next next' : Block} (h : Cut a b x y next next') :
      Cut a b x y (.loop p body next) (.loop p body next')

/-- The symbols left over spell what is left of the tree. -/
theorem Block.Cut.spells {a b : Instr} {x y : Position} {c c' : Block} (h : Cut a b x y c c')
    {ts : List Token} (hts : c.Spells ts) :
    ∃ before after, ts = before ++ ⟨.act a, x⟩ :: ⟨.act b, y⟩ :: after ∧
      c'.Spells (before ++ after) := by
  induction h generalizing ts with
  | here =>
    cases hts with
    | act hts =>
      cases hts with
      | act hrest => exact ⟨[], _, rfl, hrest⟩
  | act _ ih =>
    cases hts with
    | act hnext =>
      obtain ⟨before, after, rfl, hc⟩ := ih hnext
      exact ⟨_ :: before, after, rfl, .act hc⟩
  | @inside p _ _ _ _ ih =>
    cases hts with
    | @loop _ q _ _ _ ts hbody hnext =>
      obtain ⟨before, after, rfl, hc⟩ := ih hbody
      refine ⟨⟨.opening, p⟩ :: before, after ++ ⟨.closing, q⟩ :: ts, by simp, ?_⟩
      simpa using Spells.loop (p := p) (q := q) hc hnext
  | @after p _ _ _ _ ih =>
    cases hts with
    | @loop _ q _ _ inside _ hbody hnext =>
      obtain ⟨before, after, rfl, hc⟩ := ih hnext
      refine ⟨⟨.opening, p⟩ :: (inside ++ ⟨.closing, q⟩ :: before), after, by simp, ?_⟩
      simpa using Spells.loop (p := p) (q := q) hbody hc

namespace Lint

/-- A pair that is reported is one that cancels, and its first instruction stands right before the
second, unless the block begins between them. -/
theorem exists_cut_of_flags {w : Warning} {a b : Instr} (hw : w.issue = .cancels a b)
    {blank : Bool} {previous? : Option Symbol} {c : Block} (h : Flags w blank previous? c) :
    cancels a b = true ∧
      ((previous? = some (.act a) ∧ ∃ rest, c = .act b w.pos rest) ∨
        ∃ x c', c.Cut a b x w.pos c') := by
  induction c generalizing blank previous? with
  | done => exact h.elim
  | act i p next ih =>
    rcases h with ⟨hpos, hissue⟩ | h
    · unfold pairIssue? at hissue
      split at hissue
      · split_ifs at hissue with hc
        rw [hw, Option.some.injEq, Issue.cancels.injEq] at hissue
        obtain ⟨rfl, rfl⟩ := hissue
        exact ⟨hc, Or.inl ⟨rfl, next, by rw [hpos]⟩⟩
      · cases hissue
    · obtain ⟨hc, ⟨hprevious, rest, rfl⟩ | ⟨x, c', hcut⟩⟩ := ih h
      · cases hprevious
        exact ⟨hc, Or.inr ⟨p, rest, .here⟩⟩
      · exact ⟨hc, Or.inr ⟨x, .act i p c', .act hcut⟩⟩
  | loop p body next ihb ih =>
    rcases h with ⟨-, hissue⟩ | h | h
    · unfold loopIssue? at hissue
      rw [hw] at hissue
      split_ifs at hissue <;> cases hissue
    · obtain ⟨hc, ⟨hprevious, -⟩ | ⟨x, c', hcut⟩⟩ := ihb h
      · cases hprevious
      · exact ⟨hc, Or.inr ⟨x, .loop p c' next, .inside hcut⟩⟩
    · obtain ⟨hc, ⟨hprevious, -⟩ | ⟨x, c', hcut⟩⟩ := ih h
      · cases hprevious
      · exact ⟨hc, Or.inr ⟨x, .loop p body c', .after hcut⟩⟩

private theorem toList_message (a b : Instr) : (Issue.cancels a b).message.toList =
    '\'' :: b.toChar :: '\'' :: (" cancels the preceding ".toList ++ ['\'', a.toChar, '\'']) := by
  have hquote (i : Instr) : (Quoted.quoteChar i.toChar).toList = ['\'', i.toChar, '\''] := by
    cases i <;> rfl
  have htext (t : String) : toString t = t := rfl
  simp [Issue.message, htext, hquote]

theorem cancels_iff_message {i : Issue} {a b : Instr} : i = .cancels a b ↔
    i.message = s!"{Quoted.quoteChar b.toChar} cancels the preceding {Quoted.quoteChar a.toChar}" := by
  constructor
  · rintro rfl
    rfl
  · intro h
    have hchars : i.message.toList = (Issue.cancels a b).message.toList := congrArg _ h
    rw [toList_message] at hchars
    rcases i with _ | _ | _ | ⟨c, d⟩
    · simp [Issue.message] at hchars
    · simp [Issue.message] at hchars
    · simp [Issue.message] at hchars
    · rw [toList_message, List.cons.injEq, List.cons.injEq, List.cons.injEq,
        List.append_cancel_left_eq] at hchars
      obtain ⟨-, hsecond, -, hfirst⟩ := hchars
      have hfirst : c.toChar = a.toChar := by simpa using hfirst
      have hca : Symbol.act c = .act a := Symbol.toChar_injective hfirst
      have hdb : Symbol.act d = .act b := Symbol.toChar_injective hsecond
      cases hca
      cases hdb
      rfl

end Lint

/-- Of two instructions that cancel each other, the first moves off the tape or the second undoes
it. -/
theorem Machine.perform_cancels [Channel σ] {a b : Instr} (h : Lint.cancels a b = true)
    (x y : Position) (m : Machine σ) :
    (∃ m', m.perform a x = .finished m' ∧ m'.perform b y = .finished m) ∨
      ∃ c : Cause, c.isOutOfBounds = true ∧ m.perform a x = m.fail c x := by
  unfold Lint.cancels at h
  split at h
  · refine Or.inl ⟨_, rfl, ?_⟩
    simp only [perform, current_setCurrent, setCurrent_setCurrent, UInt8.add_sub_cancel,
      setCurrent_current]
  · refine Or.inl ⟨_, rfl, ?_⟩
    simp only [perform, current_setCurrent, setCurrent_setCurrent, UInt8.sub_add_cancel,
      setCurrent_current]
  · by_cases hp : m.pointer.val + 1 < tapeSize
    · refine Or.inl ⟨_, dif_pos hp, ?_⟩
      simp [perform]
    · exact Or.inr ⟨.pastEnd, rfl, dif_neg hp⟩
  · by_cases hp : m.pointer.val = 0
    · exact Or.inr ⟨.belowStart, rfl, if_pos hp⟩
    · refine Or.inl ⟨_, if_neg hp, ?_⟩
      have hlt := m.pointer.isLt
      have hback : m.pointer.val - 1 + 1 = m.pointer.val := by omega
      simp [perform, hback, hlt]
  · cases h

/-- The same machine but for the count of its steps. -/
def Machine.Same : Machine σ → Machine σ → Prop := Machine.Agree (fun _ _ => True) Eq

theorem Machine.Same.symm {m m' : Machine σ} (h : m.Same m') : m'.Same m :=
  ⟨h.tape.symm, h.pointer.symm, h.log.symm, trivial, h.channel.symm⟩

theorem Machine.Same.trans {m₁ m₂ m₃ : Machine σ} (h : m₁.Same m₂) (h' : m₂.Same m₃) :
    m₁.Same m₃ :=
  ⟨h.tape.trans h'.tape, h.pointer.trans h'.pointer, h.log.trans h'.log, trivial,
    h.channel.trans h'.channel⟩

theorem Machine.same_counted (m : Machine σ) : m.Same m.counted :=
  ⟨rfl, rfl, rfl, trivial, rfl⟩

namespace Outcome

/-- The same outcome but for the count of steps. -/
abbrev Same : Outcome σ → Outcome σ → Prop := Outcome.Alike Eq Machine.Same

def FaultsIn (B : Fault → Prop) : Outcome σ → Prop
  | .finished _ => False
  | .faulted f _ => B f

theorem Same.trans {o₁ o₂ o₃ : Outcome σ} (h : o₁.Same o₂) (h' : o₂.Same o₃) : o₁.Same o₃ := by
  cases h with
  | finished hm =>
    cases h' with
    | finished hm' => exact .finished (hm.trans hm')
  | faulted hf hm =>
    cases h' with
    | faulted hf' hm' =>
      exact .faulted ⟨hf.cause.trans hf'.cause, hf.pos.trans hf'.pos,
        hf.pointer.trans hf'.pointer⟩ (hm.trans hm')

theorem Same.symm {o o' : Outcome σ} (h : o.Same o') : o'.Same o := by
  cases h with
  | finished hm => exact .finished hm.symm
  | faulted hf hm => exact .faulted ⟨hf.cause.symm, hf.pos.symm, hf.pointer.symm⟩ hm.symm

theorem Same.faultsIn {B : Fault → Prop} {o o' : Outcome σ} (h : o.Same o') (hB : o.FaultsIn B) :
    o'.FaultsIn B := by
  cases h with
  | finished => exact hB
  | faulted hf _ => exact hf.eq ▸ hB

end Outcome

namespace Engine
variable [Channel σ]

theorem inStep_unlimited : unlimited.InStep fun _ _ => True where
  succ _ := trivial
  eq h _ := absurd h (by decide)

theorem Ends.same {b : Block} {m m' : Machine σ} {o : Outcome σ} (h : unlimited.Ends b m o)
    (hm : m.Same m') : ∃ o', unlimited.Ends b m' o' ∧ o.Same o' :=
  h.alike inStep_unlimited Channel.bisimilar_eq b.aligned_refl hm

/-- Whenever `a` ends, `b` ends the same but for the count of steps. The only exceptions are the
faults of `a` in `B` and those of `b` in `B'`. -/
def Leads (σ : Type) [Channel σ] (B B' : Fault → Prop) (a b : Block) : Prop :=
  ∀ ⦃m : Machine σ⦄ ⦃o : Outcome σ⦄, unlimited.Ends a m o →
    o.FaultsIn B ∨ ∃ o', unlimited.Ends b m o' ∧ (o.Same o' ∨ o'.FaultsIn B')

variable {B B' : Fault → Prop} {a b : Block}

theorem Leads.refl (b : Block) : Leads σ B B' b b := by
  intro m o h
  obtain ⟨o', h', hsame⟩ := h.same ⟨rfl, rfl, rfl, trivial, rfl⟩
  exact Or.inr ⟨o', h', Or.inl hsame⟩

theorem Leads.act {next next' : Block} (hn : Leads σ B B' next next') (i : Instr)
    (pos : Position) : Leads σ B B' (.act i pos next) (.act i pos next') := by
  intro m o h
  cases h with
  | act h hends =>
    rcases hn hends with hB | ⟨o', hends', hrel⟩
    · exact Or.inl hB
    · exact Or.inr ⟨o', .act h hends', hrel⟩
  | fault h =>
    exact Or.inr ⟨_, .fault h, Or.inl (.faulted ⟨rfl, rfl, rfl⟩ ⟨rfl, rfl, rfl, trivial, rfl⟩)⟩

theorem Leads.loop {body body' next next' : Block} (hb : Leads σ B B' body body')
    (hn : Leads σ B B' next next') (pos : Position) :
    Leads σ B B' (.loop pos body next) (.loop pos body' next') := by
  intro m o h
  induction h using Ends.loop_induction with
  | stop h =>
    exact Or.inr ⟨_, .stop h, Or.inl (.faulted ⟨rfl, rfl, rfl⟩ ⟨rfl, rfl, rfl, trivial, rfl⟩)⟩
  | skip h hz hends =>
    rcases hn hends with hB | ⟨o', hends', hrel⟩
    · exact Or.inl hB
    · exact Or.inr ⟨o', .skip h hz hends', hrel⟩
  | inside h hz hends =>
    rcases hb hends with hB | ⟨o', hends', hrel⟩
    · exact Or.inl hB
    · cases o' with
      | faulted f' m₁ => exact Or.inr ⟨_, .inside h hz hends', hrel⟩
      | finished m₁ =>
        rcases hrel with hsame | hB'
        · cases hsame
        · exact hB'.elim
  | @again m m' m'' o h hz hends _ ih =>
    rcases hb hends with hB | ⟨o', hends', hrel⟩
    · exact hB.elim
    · cases o' with
      | faulted f' m₁ =>
        rcases hrel with hsame | hB'
        · cases hsame
        · exact Or.inr ⟨_, .inside h hz hends', Or.inr hB'⟩
      | finished m₁ =>
        have hm : m''.Same m₁ := by
          rcases hrel with hsame | hB'
          · cases hsame with
            | finished hm => exact hm
          · exact hB'.elim
        rcases ih with hB | ⟨o', hloop, hrel⟩
        · exact Or.inl hB
        · -- The next pass starts a few steps earlier or later, which makes no difference.
          obtain ⟨o₁, hloop₁, hsame⟩ := hloop.same hm
          refine Or.inr ⟨o₁, .again h hz hends' hloop₁, ?_⟩
          exact hrel.imp (fun h => h.trans hsame) (fun h => hsame.faultsIn h)

/-- The instruction at `x` moved off the tape. -/
def OffTape (x : Position) (f : Fault) : Prop := f.pos = x ∧ f.cause.isOutOfBounds = true

theorem ends_pair {i j : Instr} (h : Lint.cancels i j = true) (x y : Position) (m : Machine σ) :
    (∃ m', m.Same m' ∧ ∀ rest o,
      unlimited.Ends (.act i x (.act j y rest)) m o ↔ unlimited.Ends rest m' o) ∨
    ∃ f m', OffTape x f ∧ ∀ rest o,
      unlimited.Ends (.act i x (.act j y rest)) m o ↔ o = .faulted f m' := by
  rcases m.counted.perform_cancels h x y with ⟨m₁, hi, hj⟩ | ⟨c, hc, hi⟩
  · left
    have hback : (m₁.perform j y).Same (m₁.counted.perform j y) :=
      m₁.same_counted.perform Channel.bisimilar_eq j rfl
    rw [hj] at hback
    generalize hm : m₁.counted.perform j y = o₁ at hback
    cases hback with
    | @finished _ m₂ hsame =>
      refine ⟨m₂, m.same_counted.trans hsame, ?_⟩
      intro rest o
      rw [ends_act_iff ((advance_unlimited i x m).trans hi),
        ends_act_iff ((advance_unlimited j y m₁).trans hm)]
  · right
    refine ⟨⟨c, x, m.counted.pointer⟩, m.counted, ⟨rfl, hc⟩, ?_⟩
    intro rest o
    exact ends_fault_iff ((advance_unlimited i x m).trans hi)

/-- Taking out the pair keeps every run that does not move off the tape there. -/
theorem leads_of_cut {i j : Instr} (h : Lint.cancels i j = true) {x y : Position}
    (hc : a.Cut i j x y b) : Leads σ (OffTape x) (fun _ => False) a b := by
  induction hc with
  | @here rest =>
    intro m o hends
    rcases ends_pair h x y m with ⟨m', hm, hiff⟩ | ⟨f, m', hf, hiff⟩
    · obtain ⟨o', ho', hsame⟩ := ((hiff rest o).mp hends).same hm.symm
      exact Or.inr ⟨o', ho', Or.inl hsame⟩
    · rw [(hiff rest o).mp hends]
      exact Or.inl hf
  | act _ ih => exact ih.act _ _
  | inside _ ih => exact ih.loop (.refl _) _
  | after _ ih => exact (Leads.refl _).loop ih _

/-- Putting the pair back keeps every run, unless it moves off the tape there. -/
theorem leads_to_cut {i j : Instr} (h : Lint.cancels i j = true) {x y : Position}
    (hc : a.Cut i j x y b) : Leads σ (fun _ => False) (OffTape x) b a := by
  induction hc with
  | @here rest =>
    intro m o hends
    rcases ends_pair h x y m with ⟨m', hm, hiff⟩ | ⟨f, m', hf, hiff⟩
    · obtain ⟨o', ho', hsame⟩ := hends.same hm
      exact Or.inr ⟨o', (hiff rest o').mpr ho', Or.inl hsame⟩
    · exact Or.inr ⟨_, (hiff rest _).mpr rfl, Or.inr hf⟩
  | act _ ih => exact ih.act _ _
  | inside _ ih => exact ih.loop (.refl _) _
  | after _ ih => exact (Leads.refl _).loop ih _

/-- Two instructions reported to cancel each other are neighbours, and the symbols without them
spell a tree. Without a quota it runs as the program does, but for the count of steps, from any
machine from which the program does not fail to move off the tape at the first of the two. -/
theorem executes_without_pair {source : Bytes} {p : Program}
    (hp : Program.parse source = .ok p) {w : Warning} (hw : w ∈ p.warnings) {i j : Instr}
    (hmessage : w.issue.message =
      s!"{Quoted.quoteChar j.toChar} cancels the preceding {Quoted.quoteChar i.toChar}") :
    ∃ before x after body,
      Token.ofText (Utf8.decode source) =
        before ++ ⟨.act i, x⟩ :: ⟨.act j, w.pos⟩ :: after ∧
      Block.Spells body (before ++ after) ∧
      ∀ (σ : Type) [Channel σ] (m : Machine σ),
        (∀ f frame? m', unlimited.Executes (some p) m ⟨some (.fault f frame?), m'⟩ →
          f.pos = x → f.cause.isOutOfBounds = false) →
        (∀ r, unlimited.Executes (some p) m r →
          ∃ r', unlimited.Executes (some { p with body }) m r' ∧ r.Alike Eq Machine.Same r') ∧
        ∀ r', unlimited.Executes (some { p with body }) m r' →
          ∃ r, unlimited.Executes (some p) m r ∧ r.Alike Eq Machine.Same r' := by
  obtain ⟨-, -, hspells⟩ := Program.parse_eq_ok_iff.mp hp
  have hissue := Lint.cancels_iff_message.mpr hmessage
  obtain ⟨hcancels, ⟨hprevious, -⟩ | ⟨x, body, hcut⟩⟩ :=
    Lint.exists_cut_of_flags hissue (Lint.mem_warnings_iff.mp hw)
  · cases hprevious
  obtain ⟨before, after, htokens, hbody⟩ := hcut.spells hspells
  refine ⟨before, x, after, body, htokens, hbody, ?_⟩
  intro σ _ m hsafe
  have hsafe {o : Outcome σ} (ho : unlimited.Ends p.body { m with steps := 0 } o) :
      ¬ o.FaultsIn (OffTape x) := by
    intro hfault
    cases o with
    | finished m' => exact hfault
    | faulted f m' =>
      have hno := hsafe f _ _ (executes_iff.mpr ⟨_, ho, rfl⟩) hfault.1
      rw [hfault.2] at hno
      cases hno
  constructor
  · intro r hr
    obtain ⟨o, ho, rfl⟩ := executes_iff.mp hr
    rcases leads_of_cut hcancels hcut ho with hfault | ⟨o', ho', hsame | hfault⟩
    · exact absurd hfault (hsafe ho)
    · exact ⟨_, executes_iff.mpr ⟨o', ho', rfl⟩,
        conclude_alike Channel.bisimilar_eq hsame _ _⟩
    · cases o' <;> exact hfault.elim
  · intro r' hr'
    obtain ⟨o', ho', rfl⟩ := executes_iff.mp hr'
    rcases leads_to_cut hcancels hcut ho' with hfault | ⟨o, ho, hsame | hfault⟩
    · cases o' <;> exact hfault.elim
    · exact ⟨_, executes_iff.mpr ⟨o, ho, rfl⟩,
        conclude_alike Channel.bisimilar_eq hsame.symm _ _⟩
    · exact absurd hfault (hsafe ho)

theorem executes_without_pair_in_loop :
    ∃ p, Program.parse [0x2C, 0x5B, 0x3E, 0x3C, 0x2D, 0x5D] = .ok p ∧
      ∃ before x after body,
        Token.ofText [',', '[', '>', '<', '-', ']'] =
          before ++ ⟨.act .right, x⟩ :: ⟨.act .left, ⟨3, 1, 4⟩⟩ :: after ∧
        Block.Spells body (before ++ after) ∧
        ∃ r r', unlimited.Executes (some p) (.fresh (Buffer.ofInput [1])) r ∧
          unlimited.Executes (some { p with body }) (.fresh (Buffer.ofInput [1])) r' ∧
          r.error? = none ∧ r.Alike Eq Machine.Same r' := by
  let p : Program := ⟨.act .input ⟨0, 1, 1⟩ (.loop ⟨1, 1, 2⟩ (.act .right ⟨2, 1, 3⟩
    (.act .left ⟨3, 1, 4⟩ (.act .decrement ⟨4, 1, 5⟩ .done))) .done),
    [0x2C, 0x5B, 0x3E, 0x3C, 0x2D, 0x5D]⟩
  let m : Machine Buffer := .fresh (.ofInput [1])
  have hp : Program.parse [0x2C, 0x5B, 0x3E, 0x3C, 0x2D, 0x5D] = .ok p := rfl
  have hw : ⟨⟨3, 1, 4⟩, .cancels .right .left⟩ ∈ p.warnings :=
    Lint.mem_warnings_iff.mpr (Or.inr (Or.inr (Or.inl (Or.inr (Or.inl ⟨rfl, rfl⟩)))))
  obtain ⟨before, x, after, body, htokens, hbody, hrun⟩ :=
    executes_without_pair hp hw (Lint.cancels_iff_message.mp rfl)
  obtain ⟨r, hr, herror⟩ : ∃ r, unlimited.execute 8 (some p) m = some r ∧ r.error? = none :=
    Option.map_eq_some_iff.mp
      (by decide +kernel : (unlimited.execute 8 (some p) m).map Run.error? = some none)
  have hsafe : ∀ f frame? m', unlimited.Executes (some p) m ⟨some (.fault f frame?), m'⟩ →
      f.pos = x → f.cause.isOutOfBounds = false := by
    intro f frame? m' hfault
    rw [Executes.unique ⟨8, hr⟩ hfault] at herror
    cases herror
  obtain ⟨r', hr', halike⟩ := (hrun Buffer m hsafe).1 r ⟨8, hr⟩
  exact ⟨p, hp, before, x, after, body, htokens, hbody, r, r', ⟨8, hr⟩, hr', herror, halike⟩

end Engine
end TapeLang
