import TapeLang.Proofs.DeadLoops

/-! Warnings without the tree. What is said of a symbol depends on its neighbours and on what stands
before it outside of all brackets, so one pass over the symbols finds the same warnings in the same
order as the walk through the blocks. -/
namespace TapeLang
namespace Lint
open Brackets

/-- As many brackets are closed as were opened. -/
def Level (before : List Symbol) : Prop := before.count .opening = before.count .closing

instance (before : List Symbol) : Decidable (Level before) := inferInstanceAs (Decidable (_ = _))

/-- No symbol outside of brackets changes a cell. -/
def Untouched (before : List Symbol) : Prop :=
  ∀ j < before.length, Level (before.take j) →
    before[j]? ∉ [some (.act .increment), some (.act .decrement), some (.act .input)]

instance (before : List Symbol) : Decidable (Untouched before) :=
  inferInstanceAs (Decidable (∀ j < _, _))

/-- What is said of a symbol, given those before it and those after it. -/
def remark? (before : List Symbol) (s : Symbol) (after : List Symbol) : Option String :=
  match before.getLast?, s with
  | previous?, .opening =>
    if Level before ∧ Untouched before then some "loop never runs: tape is still zero"
    else if previous? = some .closing then
      some "loop never runs: current cell is zero after the previous loop"
    else if after.head? = some .closing then
      some "empty loop never terminates when the current cell is nonzero"
    else none
  | some (.act a), .act b =>
    if (a, b) ∈ [(.increment, .decrement), (.decrement, .increment), (.left, .right),
        (.right, .left)] then
      some s!"'{b.toChar}' cancels the preceding '{a.toChar}'"
    else none
  | _, _ => none

theorem untouched_iff {before : List Symbol} : Untouched before ↔
    ∀ lead i, lead ++ [.act i] <+: before → Level lead → changesCells i = false := by
  have hchanges (i : Instr) : some (Symbol.act i) ∈
      [some (Symbol.act .increment), some (.act .decrement), some (.act .input)] ↔
        changesCells i = true := by
    cases i <;> decide
  constructor
  · intro h lead i hlead hlevel
    obtain ⟨rest, rfl⟩ := hlead
    have hj := h lead.length (by simp) (by simpa using hlevel)
    rw [List.append_assoc, List.getElem?_append_right (le_refl _), Nat.sub_self] at hj
    rw [← Bool.not_eq_true, ← hchanges]
    exact hj
  · intro h j hj hlevel hmem
    obtain ⟨i, hi⟩ : ∃ i, before[j]? = some (.act i) := by
      simp only [List.mem_cons, List.not_mem_nil, or_false] at hmem
      rcases hmem with hi | hi | hi <;> exact ⟨_, hi⟩
    have hlead : before.take j ++ [.act i] <+: before := by
      have htake : before.take (j + 1) = before.take j ++ [.act i] := by
        rw [List.take_add_one, hi]
        rfl
      rw [← htake]
      exact List.take_prefix _ _
    have hno := h _ i hlead hlevel
    rw [hi, hchanges, hno] at hmem
    cases hmem

theorem level_append_act (before : List Symbol) (i : Instr) :
    Level (before ++ [.act i]) ↔ Level before := by
  simp [Level]

theorem untouched_append_act {before : List Symbol} {i : Instr} :
    Untouched (before ++ [.act i]) ↔
      Untouched before ∧ (Level before → changesCells i = false) := by
  rw [untouched_iff, untouched_iff]
  constructor
  · intro h
    refine ⟨?_, h before i (List.prefix_refl _)⟩
    intro lead j hlead
    exact h lead j (hlead.trans (List.prefix_append _ _))
  · rintro ⟨hbefore, hlast⟩ lead j hlead hlevel
    rcases List.prefix_concat_iff.mp hlead with heq | hlead
    · obtain ⟨rfl, hij⟩ := List.append_inj' heq rfl
      cases hij
      exact hlast hlevel
    · exact hbefore lead j hlead hlevel

/-- Inside a loop no prefix is level. -/
theorem not_level_inside {before inside mid : List Symbol}
    (hnested : before.count .closing ≤ before.count .opening)
    (hinside : Balanced .opening .closing inside) (hmid : mid <+: inside) :
    ¬ Level (before ++ .opening :: mid) := by
  have hle := hinside.prefixes mid hmid
  unfold Level
  simp only [List.count_append, List.count_cons_self,
    List.count_cons_of_ne Symbol.opening_ne_closing]
  omega

/-- Before an instruction of a loop there are its opening bracket and a part of what is inside. -/
theorem exists_of_prefix_loop {part inside : List Symbol} {i : Instr}
    (h : part ++ [.act i] <+: .opening :: (inside ++ [.closing])) :
    ∃ mid, part = .opening :: mid ∧ mid <+: inside := by
  cases part with
  | nil => simp at h
  | cons s mid =>
    obtain ⟨rfl, hmid⟩ := List.cons_prefix_cons.mp h
    rcases List.prefix_concat_iff.mp hmid with heq | hmid
    · simp at heq
    · exact ⟨mid, rfl, (List.prefix_append _ _).trans hmid⟩

/-- A loop as a whole is passed over, since nothing in it is outside of brackets. -/
theorem untouched_append_loop {before inside : List Symbol}
    (hnested : before.count .closing ≤ before.count .opening)
    (hinside : Balanced .opening .closing inside) :
    Untouched (before ++ .opening :: (inside ++ [.closing])) ↔ Untouched before := by
  rw [untouched_iff, untouched_iff]
  constructor
  · intro h lead i hlead
    exact h lead i (hlead.trans (List.prefix_append _ _))
  · intro h lead i hlead hlevel
    -- The instruction stands before the loop, or else within it, where no prefix is level.
    rcases List.prefix_or_prefix_of_prefix hlead (List.prefix_append _ _) with hle | hle
    · exact h lead i hle hlevel
    rcases List.prefix_concat_iff.mp hle with heq | ⟨part, rfl⟩
    · exact h lead i (heq ▸ List.prefix_refl _) hlevel
    · rw [List.append_assoc, List.prefix_append_right_inj] at hlead
      obtain ⟨mid, rfl, hmid⟩ := exists_of_prefix_loop hlead
      exact absurd hlevel (not_level_inside hnested hinside hmid)

/-- What the walk knows before a statement, read off the symbols before it. -/
structure Follows (blank : Bool) (previous? : Option Symbol) (before : List Symbol) : Prop where
  nested : before.count .closing ≤ before.count .opening
  blank_iff : blank = true ↔ Level before ∧ Untouched before
  loop_iff : previous? = some .opening ↔ before.getLast? = some .closing
  act_iff : ∀ i, previous? = some (.act i) ↔ before.getLast? = some (.act i)

namespace Follows
variable {blank : Bool} {previous? : Option Symbol} {before inside : List Symbol}

theorem start : Follows true none [] := by
  refine ⟨le_refl _, iff_of_true rfl ⟨rfl, ?_⟩, by simp, by simp⟩
  intro j hj
  exact absurd hj (Nat.not_lt_zero j)

theorem act (h : Follows blank previous? before) (i : Instr) :
    Follows (blank && !changesCells i) (some (.act i)) (before ++ [.act i]) := by
  refine ⟨by simpa using h.nested, ?_, by simp, by simp⟩
  rw [Bool.and_eq_true, Bool.not_eq_true', h.blank_iff, level_append_act, untouched_append_act]
  constructor
  · rintro ⟨⟨hlevel, huntouched⟩, hi⟩
    exact ⟨hlevel, huntouched, fun _ => hi⟩
  · rintro ⟨hlevel, huntouched, hi⟩
    exact ⟨⟨hlevel, huntouched⟩, hi hlevel⟩

theorem body (h : Follows blank previous? before) :
    Follows false none (before ++ [.opening]) := by
  have hnested := h.nested
  have hlevel := not_level_inside hnested (closesAll_nil.mpr rfl) (List.prefix_refl [])
  refine ⟨?_, iff_of_false (by simp) (fun hboth => hlevel hboth.1), by simp, by simp⟩
  have hnone : [Symbol.opening].count .closing = 0 := by decide
  rw [List.count_append, List.count_append, hnone]
  omega

theorem loop (h : Follows blank previous? before) (hinside : Balanced .opening .closing inside) :
    Follows blank (some .opening) (before ++ .opening :: (inside ++ [.closing])) := by
  let loop : List Symbol := .opening :: (inside ++ [.closing])
  have hlast : (before ++ loop).getLast? = some .closing := by
    rw [show before ++ loop = (before ++ .opening :: inside) ++ [.closing] by simp [loop],
      List.getLast?_concat]
  have hcount : loop.count .opening = loop.count .closing := by
    have htotal := hinside.total
    simp [loop]
    omega
  have hlevel : Level (before ++ loop) ↔ Level before := by
    unfold Level
    rw [List.count_append, List.count_append, hcount, Nat.add_right_cancel_iff]
  refine ⟨?_, ?_, iff_of_true rfl hlast, ?_⟩
  · rw [List.count_append, List.count_append, hcount]
    exact Nat.add_le_add_right h.nested _
  · rw [h.blank_iff, hlevel, untouched_append_loop h.nested hinside]
  · rw [hlast]
    simp

theorem remark?_act (h : Follows blank previous? before) (i : Instr) (after : List Symbol) :
    remark? before (.act i) after = (pairIssue? previous? i).map Issue.message := by
  by_cases hact : ∃ j, previous? = some (.act j)
  · obtain ⟨j, rfl⟩ := hact
    have hlast := (h.act_iff j).mp rfl
    unfold remark? pairIssue?
    rw [hlast]
    cases j <;> cases i <;> rfl
  · have hlast (j : Instr) : before.getLast? ≠ some (.act j) := fun hj =>
      hact ⟨j, (h.act_iff j).mpr hj⟩
    have hremark : remark? before (.act i) after = none := by
      unfold remark?
      split <;> simp_all
    have hissue : pairIssue? previous? i = none := by
      unfold pairIssue?
      split <;> simp_all
    rw [hremark, hissue]
    rfl

theorem remark?_opening (h : Follows blank previous? before) {b : Block} {ts : List Token}
    (hb : b.Spells ts) (after : List Symbol) :
    remark? before .opening (ts.map Token.symbol ++ .closing :: after) =
      (loopIssue? blank previous? b).map Issue.message := by
  have hempty : (ts.map Token.symbol ++ .closing :: after).head? = some .closing ↔ b = .done := by
    cases hb <;> simp
  unfold remark? loopIssue?
  dsimp only
  simp only [← h.blank_iff, ← h.loop_iff, hempty]
  split_ifs <;> rfl

end Follows

theorem remark?_closing (before after : List Symbol) : remark? before .closing after = none := by
  unfold remark?
  split <;> simp_all

/-- What is said of each of the tokens `ts`, which stand between `before` and `after`. -/
def remarks (before : List Symbol) (ts : List Token) (after : List Symbol) :
    List (Position × String) :=
  match ts with
  | [] => []
  | t :: ts =>
    ((remark? before t.symbol (ts.map Token.symbol ++ after)).map (t.pos, ·)).toList ++
      remarks (before ++ [t.symbol]) ts after

theorem remarks_append (before : List Symbol) (ts us : List Token) (after : List Symbol) :
    remarks before (ts ++ us) after =
      remarks before ts (us.map Token.symbol ++ after) ++
        remarks (before ++ ts.map Token.symbol) us after := by
  induction ts generalizing before with
  | nil => simp [remarks]
  | cons t ts ih => simp [remarks, ih]

/-- The remark about the token with an index, in a sequence with the symbols `ss`. -/
def remarkAt? (ss : List Symbol) (x : Token × Nat) : Option (Position × String) :=
  (remark? (ss.take x.2) x.1.symbol (ss.drop (x.2 + 1))).map (x.1.pos, ·)

theorem remarks_eq_filterMap (before : List Symbol) (ts : List Token) :
    remarks before ts [] =
      (ts.zipIdx before.length).filterMap (remarkAt? (before ++ ts.map Token.symbol)) := by
  induction ts generalizing before with
  | nil => rfl
  | cons t ts ih =>
    have hsplit : before ++ (t :: ts).map Token.symbol =
        (before ++ [t.symbol]) ++ ts.map Token.symbol := by simp
    have hlength : before.length + 1 = (before ++ [t.symbol]).length := by simp
    have hhead : remarkAt? (before ++ (t :: ts).map Token.symbol) (t, before.length) =
        (remark? before t.symbol (ts.map Token.symbol ++ [])).map (t.pos, ·) := by
      unfold remarkAt?
      dsimp only
      rw [List.take_left, hsplit, hlength, List.drop_left, List.append_nil]
    rw [remarks, ih, List.zipIdx_cons, List.filterMap_cons, hhead, hlength, hsplit]
    cases (remark? before t.symbol (ts.map Token.symbol ++ [])).map (t.pos, ·) <;> rfl

/-- Remarks follow the order of their tokens. -/
theorem pairwise_remarks {ts : List Token} (h : ts.Pairwise fun s t => s.pos.offset < t.pos.offset)
    (ss : List Symbol) :
    (ts.zipIdx.filterMap (remarkAt? ss)).Pairwise fun x y => x.1.offset < y.1.offset := by
  have hindexed : ts.zipIdx.Pairwise fun x y => x.1.pos.offset < y.1.pos.offset := by
    rw [← List.pairwise_map (f := Prod.fst) (R := fun s t : Token => s.pos.offset < t.pos.offset),
      List.zipIdx_map_fst]
    exact h
  refine hindexed.filterMap _ ?_
  intro x y hxy r hr r' hr'
  obtain ⟨_, -, rfl⟩ := Option.map_eq_some_iff.mp hr
  obtain ⟨_, -, rfl⟩ := Option.map_eq_some_iff.mp hr'
  exact hxy

/-- A warning as it is shown. -/
def said (w : Warning) : Position × String := (w.pos, w.issue.message)

theorem said_note (pos : Position) (issue? : Option Issue) (acc : List Warning) :
    (note pos issue? acc).reverse.map said =
      acc.reverse.map said ++ ((issue?.map Issue.message).map (pos, ·)).toList := by
  cases issue? <;> simp [note, said]

/-- The walk through a block says what is said of its tokens. -/
theorem said_warningsFrom {b : Block} {ts : List Token} (hts : b.Spells ts) {blank : Bool}
    {previous? : Option Symbol} {before : List Symbol} (h : Follows blank previous? before)
    (acc : List Warning) (after : List Symbol) :
    (warningsFrom blank previous? acc b).reverse.map said =
      acc.reverse.map said ++ remarks before ts after := by
  induction hts generalizing blank previous? before acc after with
  | done => simp [warningsFrom, remarks]
  | @act i p next ts hnext ih =>
    rw [warningsFrom, ih (h.act i), said_note, remarks, h.remark?_act, List.append_assoc]
  | @loop p q body next inside ts hbody hnext ihb ih =>
    -- The walk starts afresh in the body, and goes on behind it with what it knew before.
    have hrest := ih (h.loop hbody.balanced)
      (warningsFrom false none (note p (loopIssue? blank previous? body) acc) body) after
    have hinside := ihb h.body (note p (loopIssue? blank previous? body) acc)
      (.closing :: (ts.map Token.symbol ++ after))
    rw [warningsFrom, hrest, hinside, said_note,
      ← h.remark?_opening hbody (ts.map Token.symbol ++ after), remarks, remarks_append, remarks,
      remark?_closing]
    simp

end Lint

namespace Program
open Lint

/-- The warnings about a program are what is said of its symbols one by one, in their order, each at
the place of its symbol and at most one for each. -/
theorem warnings_eq_remarks {source : Bytes} {p : Program} (hp : parse source = .ok p) :
    let ts := Token.ofText (Utf8.decode source)
    ts.map (·.symbol.toChar) = (Utf8.decode source).filter (fun c => !isBlank c) ∧
      p.warnings.map (fun w => (w.pos, w.issue.message)) =
        ts.zipIdx.filterMap (remarkAt? (ts.map Token.symbol)) ∧
      p.warnings.Pairwise fun v w => v.pos.offset < w.pos.offset := by
  intro ts
  obtain ⟨hread, -, hspells⟩ := parse_eq_ok_iff.mp hp
  have hsaid : (warningsFrom true none [] p.body).reverse.map said =
      ts.zipIdx.filterMap (remarkAt? (ts.map Token.symbol)) := by
    rw [said_warningsFrom hspells .start [] [], remarks_eq_filterMap]
    rfl
  have hsorted : (warningsFrom true none [] p.body).reverse.Pairwise
      fun v w => v.pos.offset < w.pos.offset := by
    have hpairs := pairwise_remarks (Token.pairwise_offset_ofText (Utf8.decode source))
      (ts.map Token.symbol)
    rw [← hsaid, List.pairwise_map] at hpairs
    exact hpairs
  -- The walk finds them in order already, so that sorting changes nothing.
  have hwarnings : p.warnings = (warningsFrom true none [] p.body).reverse := by
    apply List.mergeSort_of_pairwise
    exact hsorted.imp fun hlt => decide_eq_true (Int.le_of_lt hlt)
  rw [hwarnings]
  refine ⟨?_, hsaid, hsorted⟩
  rw [← Token.chars_ofText hread, List.map_map]
  rfl

/-- Behind an instruction that changes a cell in a loop only, a loop is still met with a blank tape,
and so is one that is empty and stands right behind another. -/
theorem warnings_eq_remarks_blank :
    let source : Bytes := [0x5B, 0x2B, 0x2D, 0x5D, 0x20, 0x5B, 0x5D, 0x2C, 0x5B, 0x5D]
    ∃ p, parse source = .ok p ∧ p.warnings.map (fun w => (w.pos, w.issue.message)) =
      [(⟨0, 1, 1⟩, "loop never runs: tape is still zero"),
        (⟨2, 1, 3⟩, "'-' cancels the preceding '+'"),
        (⟨5, 1, 6⟩, "loop never runs: tape is still zero"),
        (⟨8, 1, 9⟩, "empty loop never terminates when the current cell is nonzero")] := by
  intro source
  let p : Program := ⟨.loop ⟨0, 1, 1⟩ (.act .increment ⟨1, 1, 2⟩ (.act .decrement ⟨2, 1, 3⟩ .done))
    (.loop ⟨5, 1, 6⟩ .done (.act .input ⟨7, 1, 8⟩ (.loop ⟨8, 1, 9⟩ .done .done))), source⟩
  have hp : parse source = .ok p := rfl
  obtain ⟨-, hwarnings, -⟩ := warnings_eq_remarks hp
  refine ⟨p, hp, ?_⟩
  rw [hwarnings]
  decide

end Program
end TapeLang
