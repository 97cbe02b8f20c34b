import Mathlib.Data.Nat.Count
import Mathlib.Data.Set.Card
import TapeLang.Proofs.Layout

/-! The number of statements, counted in the text: every symbol but a closing bracket is one, so that
the layout of a text has as many. -/
namespace TapeLang

namespace Brackets
variable {α : Type} [DecidableEq α] {o c : α}

theorem count_getElem? (o : α) (xs : List α) :
    Nat.count (fun i => xs[i]? = some o) xs.length = xs.count o := by
  induction xs with
  | nil => rfl
  | cons x xs ih =>
    have hrest : Nat.count (fun i => (x :: xs)[i + 1]? = some o) xs.length = xs.count o := by
      simpa only [List.getElem?_cons_succ] using ih
    rw [List.length_cons, Nat.count_succ', hrest, List.count_cons]
    simp

/-- In a balanced sequence there are as many pairs of matching brackets as opening brackets. -/
theorem ncard_encloses (hoc : o ≠ c) {xs : List α} (h : Balanced o c xs) :
    {p : ℕ × ℕ | Encloses o c xs p.1 p.2}.ncard = xs.count o := by
  let opens := (Finset.range xs.length).filter fun i => xs[i]? = some o
  have hbij : Set.BijOn Prod.fst {p : ℕ × ℕ | Encloses o c xs p.1 p.2} ↑opens := by
    refine ⟨?_, ?_, ?_⟩
    · intro p hp
      have hopens := hp.opens
      have hlt := (List.getElem?_eq_some_iff.mp hopens).1
      simp only [opens, Finset.coe_filter, Finset.mem_range]
      exact ⟨hlt, hopens⟩
    · intro p hp q hq heq
      have hsecond : p.2 = q.2 := hp.right_unique hoc (by rw [heq]; exact hq)
      exact Prod.ext heq hsecond
    · intro i hi
      simp only [opens, Finset.coe_filter, Finset.mem_range] at hi
      obtain ⟨j, hj⟩ := exists_encloses hoc h [] hi.2
      rw [List.nil_append, List.length_nil, Nat.zero_add] at hj
      exact ⟨(i, j), hj, rfl⟩
  rw [hbij.ncard_eq, Set.ncard_coe_finset, ← Nat.count_eq_card_filter_range, count_getElem?]

end Brackets

namespace Block

theorem countFrom_eq (n : Nat) (b : Block) :
    countFrom n b = n + b.symbols.countP (· != .closing) := by
  induction b generalizing n with
  | done => rfl
  | act i p next ih =>
    rw [countFrom, ih, symbols, List.countP_cons_of_pos rfl]
    omega
  | loop p body next ihb ih =>
    rw [countFrom, ih, ihb, symbols, List.countP_cons_of_pos rfl, List.countP_append,
      List.countP_cons_of_neg (by decide)]
    omega

/-- Every symbol of a tree but a closing bracket is a statement. -/
theorem count_eq (b : Block) : b.count = b.symbols.countP (· != .closing) := by
  rw [count, countFrom_eq, Nat.zero_add]

theorem count_eq_of_bare {a b : Block} (h : a.bare = b.bare) : a.count = b.count := by
  rw [count_eq, count_eq, bare_eq_iff.mp h]

end Block

namespace Symbol

/-- Which characters begin a statement. -/
theorem startsStatement_iff (c : Char) :
    ((ofChar? c).map (· != .closing)).getD false = true ↔ c ∈ "><+-.,".toList ∨ c = '[' := by
  unfold ofChar?
  split <;> simp_all

/-- The symbols that begin a statement, counted by their characters. -/
theorem countP_filterMap_ofChar? (cs : List Char) :
    (cs.filterMap ofChar?).countP (· != .closing) =
      cs.countP (· ∈ "><+-.,".toList) + cs.count '[' := by
  let starts (c : Char) : Bool := ((ofChar? c).map (· != .closing)).getD false
  have hbracket : ¬ '[' ∈ "><+-.,".toList := by decide
  have hopen : cs.countP (fun c => starts c && c == '[') = cs.count '[' := by
    apply List.countP_congr
    intro c _
    rw [Bool.and_eq_true, beq_iff_eq, startsStatement_iff]
    exact and_iff_right_of_imp Or.inr
  have hinstr : cs.countP (fun c => starts c && !(c == '[')) =
      cs.countP (· ∈ "><+-.,".toList) := by
    apply List.countP_congr
    intro c _
    rw [Bool.and_eq_true, Bool.not_eq_true', beq_eq_false_iff_ne, startsStatement_iff,
      decide_eq_true_iff]
    constructor
    · intro h
      exact h.1.resolve_right h.2
    · intro h
      refine ⟨Or.inl h, ?_⟩
      intro hc
      exact hbracket (hc ▸ h)
  rw [List.countP_filterMap, List.countP_eq_countP_filter_add cs _ (· == '['), List.countP_filter,
    List.countP_filter, Nat.add_comm]
  exact congrArg₂ (· + ·) hinstr hopen

end Symbol

namespace Program

/-- A program has as many statements as its text has instructions and opening brackets, of which
there are as many as pairs of matching brackets. Its layout is read as a program with the same
number. -/
theorem count_eq_symbols {source : Bytes} {p : Program} (hp : parse source = .ok p) :
    p.body.count =
      (Utf8.decode source).countP (· ∈ "><+-.,".toList) + (Utf8.decode source).count '[' ∧
    {ij : ℕ × ℕ | Brackets.Encloses '[' ']' (Utf8.decode source) ij.1 ij.2}.ncard =
      (Utf8.decode source).count '[' ∧
    ∃ text q, formatSource source = .ok text ∧ parse text = .ok q ∧
      q.body.count = p.body.count := by
  obtain ⟨-, -, hspells⟩ := parse_eq_ok_iff.mp hp
  have hbalanced := (exists_parse_iff.mp ⟨p, hp⟩).2
  refine ⟨?_, Brackets.ncard_encloses (by decide) hbalanced, ?_⟩
  · rw [Block.count_eq, hspells.symbols_eq, Token.ofText, Token.symbol_ofPart,
      Symbol.countP_filterMap_ofChar?]
  · obtain ⟨q, hq, hbare⟩ := exists_parse_format p
    have hformat : formatSource source = .ok p.format := by
      rw [formatSource, hp]
      rfl
    exact ⟨p.format, q, hformat, hq, Block.count_eq_of_bare hbare⟩

/-- Five instructions and two loops, one inside the other. -/
theorem count_eq_symbols_nested :
    ∃ p q, parse (Bytes.ofString "+ [->[.]<]") = .ok p ∧ p.body.count = 7 ∧
      parse (Bytes.ofString "+\n[\n  ->\n  [\n    .\n  ]\n  <\n]\n") = .ok q ∧ q.body.count = 7 := by
  obtain ⟨p, hp⟩ : ∃ p, parse (Bytes.ofString "+ [->[.]<]") = .ok p := ⟨_, rfl⟩
  obtain ⟨hcount, -, text, q, htext, hq, hsame⟩ := count_eq_symbols hp
  have hformat : formatSource (Bytes.ofString "+ [->[.]<]") =
      .ok (Bytes.ofString "+\n[\n  ->\n  [\n    .\n  ]\n  <\n]\n") := rfl
  rw [hformat, Except.ok.injEq] at htext
  rw [← htext] at hq
  have hseven : p.body.count = 7 := by
    rw [hcount]
    decide
  exact ⟨p, q, hp, hseven, hq, hsame.trans hseven⟩

end Program
end TapeLang
