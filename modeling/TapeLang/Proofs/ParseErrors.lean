import TapeLang.Proofs.Parse

/-! Texts that are not programs: which of the three errors is reported, and where. A stray character
comes before any bracket, a bracket that closes too many before one that stays open, and of those
that stay open the last one is named. -/
namespace TapeLang

/-- A character that is neither a symbol nor a blank. -/
def Stray (c : Char) : Prop := c ∉ "><+-.,[]".toList ∧ c ∉ " \t\r\n".toList

/-- The stray character `c` has index `i`, and there is none before it. -/
structure FirstStray (cs : List Char) (i : Nat) (c : Char) : Prop where
  here : cs[i]? = some c
  stray : Stray c
  before : ∀ d ∈ cs.take i, ¬ Stray d

theorem FirstStray.unique {cs : List Char} {i j : Nat} {c d : Char} (hi : FirstStray cs i c)
    (hj : FirstStray cs j d) : i = j ∧ c = d := by
  have hnot {i j : Nat} {c d : Char} (hi : FirstStray cs i c) (hj : FirstStray cs j d) :
      ¬ i < j := by
    intro hlt
    have hmem : c ∈ cs.take j := by
      rw [List.mem_iff_getElem?]
      exact ⟨i, by rw [List.getElem?_take_of_lt hlt, hi.here]⟩
    exact hj.before c hmem hi.stray
  have hij : i = j := le_antisymm (not_lt.mp (hnot hj hi)) (not_lt.mp (hnot hi hj))
  refine ⟨hij, ?_⟩
  have hd := hj.here
  rw [← hij, hi.here] at hd
  exact Option.some.inj hd

theorem not_stray_iff {c : Char} : ¬ Stray c ↔ (Symbol.ofChar? c).isSome ∨ isBlank c := by
  have h := @Token.readable_iff [c]
  simp only [Token.Readable, List.mem_singleton, forall_eq] at h
  rw [h, Stray]
  tauto

theorem Token.readable_iff_not_stray {cs : List Char} : Readable cs ↔ ∀ c ∈ cs, ¬ Stray c := by
  simp only [Readable, not_stray_iff]

namespace Token

private theorem scanFrom_eq_error (before : List Char) (acc : List Token) {cs : List Char}
    {e : LexError}
    (h : scanFrom (.ofIndex (before ++ cs) before.length) acc cs = .error e) :
    ∃ front c after, cs = front ++ c :: after ∧ (∀ d ∈ front, ¬ Stray d) ∧ Stray c ∧
      e = .unexpected c (.ofIndex (before ++ cs) (before.length + front.length)) := by
  induction cs generalizing before acc with
  | nil => cases h
  | cons c rest ih =>
    have hpos := Position.advance_ofIndex before c rest
    have hall : before ++ c :: rest = (before ++ [c]) ++ rest := by simp
    have hlen : before.length + 1 = (before ++ [c]).length := by simp
    -- A character that is passed over goes to the front.
    have hpass {acc : List Token} (hc : ¬ Stray c)
        (h : scanFrom (.ofIndex (before ++ c :: rest) (before.length + 1)) acc rest = .error e) :
        ∃ front d after, c :: rest = front ++ d :: after ∧ (∀ d ∈ front, ¬ Stray d) ∧ Stray d ∧
          e = .unexpected d (.ofIndex (before ++ c :: rest) (before.length + front.length)) := by
      rw [hall, hlen] at h
      obtain ⟨front, d, after, rfl, hfront, hd, rfl⟩ := ih _ _ h
      refine ⟨c :: front, d, after, rfl, ?_, hd, ?_⟩
      · intro x hx
        rcases List.mem_cons.mp hx with rfl | hx
        · exact hc
        · exact hfront x hx
      · rw [hall, ← hlen, List.length_cons, Nat.add_assoc, Nat.add_comm 1]
    rw [scanFrom, hpos] at h
    cases hs : Symbol.ofChar? c with
    | some s =>
      rw [hs] at h
      exact hpass (not_stray_iff.mpr (Or.inl (by rw [hs]; rfl))) h
    | none =>
      rw [hs] at h
      dsimp only at h
      by_cases hb : isBlank c = true
      · rw [if_pos hb] at h
        exact hpass (not_stray_iff.mpr (Or.inr hb)) h
      · rw [if_neg hb] at h
        refine ⟨[], c, rest, rfl, by simp, ?_, (Except.error.inj h).symm⟩
        rw [← not_not (a := Stray c), not_stray_iff, hs]
        simpa using hb

/-- Reading fails at the first stray character. -/
theorem exists_of_scan_eq_error {cs : List Char} {e : LexError} (h : scan cs = .error e) :
    ∃ i c, FirstStray cs i c ∧ e = .unexpected c (.ofIndex cs i) := by
  obtain ⟨front, c, after, rfl, hfront, hc, rfl⟩ := scanFrom_eq_error [] [] h
  refine ⟨front.length, c, ⟨by simp, hc, ?_⟩, by simp⟩
  rw [List.take_left' rfl]
  exact hfront

/-- The tokens of a text, cut at one of its symbols. -/
theorem ofText_eq_append {cs front back : List Char} {s : Symbol}
    (h : cs = front ++ s.toChar :: back) :
    ofText cs = ofPart cs 0 front ++
      ⟨s, .ofIndex cs front.length⟩ :: ofPart cs (front.length + 1) back := by
  have hparts : ofPart cs 0 (front ++ s.toChar :: back) =
      ofPart cs 0 front ++ ofPart cs (0 + front.length) (s.toChar :: back) := by
    rw [ofPart, List.zipIdx_append, List.filterMap_append]
    rfl
  rw [← h, ofPart_cons_symbol (Symbol.ofChar?_toChar s), Nat.zero_add] at hparts
  exact hparts

end Token

namespace Block
open Brackets

/-- What the reader leaves behind when it fails: a closing bracket after all scopes were closed, an
opening bracket with nothing but balanced tokens behind it, or one of the scopes that were open
before, after all those inside it were closed. -/
private theorem parseFrom_eq_error {current : List Statement} {scopes : List Scope}
    {ts : List Token} {e : ParseError} (h : parseFrom current scopes ts = .error e) :
    (∃ before p after, ts = before ++ ⟨.closing, p⟩ :: after ∧
      ClosesAll scopes.length Symbol.opening Symbol.closing (before.map Token.symbol) ∧
      e = .unexpectedClosing p) ∨
    (∃ before p after, ts = before ++ ⟨.opening, p⟩ :: after ∧
      Balanced Symbol.opening Symbol.closing (after.map Token.symbol) ∧
      e = .unclosedOpening p) ∨
    ∃ k s, scopes[k]? = some s ∧
      ClosesAll k Symbol.opening Symbol.closing (ts.map Token.symbol) ∧
      e = .unclosedOpening s.opened := by
  have hoc := Symbol.opening_ne_closing
  induction ts generalizing current scopes with
  | nil =>
    cases scopes with
    | nil => cases h
    | cons s scopes =>
      exact Or.inr (Or.inr ⟨0, s, rfl, closesAll_nil.mpr rfl, (Except.error.inj h).symm⟩)
  | cons t ts ih =>
    obtain ⟨_ | _ | _, p⟩ := t
    case act i =>
      rcases ih h with ⟨before, q, after, rfl, hb, he⟩ | ⟨before, q, after, rfl, ha, he⟩ |
        ⟨k, s, hs, hk, he⟩
      · refine Or.inl ⟨⟨.act i, p⟩ :: before, q, after, rfl, ?_, he⟩
        exact (closesAll_cons_other (by simp) (by simp)).mpr hb
      · exact Or.inr (Or.inl ⟨⟨.act i, p⟩ :: before, q, after, rfl, ha, he⟩)
      · refine Or.inr (Or.inr ⟨k, s, hs, ?_, he⟩)
        exact (closesAll_cons_other (by simp) (by simp)).mpr hk
    case opening =>
      rcases ih h with ⟨before, q, after, rfl, hb, he⟩ | ⟨before, q, after, rfl, ha, he⟩ |
        ⟨k, s, hs, hk, he⟩
      · refine Or.inl ⟨⟨.opening, p⟩ :: before, q, after, rfl, ?_, he⟩
        exact (closesAll_cons_opening hoc).mpr hb
      · exact Or.inr (Or.inl ⟨⟨.opening, p⟩ :: before, q, after, rfl, ha, he⟩)
      · cases k with
        | zero =>
          -- The scope that was opened here is the innermost one left.
          cases hs
          exact Or.inr (Or.inl ⟨[], p, ts, rfl, hk, he⟩)
        | succ k =>
          exact Or.inr (Or.inr ⟨k, s, hs, (closesAll_cons_opening hoc).mpr hk, he⟩)
    case closing =>
      cases scopes with
      | nil => exact Or.inl ⟨[], p, ts, rfl, closesAll_nil.mpr rfl, (Except.error.inj h).symm⟩
      | cons s₀ scopes =>
        rcases ih h with ⟨before, q, after, rfl, hb, he⟩ | ⟨before, q, after, rfl, ha, he⟩ |
          ⟨k, s, hs, hk, he⟩
        · refine Or.inl ⟨⟨.closing, p⟩ :: before, q, after, rfl, ?_, he⟩
          exact (closesAll_cons_closing hoc).mpr hb
        · exact Or.inr (Or.inl ⟨⟨.closing, p⟩ :: before, q, after, rfl, ha, he⟩)
        · exact Or.inr (Or.inr ⟨k + 1, s, hs, (closesAll_cons_closing hoc).mpr hk, he⟩)

private theorem parseFrom_overclosing {before : List Token} {current : List Statement}
    {scopes : List Scope}
    (h : ClosesAll scopes.length Symbol.opening Symbol.closing (before.map Token.symbol))
    (p : Position) (after : List Token) :
    parseFrom current scopes (before ++ ⟨.closing, p⟩ :: after) =
      .error (.unexpectedClosing p) := by
  have hoc := Symbol.opening_ne_closing
  induction before generalizing current scopes with
  | nil =>
    rw [List.map_nil, closesAll_nil, List.length_eq_zero_iff] at h
    rw [h]
    rfl
  | cons t before ih =>
    rw [List.map_cons] at h
    obtain ⟨_ | _ | _, q⟩ := t
    case act i => exact ih ((closesAll_cons_other (by simp) (by simp)).mp h)
    case opening => exact ih ((closesAll_cons_opening hoc).mp h)
    case closing =>
      cases scopes with
      | nil => exact absurd h (not_closesAll_zero_closing hoc)
      | cons s scopes => exact ih ((closesAll_cons_closing hoc).mp h)

theorem ofTokens_overclosing {before : List Token}
    (h : Balanced Symbol.opening Symbol.closing (before.map Token.symbol)) (p : Position)
    (after : List Token) :
    ofTokens (before ++ ⟨.closing, p⟩ :: after) = .error (.unexpectedClosing p) := by
  have hnone : ([] : List Scope).length = 0 := rfl
  exact parseFrom_overclosing (hnone ▸ h) p after

/-- The reader fails at a closing bracket behind balanced tokens, or at an opening bracket before
balanced tokens. -/
theorem exists_of_ofTokens_eq_error {ts : List Token} {e : ParseError}
    (h : ofTokens ts = .error e) :
    (∃ before p after, ts = before ++ ⟨.closing, p⟩ :: after ∧
      Balanced Symbol.opening Symbol.closing (before.map Token.symbol) ∧
      e = .unexpectedClosing p) ∨
    ∃ before p after, ts = before ++ ⟨.opening, p⟩ :: after ∧
      Balanced Symbol.opening Symbol.closing (after.map Token.symbol) ∧
      e = .unclosedOpening p := by
  rcases parseFrom_eq_error h with h | h | ⟨k, s, hs, -⟩
  · exact Or.inl h
  · exact Or.inr h
  · simp at hs

end Block

namespace ParseError
open Brackets
variable {cs : List Char} {e e' : ParseError}

/-- The text has a stray character, and the error is about the first. -/
def OfStray (cs : List Char) (e : ParseError) : Prop :=
  ∃ i c, FirstStray cs i c ∧ e = ⟨.lexical, .ofIndex cs i,
    some ⟨"unexpected character " ++ Quoted.quoteChar c, .ofIndex cs i⟩⟩

/-- No character is stray, some prefix closes more than it opens, and the error is about the first
bracket that makes it so. -/
def OfClosing (cs : List Char) (e : ParseError) : Prop :=
  (∀ c ∈ cs, ¬ Stray c) ∧ (∃ ys, ys <+: cs ∧ ys.count '[' < ys.count ']') ∧
    ∃ i, ClosesTooMany '[' ']' cs i ∧ e = ⟨.unexpectedClosing, .ofIndex cs i, none⟩

/-- No character is stray, no prefix closes more than it opens, and the error is about the last
opening bracket that nothing closes. -/
def OfOpening (cs : List Char) (e : ParseError) : Prop :=
  (∀ c ∈ cs, ¬ Stray c) ∧ (∀ ys, ys <+: cs → ys.count ']' ≤ ys.count '[') ∧
    ∃ i, LastUnclosed '[' ']' cs i ∧ e = ⟨.unclosedOpening, .ofIndex cs i, none⟩

/-- The error names what is wrong with the text, and the place of it. -/
def Located (cs : List Char) (e : ParseError) : Prop :=
  OfStray cs e ∨ OfClosing cs e ∨ OfOpening cs e

theorem OfStray.not_readable (h : OfStray cs e) : ¬ ∀ c ∈ cs, ¬ Stray c := by
  obtain ⟨i, c, hi, -⟩ := h
  intro hall
  exact hall c (List.mem_of_getElem? hi.here) hi.stray

theorem OfClosing.not_ofOpening (h : OfClosing cs e) : ¬ OfOpening cs e' := by
  rintro ⟨-, hall, -⟩
  obtain ⟨-, ⟨ys, hy, hlt⟩, -⟩ := h
  have hle := hall ys hy
  omega

/-- A text has one error at most. -/
theorem Located.unique (h : Located cs e) (h' : Located cs e') : e = e' := by
  rcases h with h | h | h <;> rcases h' with h' | h' | h'
  · obtain ⟨i, c, hi, rfl⟩ := h
    obtain ⟨j, d, hj, rfl⟩ := h'
    obtain ⟨rfl, rfl⟩ := hi.unique hj
    rfl
  · exact absurd h'.1 h.not_readable
  · exact absurd h'.1 h.not_readable
  · exact absurd h.1 h'.not_readable
  · obtain ⟨-, -, i, hi, rfl⟩ := h
    obtain ⟨-, -, j, hj, rfl⟩ := h'
    rw [hi.unique hj]
  · exact absurd h' h.not_ofOpening
  · exact absurd h.1 h'.not_readable
  · exact absurd h h'.not_ofOpening
  · obtain ⟨-, -, i, hi, rfl⟩ := h
    obtain ⟨-, -, j, hj, rfl⟩ := h'
    rw [hi.unique hj]

end ParseError

namespace Program
open Brackets ParseError

private theorem brackets_ne : '[' ≠ ']' := by decide

/-- Each error that is reported is about the place that its kind stands for. -/
theorem located_of_parse_eq_error {source : Bytes} {e : ParseError}
    (h : parse source = .error e) : Located (Utf8.decode source) e := by
  unfold parse at h
  generalize Utf8.decode source = cs at h ⊢
  cases hscan : Token.scan cs with
  | error l =>
    rw [hscan] at h
    obtain ⟨i, c, hi, rfl⟩ := Token.exists_of_scan_eq_error hscan
    obtain rfl := Except.error.inj h
    exact Or.inl ⟨i, c, hi, rfl⟩
  | ok ts =>
    rw [hscan] at h
    obtain ⟨hread, rfl⟩ := Token.scan_eq_ok_iff.mp hscan
    rw [Token.readable_iff_not_stray] at hread
    have htokens : Block.ofTokens (Token.ofText cs) = .error e := by
      cases hx : Block.ofTokens (Token.ofText cs) with
      | ok b => simp [hx, Except.map] at h
      | error x => simpa [hx, Except.map] using h
    right
    rcases Block.exists_of_ofTokens_eq_error htokens with
      ⟨before, p, after, hts, hbal, rfl⟩ | ⟨before, p, after, hts, hbal, rfl⟩
    · obtain ⟨u, v, rfl, hpos, rfl, -⟩ := Token.exists_of_ofPart_eq hts
      rw [Token.balanced_ofPart] at hbal
      rw [Nat.zero_add] at hpos
      have hmany := closesTooMany_append brackets_ne hbal v
      refine Or.inl ⟨hread, ⟨_, List.take_prefix _ _, hmany.exceeds⟩, _, hmany, ?_⟩
      rw [ParseError.unexpectedClosing, ← hpos]
    · obtain ⟨u, v, hu, hpos, -, rfl⟩ := Token.exists_of_ofPart_eq hts
      rw [Token.balanced_ofPart] at hbal
      rw [Nat.zero_add] at hpos
      have hlast := lastUnclosed_append brackets_ne hbal u
      refine Or.inr ⟨hread, ?_, u.length, hu ▸ hlast, by rw [ParseError.unclosedOpening, ← hpos]⟩
      intro ys hy
      by_contra hlt
      -- A bracket that closes too many would have been reported instead.
      obtain ⟨front, back, hcs, hfront⟩ :=
        exists_closing_of_exceeds brackets_ne hy (show 0 + ys.count '[' < ys.count ']' by omega)
      have hsplit := Token.ofText_eq_append (s := .closing) hcs
      rw [hsplit, Block.ofTokens_overclosing ((Token.balanced_ofPart _ _ _).mpr hfront)] at htokens
      cases htokens

theorem parse_ne_ok_of_located {source : Bytes} {e : ParseError}
    (h : Located (Utf8.decode source) e) (p : Program) : parse source ≠ .ok p := by
  intro hp
  obtain ⟨hread, hbal⟩ := exists_parse_iff.mp ⟨p, hp⟩
  rcases h with h | ⟨-, ⟨ys, hy, hlt⟩, -⟩ | ⟨-, -, i, hi, -⟩
  · exact h.not_readable (Token.readable_iff_not_stray.mp hread)
  · have hle := hbal.prefixes ys hy
    omega
  · obtain ⟨j, hj⟩ := exists_encloses brackets_ne hbal [] hi.opens
    rw [List.nil_append, List.length_nil, Nat.zero_add] at hj
    exact hi.unclosed j hj

/-- A text is rejected exactly with the error about its first stray character; or, if it has none,
about the first bracket that closes too many; or, if there is none either, about the last bracket
that nothing closes. No two of these are ever the case. -/
theorem parse_error_spec (source : Bytes) :
    (∀ e, parse source = .error e ↔ OfStray (Utf8.decode source) e ∨
      OfClosing (Utf8.decode source) e ∨ OfOpening (Utf8.decode source) e) ∧
    ∀ e e', ¬ (OfStray (Utf8.decode source) e ∧ OfClosing (Utf8.decode source) e') ∧
      ¬ (OfStray (Utf8.decode source) e ∧ OfOpening (Utf8.decode source) e') ∧
      ¬ (OfClosing (Utf8.decode source) e ∧ OfOpening (Utf8.decode source) e') := by
  refine ⟨fun e => ⟨located_of_parse_eq_error, ?_⟩, ?_⟩
  · intro h
    cases hp : parse source with
    | ok p => exact absurd hp (parse_ne_ok_of_located h p)
    | error e' => rw [(located_of_parse_eq_error hp).unique h]
  · intro e e'
    refine ⟨?_, ?_, ?_⟩
    · rintro ⟨h, h'⟩
      exact h.not_readable h'.1
    · rintro ⟨h, h'⟩
      exact h.not_readable h'.1
    · rintro ⟨h, h'⟩
      exact h.not_ofOpening h'

-- A stray character comes before the bracket that stands in front of it.
example : parse [0x5D, 0x0A, 0x5B, 0x78] =
    .error ⟨.lexical, ⟨3, 2, 2⟩, some ⟨"unexpected character 'x'", ⟨3, 2, 2⟩⟩⟩ := rfl

-- Of two brackets that stay open, the inner one is named.
example : parse [0x5B, 0x5B, 0x5B, 0x5D] = .error ⟨.unclosedOpening, ⟨1, 1, 2⟩, none⟩ := rfl

end Program
end TapeLang
