import Mathlib.Data.List.Basic
import TapeLang.Source.Token

/-! The tokens of a text by the indices of its characters, and reading as what finds them. -/
namespace TapeLang

/-- The place of the character with index `i`: one more than the line feeds before it, and one
more than the characters since the last of them. -/
def Position.ofIndex (cs : List Char) (i : Nat) : Position :=
  ⟨i, 1 + (cs.take i).count '\n', 1 + ((cs.take i).reverse.takeWhile (· != '\n')).length⟩

theorem Position.advance_ofIndex (before : List Char) (c : Char) (rest : List Char) :
    (ofIndex (before ++ c :: rest) before.length).advance c =
      ofIndex (before ++ c :: rest) (before.length + 1) := by
  have h0 : (before ++ c :: rest).take before.length = before := List.take_left
  have h1 : (before ++ c :: rest).take (before.length + 1) = before ++ [c] := by
    rw [show before ++ c :: rest = (before ++ [c]) ++ rest by simp]
    exact List.take_left' (by simp)
  unfold ofIndex advance
  rw [h0, h1, List.reverse_append, List.reverse_singleton, List.singleton_append,
    List.count_append, List.takeWhile_cons]
  by_cases hc : c = '\n'
  · subst c
    simp
    omega
  · simp [hc]
    omega

namespace Symbol

theorem ofChar?_toChar (s : Symbol) : ofChar? s.toChar = some s := by
  rcases s with (_ | _ | _ | _ | _ | _) | _ | _ <;> rfl

theorem ofChar?_eq_some_iff {c : Char} {s : Symbol} : ofChar? c = some s ↔ c = s.toChar := by
  constructor
  · intro h
    unfold ofChar? at h
    split at h <;> first | (cases Option.some.inj h; rfl) | simp at h
  · rintro rfl
    exact ofChar?_toChar s

theorem opening_ne_closing : opening ≠ closing := by decide

theorem isBlank_toChar (s : Symbol) : isBlank s.toChar = false := by
  rcases s with (_ | _ | _ | _ | _ | _) | _ | _ <;> rfl

end Symbol

namespace Token

/-- A character that stands for a symbol, with its place in the whole text. -/
def ofIndexed? (cs : List Char) (x : Char × Nat) : Option Token :=
  (Symbol.ofChar? x.1).map (⟨·, .ofIndex cs x.2⟩)

/-- The symbols of a part of a text that starts at index `n`; other characters are passed
over. -/
def ofPart (cs : List Char) (n : Nat) (part : List Char) : List Token :=
  (part.zipIdx n).filterMap (ofIndexed? cs)

/-- The symbols of a text in their order. -/
def ofText (cs : List Char) : List Token := ofPart cs 0 cs

/-- Symbols and blanks are all that a text may hold. -/
def Readable (cs : List Char) : Prop := ∀ c ∈ cs, (Symbol.ofChar? c).isSome ∨ isBlank c

theorem ofPart_cons_symbol {cs part : List Char} {n : Nat} {c : Char} {s : Symbol}
    (h : Symbol.ofChar? c = some s) :
    ofPart cs n (c :: part) = ⟨s, .ofIndex cs n⟩ :: ofPart cs (n + 1) part := by
  simp [ofPart, List.zipIdx_cons, ofIndexed?, h]

theorem ofPart_cons_other {cs part : List Char} {n : Nat} {c : Char}
    (h : Symbol.ofChar? c = none) : ofPart cs n (c :: part) = ofPart cs (n + 1) part := by
  simp [ofPart, List.zipIdx_cons, ofIndexed?, h]

private theorem scanFrom_eq_ok_iff (before : List Char) (acc : List Token) {cs : List Char}
    {ts : List Token} :
    scanFrom (.ofIndex (before ++ cs) before.length) acc cs = .ok ts ↔
      Readable cs ∧
        ts = acc.reverse ++ ofPart (before ++ cs) before.length cs := by
  induction cs generalizing before acc with
  | nil =>
    rw [scanFrom, Except.ok.injEq, eq_comm]
    simp [Readable, ofPart]
  | cons c rest ih =>
    have hpos := Position.advance_ofIndex before c rest
    have hall : before ++ c :: rest = (before ++ [c]) ++ rest := by simp
    have hlen : before.length + 1 = (before ++ [c]).length := by simp
    have hread : Readable (c :: rest) ↔
        ((Symbol.ofChar? c).isSome ∨ isBlank c) ∧ Readable rest := by simp [Readable]
    rw [scanFrom, hpos, hread, hlen, hall]
    cases hs : Symbol.ofChar? c with
    | some s =>
      dsimp only
      rw [ih, ofPart_cons_symbol hs]
      simp
    | none =>
      dsimp only
      by_cases hb : isBlank c = true
      · rw [if_pos hb, ih, ofPart_cons_other hs]
        simp [hb]
      · simp [hb]

/-- Reading succeeds exactly on texts of symbols and blanks, and gives their tokens. -/
theorem scan_eq_ok_iff {cs : List Char} {ts : List Token} :
    scan cs = .ok ts ↔ Readable cs ∧ ts = ofText cs := by
  exact scanFrom_eq_ok_iff [] []

theorem readable_iff {cs : List Char} :
    Readable cs ↔ ∀ c ∈ cs, c ∈ "><+-.,[]".toList ∨ c ∈ " \t\r\n".toList := by
  have hs (c : Char) : (Symbol.ofChar? c).isSome ↔ c ∈ "><+-.,[]".toList := by
    unfold Symbol.ofChar?
    split <;> simp_all
  have hb (c : Char) : isBlank c = true ↔ c ∈ " \t\r\n".toList := by
    simp [isBlank, or_assoc]
  simp only [Readable, hs, hb]

theorem symbol_ofPart (cs part : List Char) (n : Nat) :
    (ofPart cs n part).map symbol = part.filterMap Symbol.ofChar? := by
  induction part generalizing n with
  | nil => rfl
  | cons c part ih =>
    cases hs : Symbol.ofChar? c with
    | none => rw [ofPart_cons_other hs, ih, List.filterMap_cons_none hs]
    | some s => rw [ofPart_cons_symbol hs, List.map_cons, ih, List.filterMap_cons_some hs]

/-- A part of a text is cut at each of its tokens. -/
theorem exists_of_ofPart_eq {cs part : List Char} {n : Nat} {front back : List Token} {t : Token}
    (h : ofPart cs n part = front ++ t :: back) :
    ∃ before after, part = before ++ t.symbol.toChar :: after ∧
      t.pos = .ofIndex cs (n + before.length) ∧ front = ofPart cs n before ∧
      back = ofPart cs (n + before.length + 1) after := by
  induction part generalizing n front with
  | nil => simp [ofPart] at h
  | cons c part ih =>
    have hn (before : List Char) : n + 1 + before.length = n + (c :: before).length := by
      simp only [List.length_cons]
      omega
    cases hs : Symbol.ofChar? c with
    | none =>
      rw [ofPart_cons_other hs] at h
      obtain ⟨before, after, rfl, hpos, hfront, hback⟩ := ih h
      rw [hn] at hpos hback
      exact ⟨c :: before, after, rfl, hpos, by rw [hfront, ofPart_cons_other hs], hback⟩
    | some s =>
      rw [ofPart_cons_symbol hs] at h
      cases front with
      | nil =>
        obtain ⟨rfl, rfl⟩ := List.cons.inj h
        exact ⟨[], part, by rw [Symbol.ofChar?_eq_some_iff.mp hs]; rfl, rfl, rfl, rfl⟩
      | cons f front =>
        obtain ⟨rfl, htail⟩ := List.cons.inj h
        obtain ⟨before, after, rfl, hpos, rfl, hback⟩ := ih htail
        rw [hn] at hpos hback
        exact ⟨c :: before, after, rfl, hpos, by rw [ofPart_cons_symbol hs], hback⟩

/-- What is left of a readable text without its blanks. -/
theorem chars_ofText {cs : List Char} (h : Readable cs) :
    ((ofText cs).map symbol).map Symbol.toChar = cs.filter (fun c => !isBlank c) := by
  rw [ofText, symbol_ofPart]
  induction cs with
  | nil => rfl
  | cons c cs ih =>
    have hc := h c List.mem_cons_self
    have ih := ih fun x hx => h x (List.mem_cons_of_mem c hx)
    rw [List.filterMap_cons, List.filter_cons]
    cases hs : Symbol.ofChar? c with
    | none =>
      have hb : isBlank c = true := by simpa [hs] using hc
      simp [hb, ih]
    | some s =>
      rw [Symbol.ofChar?_eq_some_iff.mp hs, Symbol.isBlank_toChar]
      simp [ih]

theorem pairwise_offset_ofText (cs : List Char) :
    (ofText cs).Pairwise fun s t => s.pos.offset < t.pos.offset := by
  have hidx : cs.zipIdx.Pairwise fun x y => x.2 < y.2 := by
    rw [← List.pairwise_map (f := Prod.snd), List.zipIdx_map_snd]
    exact List.pairwise_lt_range'
  refine hidx.filterMap (ofIndexed? cs) ?_
  intro x y hxy s hs t ht
  obtain ⟨_, -, rfl⟩ := Option.map_eq_some_iff.mp hs
  obtain ⟨_, -, rfl⟩ := Option.map_eq_some_iff.mp ht
  exact Int.ofNat_lt.mpr hxy

end Token
end TapeLang
