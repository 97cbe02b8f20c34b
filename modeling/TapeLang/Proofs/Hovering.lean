import Mathlib.Order.Bounds.Basic
import TapeLang.Editor.Hover
import TapeLang.Proofs.Diagnostics

/-! The symbol that an editor describes for a cursor. The cursor counts UTF-16 units and the line
counts characters; the column that is searched for is the least one with enough units before it, so
that a cursor in front of a symbol comes to that very symbol, also where a diagnostic put it. -/
namespace TapeLang
namespace Editor

theorem unitsBefore_zero (cs : List Char) : unitsBefore cs 0 = 0 := by
  simp [unitsBefore, unitLength]

theorem unitsBefore_nil (k : Nat) : unitsBefore [] k = k := by
  simp [unitsBefore, unitLength]

theorem unitsBefore_cons_succ (c : Char) (cs : List Char) (k : Nat) :
    unitsBefore (c :: cs) (k + 1) = units c + unitsBefore cs k := by
  have htake : unitLength ((c :: cs).take (k + 1)) = units c + unitLength (cs.take k) := rfl
  have hpast : k + 1 - (c :: cs).length = k - cs.length := by
    rw [List.length_cons]
    omega
  unfold unitsBefore
  rw [htake, hpast, Nat.add_assoc]

theorem unitsBefore_eq (cs : List Char) (k : Nat) :
    unitsBefore cs k = ((cs.take k).map units).sum + (k - cs.length) := by
  unfold unitsBefore
  rw [unitLength_eq]

theorem le_columnFrom (character : Int) (index passed : Nat) (cs : List Char) :
    index ≤ columnFrom character index passed cs := by
  induction cs generalizing index passed with
  | nil => exact Nat.le_add_right _ _
  | cons c cs ih =>
    have hnext := ih (index + 1) (passed + units c)
    unfold columnFrom
    split_ifs
    · exact le_refl _
    · omega

/-- The search stops by a column exactly when enough units are before it. -/
theorem columnFrom_le_iff (character : Int) (index passed : Nat) (cs : List Char) (k : Nat) :
    columnFrom character index passed cs ≤ index + k ↔
      character ≤ (passed + unitsBefore cs k : Nat) := by
  induction cs generalizing index passed k with
  | nil =>
    unfold columnFrom
    rw [unitsBefore_nil]
    omega
  | cons c cs ih =>
    unfold columnFrom
    split_ifs with hstop
    · exact iff_of_true (Nat.le_add_right _ _) (by omega)
    · -- The search goes on, so the first column has too few units before it.
      cases k with
      | zero =>
        have hlater := le_columnFrom character (index + 1) (passed + units c) cs
        rw [unitsBefore_zero]
        omega
      | succ k =>
        have hindex : index + (k + 1) = index + 1 + k := by omega
        rw [hindex, ih, unitsBefore_cons_succ, Nat.add_assoc]

theorem columnAt_le_iff {cs : List Char} {character : Int} {k : Nat} :
    columnAt cs character ≤ k ↔ character ≤ unitsBefore cs k := by
  have h := columnFrom_le_iff character 0 0 cs k
  rwa [Nat.zero_add, Nat.zero_add] at h

theorem isLeast_columnAt (cs : List Char) (character : Int) :
    IsLeast {k : Nat | character ≤ (unitsBefore cs k : Int)} (columnAt cs character) :=
  ⟨columnAt_le_iff.mp (le_refl _), fun _ hk => columnAt_le_iff.mpr hk⟩

theorem units_pos (c : Char) : 0 < units c := by
  unfold units
  split_ifs <;> omega

/-- Every column has units of its own, those past the end of the line included. -/
theorem strictMono_unitsBefore (cs : List Char) : StrictMono (unitsBefore cs) := by
  apply strictMono_nat_of_lt_succ
  intro k
  induction cs generalizing k with
  | nil =>
    rw [unitsBefore_nil, unitsBefore_nil]
    omega
  | cons c cs ih =>
    have hpos := units_pos c
    cases k with
    | zero =>
      rw [unitsBefore_zero, unitsBefore_cons_succ]
      omega
    | succ k =>
      have hlt := ih k
      rw [unitsBefore_cons_succ, unitsBefore_cons_succ]
      omega

/-- A cursor right in front of a column comes to that column. -/
theorem columnAt_unitsBefore (cs : List Char) (k : Nat) : columnAt cs (unitsBefore cs k) = k := by
  apply le_antisymm
  · exact columnAt_le_iff.mpr (le_refl _)
  · have hleast : (unitsBefore cs k : Int) ≤ unitsBefore cs (columnAt cs (unitsBefore cs k)) :=
      columnAt_le_iff.mp (le_refl _)
    exact (strictMono_unitsBefore cs).le_iff_le.mp (Int.ofNat_le.mp hleast)

/-- The rows by their numbers: the lines of the characters, less the carriage returns at their
ends. -/
theorem line?_eq_some_iff {source : Bytes} {line : Int} {row : List Char} :
    line? source line = some row ↔ ∃ (n : Nat) (l : List Char), line = n ∧
      ((Utf8.decode source).splitOn '\n')[n]? = some l ∧ row = l.rdropWhile (· == '\r') := by
  unfold line?
  rw [rows_eq]
  split_ifs with hneg
  · refine iff_of_false (by simp) ?_
    rintro ⟨n, l, rfl, -⟩
    omega
  · rw [List.getElem?_map, Option.map_eq_some_iff]
    constructor
    · rintro ⟨l, hl, rfl⟩
      exact ⟨line.toNat, l, by omega, hl, White.dropEnd_eq _ l⟩
    · rintro ⟨n, l, rfl, hl, rfl⟩
      exact ⟨l, hl, White.dropEnd_eq _ l⟩

/-- The symbol that stands at a column of a row, or where there is none, the one right before. -/
def IsNearest (row : List Char) (column : Nat) (s : Symbol) : Prop :=
  row[column]? = some s.toChar ∨
    (∀ t : Symbol, row[column]? ≠ some t.toChar) ∧ 0 < column ∧ row[column - 1]? = some s.toChar

theorem bind_ofChar?_eq_some_iff {c? : Option Char} {s : Symbol} :
    c?.bind Symbol.ofChar? = some s ↔ c? = some s.toChar := by
  cases c? with
  | none => simp
  | some c => rw [Option.bind_some, Symbol.ofChar?_eq_some_iff, Option.some.injEq]

theorem bind_ofChar?_eq_none_iff {c? : Option Char} :
    c?.bind Symbol.ofChar? = none ↔ ∀ t : Symbol, c? ≠ some t.toChar := by
  rw [Option.eq_none_iff_forall_ne_some]
  exact forall_congr' fun t => not_congr bind_ofChar?_eq_some_iff

theorem symbolAt?_eq_some_iff {source : Bytes} {line character : Int} {s : Symbol} :
    symbolAt? source line character = some s ↔
      ∃ row, line? source line = some row ∧ IsNearest row (columnAt row character) s := by
  unfold symbolAt?
  cases line? source line with
  | none => simp
  | some row =>
    have hbefore (c : Nat) : (if c = 0 then none else row[c - 1]?.bind Symbol.ofChar?) = some s ↔
        0 < c ∧ row[c - 1]? = some s.toChar := by
      rw [← bind_ofChar?_eq_some_iff, Nat.pos_iff_ne_zero]
      split_ifs with hc <;> simp [hc]
    dsimp only
    rw [Option.orElse_eq_some, hbefore, bind_ofChar?_eq_some_iff, bind_ofChar?_eq_none_iff]
    simp [IsNearest]

end Editor

theorem Symbol.toChar_ne_of_isBlank {s : Symbol} {c : Char} (h : isBlank c = true) :
    s.toChar ≠ c := by
  intro hs
  have hblank := s.isBlank_toChar
  rw [hs, h] at hblank
  cases hblank

namespace Spot
variable (s : Spot)

/-- A cursor in front of a symbol is answered with that symbol. -/
theorem symbolAt?_eq {source : Bytes} (htext : s.text = Utf8.decode source) {t : Symbol}
    (hchar : s.char = t.toChar) :
    Editor.symbolAt? source (s.above.count '\n' : Nat) ((s.lead.map Editor.units).sum : Nat) =
      some t := by
  have hreturn : s.char ≠ '\r' := hchar ▸ Symbol.toChar_ne_of_isBlank rfl
  have hrow := s.line?_eq htext.symm
  rw [s.line_sub_one] at hrow
  apply Editor.symbolAt?_eq_some_iff.mpr
  refine ⟨_, hrow, Or.inl ?_⟩
  have hcolumn : Editor.columnAt (White.dropEnd (· == '\r') s.line)
      ((s.lead.map Editor.units).sum : Nat) = s.lead.length := by
    rw [s.row_eq hreturn, ← Editor.unitsBefore_append, Editor.columnAt_unitsBefore]
  rw [hcolumn, s.getElem?_row hreturn, hchar]

end Spot

/-- Each statement stands at a spot with its own symbol. -/
theorem Block.Spells.exists_spot {b : Block} {cs : List Char} (h : b.Spells (Token.ofText cs))
    {t : Token} (ht : t ∈ b.statements) :
    ∃ s : Spot, s.text = cs ∧ s.position = t.pos ∧ s.char = t.symbol.toChar := by
  rw [h.statements_eq] at ht
  obtain ⟨front, back, hts⟩ := List.append_of_mem (List.mem_of_mem_filter ht)
  obtain ⟨before, after, hcs, hpos, -, -⟩ := Token.exists_of_ofPart_eq hts
  have hfeed : t.symbol.toChar ≠ '\n' := Symbol.toChar_ne_of_isBlank rfl
  refine ⟨.between before hfeed after, ?_, ?_, rfl⟩
  · rw [Spot.text_between, hcs]
  · rw [Spot.position_eq, Spot.text_between, Spot.offset_between, hpos, Nat.zero_add, ← hcs]

namespace Editor

/-- The symbol found for a cursor stands on the line with the number asked for, without the
carriage returns that end it: it is the one at the least column with at least the cursor's units
before it, or else the one before that column. Its text begins with the symbol itself. So a cursor
in front of any symbol is answered with that symbol, and one at the start of the mark of a warning
with the statement that it is about. -/
theorem hover_finds_symbol (source : Bytes) :
    (∀ (line character : Int) (s : Symbol), symbolAt? source line character = some s ↔
        ∃ (n : Nat) (l row : List Char) (c : Nat), line = n ∧
          ((Utf8.decode source).splitOn '\n')[n]? = some l ∧ row = l.rdropWhile (· == '\r') ∧
          IsLeast {k : Nat | character ≤
            ((((row.take k).map fun x => if 0xFFFF < x.toNat then 2 else 1).sum +
              (k - row.length) : Nat) : Int)} c ∧
          IsNearest row c s) ∧
    (∀ s : Symbol, "`".toList ++ [s.toChar] ++ "`\n\n".toList <+: s.hoverText.toList) ∧
    (∀ (spot : Spot) (s : Symbol), spot.text = Utf8.decode source → spot.char = s.toChar →
      symbolAt? source (spot.above.count '\n' : Nat)
        ((spot.lead.map fun x => if 0xFFFF < x.toNat then 2 else 1).sum : Nat) = some s) ∧
    ∀ p, Program.parse source = .ok p →
      List.Forall₂ (fun w d => (∃ t ∈ p.body.statements, t.pos = w.pos) ∧
        ∀ t ∈ p.body.statements, t.pos = w.pos →
          symbolAt? source d.line d.first = some t.symbol) p.warnings (diagnose source) := by
  have hunits : (fun x : Char => if 0xFFFF < x.toNat then 2 else 1) = units :=
    funext fun x => (units_eq x).symm
  rw [hunits]
  refine ⟨?_, ?_, ?_, ?_⟩
  · intro line character s
    simp only [← unitsBefore_eq]
    constructor
    · intro hs
      obtain ⟨row, hrow, hnear⟩ := symbolAt?_eq_some_iff.mp hs
      obtain ⟨n, l, hline, hl, heq⟩ := line?_eq_some_iff.mp hrow
      exact ⟨n, l, row, _, hline, hl, heq, isLeast_columnAt row character, hnear⟩
    · rintro ⟨n, l, row, c, hline, hl, heq, hleast, hnear⟩
      have hrow := line?_eq_some_iff.mpr ⟨n, l, hline, hl, heq⟩
      rw [hleast.unique (isLeast_columnAt row character)] at hnear
      exact symbolAt?_eq_some_iff.mpr ⟨row, hrow, hnear⟩
  · intro s
    have htext : s.hoverText = "`" ++ String.ofList [s.toChar] ++ "`\n\n" ++ s.summary := rfl
    rw [htext]
    simp only [String.toList_append, String.toList_ofList]
    exact List.prefix_append _ _
  · intro spot s htext hchar
    exact spot.symbolAt?_eq htext hchar
  · intro p hp
    obtain ⟨-, -, hspells⟩ := Program.parse_eq_ok_iff.mp hp
    rw [diagnose_of_ok hp, List.forall₂_map_right_iff, List.forall₂_same]
    intro w hw
    refine ⟨(Lint.mem_warnings_iff.mp hw).exists_statement, ?_⟩
    intro t ht hpos
    obtain ⟨s, htext, hs, hchar⟩ := hspells.exists_spot ht
    have hreturn : s.char ≠ '\r' := hchar ▸ Symbol.toChar_ne_of_isBlank rfl
    rw [← hpos, ← hs, mark_eq htext hreturn]
    exact s.symbolAt?_eq htext hchar

/-- Behind a character of two units, a cursor before its second unit comes to the symbol as well;
and a warning about the second of two instructions is answered with that one. -/
theorem hover_finds_symbol_astral :
    let stray : Bytes := [0xF0, 0x9F, 0x98, 0x80, 0x2B, 0x0D]
    let pair : Bytes := [0x2B, 0x0D, 0x2D]
    let p : Program := ⟨.act .increment ⟨0, 1, 1⟩ (.act .decrement ⟨2, 1, 3⟩ .done), pair⟩
    let w : Warning := ⟨⟨2, 1, 3⟩, .cancels .increment .decrement⟩
    symbolAt? stray 0 2 = some (.act .increment) ∧
      symbolAt? stray 0 1 = some (.act .increment) ∧
      "`+`".toList <+: (Symbol.act .increment).hoverText.toList ∧
      Program.parse pair = .ok p ∧ p.warnings = [w] ∧
      symbolAt? pair 0 2 = some (.act .decrement) := by
  intro stray pair p w
  have hdecode : Utf8.decode stray = ['😀', '+', '\r'] := by decide
  have hpair : Program.parse pair = .ok p := rfl
  have hwarnings : p.warnings = [w] := List.mergeSort_singleton w
  obtain ⟨hcursor, htext, hspot, -⟩ := hover_finds_symbol stray
  obtain ⟨-, -, -, hmarks⟩ := hover_finds_symbol pair
  have hprefix := (List.prefix_append "`+`".toList "\n\n".toList).trans (htext (.act .increment))
  refine ⟨?_, ?_, hprefix, hpair, hwarnings, ?_⟩
  · let spot : Spot := ⟨[], ['😀'], '+', ['\r'], [], Or.inl rfl, by decide, Or.inl rfl⟩
    exact hspot spot (.act .increment) hdecode.symm rfl
  · apply (hcursor 0 1 _).mpr
    rw [hdecode]
    refine ⟨0, ['😀', '+', '\r'], ['😀', '+'], 1, rfl, by decide, by decide, ?_, Or.inl rfl⟩
    refine ⟨by decide, ?_⟩
    intro k hk
    cases k with
    | zero => exact absurd hk (by decide)
    | succ k => exact Nat.le_add_left 1 k
  · have hall := hmarks p hpair
    rw [hwarnings, diagnose_of_ok hpair, hwarnings] at hall
    obtain ⟨-, hsecond⟩ := (List.forall₂_cons.mp hall).1
    exact hsecond ⟨.act .decrement, ⟨2, 1, 3⟩⟩ (by decide) rfl

end Editor
end TapeLang
