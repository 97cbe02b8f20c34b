import TapeLang.Proofs.Hovering

/-! Columns in characters and in UTF-16 units. The units before a column and the column for a unit
are adjoint: the search comes no further than a column exactly when enough units are before it. So a
column is found again from its units, and a unit from its column, unless it is inside a pair. -/
namespace TapeLang

namespace Utf16

/-- The code units of a character: its code, or from 0x10000 on a high and a low surrogate. -/
def encodeChar (c : Char) : List Nat :=
  if c.toNat < 0x10000 then [c.toNat]
  else [0xD800 + (c.toNat - 0x10000) / 0x400, 0xDC00 + (c.toNat - 0x10000) % 0x400]

def encode (cs : List Char) : List Nat := cs.flatMap encodeChar

/-- The second unit of a pair. -/
def IsLow (unit : Nat) : Prop := 0xDC00 ≤ unit ∧ unit < 0xE000

/-- A place in a text between the two units of a pair. -/
def InsidePair (cs : List Char) (place : Int) : Prop :=
  ∃ i unit : Nat, place = i ∧ (encode cs)[i]? = some unit ∧ IsLow unit

theorem length_encodeChar (c : Char) : (encodeChar c).length = Editor.units c := by
  unfold encodeChar Editor.units
  split_ifs <;> rfl

theorem length_encode (cs : List Char) : (encode cs).length = (cs.map Editor.units).sum := by
  rw [encode, List.length_flatMap]
  simp only [length_encodeChar]

/-- A character is no surrogate, so its first unit is never the second of a pair. -/
theorem not_isLow_of_head? {c : Char} {unit : Nat} (h : (encodeChar c).head? = some unit) :
    ¬ IsLow unit := by
  have hmax := Utf8.toNat_char_lt c
  unfold encodeChar at h
  unfold IsLow
  split_ifs at h with hbasic
  · obtain rfl : c.toNat = unit := Option.some.inj h
    rcases c.valid with hlow | hhigh
    · have hlt : c.toNat < 0xD800 := hlow
      omega
    · have hgt : 0xDFFF < c.toNat := hhigh.1
      omega
  · have heq : 0xD800 + (c.toNat - 0x10000) / 0x400 = unit := Option.some.inj h
    omega

theorem exists_isLow {c : Char} (h : Editor.units c = 2) :
    ∃ unit, (encodeChar c)[1]? = some unit ∧ IsLow unit := by
  have hplane : ¬ c.toNat < 0x10000 := by
    intro hbasic
    rw [Editor.units, if_pos hbasic] at h
    cases h
  unfold encodeChar
  rw [if_neg hplane]
  refine ⟨_, rfl, ?_⟩
  unfold IsLow
  omega

/-- Behind the units of what comes before it stand the units of a character. -/
theorem getElem?_encode_append (lead : List Char) (c : Char) (trail : List Char) {i : Nat}
    (hi : i < Editor.units c) :
    (encode (lead ++ c :: trail))[(lead.map Editor.units).sum + i]? = (encodeChar c)[i]? := by
  have hunits : encode (lead ++ c :: trail) = encode lead ++ (encodeChar c ++ encode trail) := by
    simp [encode]
  rw [hunits, ← length_encode, List.getElem?_append_right (Nat.le_add_right _ _),
    Nat.add_sub_cancel_left, List.getElem?_append_left (by rwa [length_encodeChar])]

end Utf16

namespace Editor

theorem unitsBefore_eq_length (cs : List Char) (k : Nat) :
    unitsBefore cs k = (Utf16.encode (cs.take k)).length + (k - cs.length) := by
  rw [unitsBefore_eq, Utf16.length_encode]

/-- A line cut at one of its columns. -/
theorem exists_cut {cs : List Char} {k : Nat} (hk : k < cs.length) :
    ∃ lead c trail, cs = lead ++ c :: trail ∧ lead.length = k := by
  refine ⟨cs.take k, cs[k], cs.drop (k + 1), ?_, List.length_take_of_le hk.le⟩
  rw [List.cons_getElem_drop_succ, List.take_append_drop]

/-- The place in front of a column is not inside a pair. -/
theorem not_insidePair_unitsBefore (cs : List Char) (k : Nat) :
    ¬ Utf16.InsidePair cs (unitsBefore cs k) := by
  rintro ⟨i, unit, hi, hunit, hlow⟩
  obtain rfl : unitsBefore cs k = i := Int.ofNat.inj hi
  rcases Nat.lt_or_ge k cs.length with hk | hk
  · obtain ⟨lead, c, trail, rfl, rfl⟩ := exists_cut hk
    have hfirst := Utf16.getElem?_encode_append lead c trail (units_pos c)
    rw [unitsBefore_append] at hunit
    rw [Nat.add_zero, hunit, ← List.head?_eq_getElem?] at hfirst
    exact Utf16.not_isLow_of_head? hfirst.symm hlow
  · -- Past the end of the line there are no units at all.
    have hlast : (Utf16.encode cs).length ≤ unitsBefore cs k := by
      rw [unitsBefore_eq_length, List.take_of_length_le hk]
      exact Nat.le_add_right _ _
    rw [List.getElem?_eq_none hlast] at hunit
    cases hunit

/-- The next column is one unit further, or two units with the middle of a pair between them. -/
theorem unitsBefore_succ (cs : List Char) (k : Nat) :
    unitsBefore cs (k + 1) = unitsBefore cs k + 1 ∨
      unitsBefore cs (k + 1) = unitsBefore cs k + 2 ∧
        Utf16.InsidePair cs (unitsBefore cs k + 1 : Nat) := by
  rcases Nat.lt_or_ge k cs.length with hk | hk
  · obtain ⟨lead, c, trail, rfl, rfl⟩ := exists_cut hk
    have hnext : unitsBefore (lead ++ c :: trail) (lead.length + 1) =
        (lead.map units).sum + units c := by
      have h := unitsBefore_append (lead ++ [c]) trail
      rw [List.append_assoc, List.singleton_append, List.length_append, List.length_singleton,
        List.map_append, List.sum_append] at h
      simpa using h
    rw [hnext, unitsBefore_append]
    have hone : units c = 1 ∨ units c = 2 := by
      unfold units
      split_ifs
      · exact Or.inl rfl
      · exact Or.inr rfl
    rcases hone with hone | htwo
    · exact Or.inl (by rw [hone])
    · right
      obtain ⟨unit, hunit, hlow⟩ := Utf16.exists_isLow htwo
      refine ⟨by rw [htwo], _, unit, rfl, ?_, hlow⟩
      rw [Utf16.getElem?_encode_append lead c trail (by omega), hunit]
  · left
    rw [unitsBefore_eq_length, unitsBefore_eq_length, List.take_of_length_le hk,
      List.take_of_length_le (Nat.le_succ_of_le hk)]
    omega

theorem le_unitsBefore_columnAt (cs : List Char) (character : Int) :
    character ≤ unitsBefore cs (columnAt cs character) :=
  columnAt_le_iff.mp (le_refl _)

theorem columnAt_mono (cs : List Char) {first second : Int} (h : first ≤ second) :
    columnAt cs first ≤ columnAt cs second :=
  columnAt_le_iff.mpr (h.trans (le_unitsBefore_columnAt cs second))

/-- The column for a unit has that many units before it, or one more for a unit inside a pair. -/
theorem unitsBefore_columnAt {cs : List Char} {character : Int} (h : 0 ≤ character) :
    ¬ Utf16.InsidePair cs character ∧ (unitsBefore cs (columnAt cs character) : Int) = character ∨
      Utf16.InsidePair cs character ∧
        (unitsBefore cs (columnAt cs character) : Int) = character + 1 := by
  have hge := le_unitsBefore_columnAt cs character
  have hexact (heq : (unitsBefore cs (columnAt cs character) : Int) = character) :
      ¬ Utf16.InsidePair cs character := heq ▸ not_insidePair_unitsBefore cs _
  cases hk : columnAt cs character with
  | zero =>
    rw [hk, unitsBefore_zero] at hge hexact
    rw [unitsBefore_zero]
    have heq : ((0 : Nat) : Int) = character := by omega
    exact Or.inl ⟨hexact heq, heq⟩
  | succ j =>
    -- The column before has too few units, and no column has more than two.
    have hlt : (unitsBefore cs j : Int) < character := by
      rw [← not_le, ← columnAt_le_iff, hk]
      omega
    rw [hk] at hge hexact
    rcases unitsBefore_succ cs j with hone | ⟨htwo, hinside⟩
    · have heq : (unitsBefore cs (j + 1) : Int) = character := by omega
      exact Or.inl ⟨hexact heq, heq⟩
    · rcases eq_or_lt_of_le hge with heq | hless
      · exact Or.inl ⟨hexact heq.symm, heq.symm⟩
      · have hmiddle : character = (unitsBefore cs j + 1 : Nat) := by omega
        exact Or.inr ⟨hmiddle ▸ hinside, by omega⟩

/-- A sum of units that fits into a word does not wrap around. -/
theorem unitColumn?_eq {cs : List Char} {k : Nat} (h : unitsBefore cs k < Word.bound) :
    unitColumn? cs k = some (unitsBefore cs k : Int) := by
  have hbound : Word.bound = 0x8000000000000000 := rfl
  have hcount : Word.count = 0x10000000000000000 := rfl
  unfold unitColumn?
  rw [if_neg (by omega), Int.toNat_natCast, Int.bmod_eq_of_le (by omega) (by omega)]

/-- The conversions between columns and units are adjoint. A column is found again from its units,
past the end of the line too; a place in the units is found again from its column, or the end of the
pair when it is inside one; and both conversions are monotone. -/
theorem columns_adjoint (cs : List Char) :
    (∀ k : Nat, unitsBefore cs k < Word.bound →
      ∃ u : Int, unitColumn? cs k = some u ∧
        u = ((Utf16.encode (cs.take k)).length + (k - cs.length) : Nat) ∧
        (∀ character : Int, columnAt cs character ≤ k ↔ character ≤ u) ∧
        columnAt cs u = k ∧
        ∀ j ≤ k, ∃ v ≤ u, unitColumn? cs j = some v) ∧
    (∀ character : Int, 0 ≤ character →
      unitsBefore cs (columnAt cs character) < Word.bound →
      (¬ Utf16.InsidePair cs character →
        unitColumn? cs (columnAt cs character) = some character) ∧
      (Utf16.InsidePair cs character →
        unitColumn? cs (columnAt cs character) = some (character + 1))) ∧
    ∀ first second : Int, first ≤ second → columnAt cs first ≤ columnAt cs second := by
  refine ⟨?_, ?_, fun _ _ => columnAt_mono cs⟩
  · intro k hk
    refine ⟨_, unitColumn?_eq hk, by rw [unitsBefore_eq_length], fun _ => columnAt_le_iff,
      columnAt_unitsBefore cs k, ?_⟩
    intro j hj
    have hle : unitsBefore cs j ≤ unitsBefore cs k := (strictMono_unitsBefore cs).monotone hj
    exact ⟨_, Int.ofNat_le.mpr hle, unitColumn?_eq (hle.trans_lt hk)⟩
  · intro character hnonneg hfits
    rw [unitColumn?_eq hfits]
    rcases unitsBefore_columnAt hnonneg with ⟨hout, heq⟩ | ⟨hin, heq⟩
    · exact ⟨fun _ => congrArg some heq, fun hin => absurd hin hout⟩
    · exact ⟨fun hout => absurd hin hout, fun _ => congrArg some heq⟩

/-- Between the two units of the second character, and two columns past the end of the line. -/
theorem columns_adjoint_astral :
    unitsBefore ['a', '😀', 'b'] 5 < Word.bound ∧
      columnAt ['a', '😀', 'b'] 6 = 5 ∧
      Utf16.InsidePair ['a', '😀', 'b'] 2 ∧
      unitColumn? ['a', '😀', 'b'] (columnAt ['a', '😀', 'b'] 2) = some 3 := by
  obtain ⟨hcolumn, hunit, -⟩ := columns_adjoint ['a', '😀', 'b']
  have hinside : Utf16.InsidePair ['a', '😀', 'b'] 2 :=
    ⟨2, 0xDE00, rfl, by decide, by unfold Utf16.IsLow; decide⟩
  obtain ⟨u, -, rfl, -, hback, -⟩ := hcolumn 5 (by decide)
  exact ⟨by decide, hback, hinside, (hunit 2 (by decide) (by decide)).2 hinside⟩

end Editor
end TapeLang
