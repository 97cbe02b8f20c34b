import TapeLang.Proofs.Frames
import TapeLang.Proofs.TapeBounds
import TapeLang.Repl.Panel

/-! The panel of the tape, read back from its text: a row of indices above a row of values, for the
cells near the pointer in their order. -/
namespace TapeLang

namespace Machine
variable {σ : Type} {m : Machine σ} {radius : Int}

/-- The cells of a window, each with its index. -/
def numbered (m : Machine σ) (radius : Int) : List (Nat × UInt8) :=
  ((m.window radius).2.zipIdx (m.window radius).1).map Prod.swap

theorem length_numbered_le (m : Machine σ) (h : 0 ≤ radius) :
    ((m.numbered radius).length : Int) ≤ 2 * radius + 1 := by
  simp only [numbered, window, List.length_map, List.length_zipIdx, List.length_take,
    List.length_drop, Vector.length_toList]
  omega

theorem pairwise_numbered (m : Machine σ) (radius : Int) :
    ((m.numbered radius).map Prod.fst).Pairwise (· < ·) := by
  have hindices : (m.numbered radius).map Prod.fst =
      List.range' (m.window radius).1 (m.window radius).2.length := by
    rw [numbered, List.map_map, ← List.zipIdx_map_snd]
    rfl
  rw [hindices]
  exact List.pairwise_lt_range'

theorem mem_numbered_iff {i : Nat} {x : UInt8} :
    (i, x) ∈ m.numbered radius ↔ m.IsNear radius i ∧ m.cell? i = some x := by
  have hcell : m.cell? i = m.tape.toList[i]? := by
    rw [cell?, if_pos (Int.natCast_nonneg i), Int.toNat_natCast, Vector.getElem?_toList]
  have hswap : (i, x) ∈ m.numbered radius ↔
      (x, i) ∈ (m.window radius).2.zipIdx (m.window radius).1 := by
    rw [numbered, List.mem_map]
    constructor
    · rintro ⟨⟨y, j⟩, hmem, heq⟩
      cases heq
      exact hmem
    · intro hmem
      exact ⟨_, hmem, rfl⟩
  rw [hswap, List.mk_mem_zipIdx_iff_le_and_getElem?_sub, isNear_iff, hcell]
  simp only [window, List.getElem?_take, List.getElem?_drop]
  constructor
  · rintro ⟨hfirst, hget⟩
    split_ifs at hget with hlast
    rw [Nat.add_sub_cancel' hfirst] at hget
    exact ⟨⟨hfirst, by omega⟩, hget⟩
  · rintro ⟨⟨hfirst, hlast⟩, hget⟩
    rw [if_pos (by omega), Nat.add_sub_cancel' hfirst]
    exact ⟨hfirst, hget⟩

theorem pointer_mem_numbered (m : Machine σ) (radius : Int) :
    (m.pointer.val, m.current) ∈ m.numbered radius := by
  rw [mem_numbered_iff]
  refine ⟨⟨m.pointer.isLt, ?_⟩, ?_⟩
  · rw [Int.sub_self, abs_zero]
    exact le_max_right _ _
  · rw [cell?, if_pos (Int.natCast_nonneg _), Int.toNat_natCast]
    exact Vector.getElem?_eq_getElem m.pointer.isLt

end Machine

namespace Repl.Panel

/-- What stands between the words of a row: blanks, and the bars of the box. -/
def isGap (c : Char) : Bool := c == ' ' || c == '│'

/-- The words of a row. -/
def words (row : List Char) : List String :=
  ((row.splitOnP isGap).filter (· ≠ [])).map String.ofList

section
variable {c : Char} {row : List Char}

theorem words_append_gap (hc : isGap c = true) (front rest : List Char) :
    words (front ++ c :: rest) = words front ++ words rest := by
  unfold words
  rw [List.splitOnP_append_cons front rest hc, List.filter_append, List.map_append]

theorem words_nil : words [] = [] := rfl

theorem words_cons_gap (hc : isGap c = true) (rest : List Char) :
    words (c :: rest) = words rest := words_append_gap hc [] rest

theorem words_append_blanks (row : List Char) (n : Nat) :
    words (row ++ List.replicate n ' ') = words row := by
  induction n with
  | zero => rw [List.replicate_zero, List.append_nil]
  | succ n ih =>
    rw [List.replicate_succ', ← List.append_assoc, words_append_gap rfl, ih, words_nil,
      List.append_nil]

theorem words_blanks_append (n : Nat) (row : List Char) :
    words (List.replicate n ' ' ++ row) = words row := by
  induction n with
  | zero => rfl
  | succ n ih => rw [List.replicate_succ, List.cons_append, words_cons_gap rfl, ih]

theorem words_of_solid (hne : row ≠ []) (hrow : ∀ c ∈ row, isGap c = false) :
    words row = [String.ofList row] := by
  rw [words, List.splitOnP_eq_singleton hrow]
  simp [hne]

end

theorem words_number (n : Nat) : words (toString n).toList = [toString n] := by
  have hne : (toString n).toList ≠ [] := by
    rw [toList_toString_nat]
    exact Nat.toDigits_ne_nil
  have hsolid : ∀ c ∈ (toString n).toList, isGap c = false := by
    intro c hc
    have hdigit := isDigit_of_mem_toString hc
    rw [isGap, Bool.or_eq_false_iff, beq_eq_false_iff_ne, beq_eq_false_iff_ne]
    constructor <;> (rintro rfl; cases hdigit)
  rw [words_of_solid hne hsolid, String.ofList_toList]

/-- A number that is filled up with blanks is read back. -/
theorem words_alignRight (width n : Nat) : words (alignRight width n) = [toString n] := by
  rw [alignRight, words_blanks_append, words_number]

/-- Items with a blank between them. -/
def row (items : List (List Char)) : List Char := (items.intersperse [' ']).flatten

theorem row_cons_cons (item next : List Char) (rest : List (List Char)) :
    row (item :: next :: rest) = item ++ ' ' :: row (next :: rest) := by
  rw [row, row, List.intersperse_cons_cons, List.flatten_cons, List.flatten_cons]
  rfl

/-- The items of a row are read back one after the other. -/
theorem words_row (items : List (List Char)) : words (row items) = items.flatMap words := by
  induction items with
  | nil => rfl
  | cons item rest ih =>
    cases rest with
    | nil => simp [row]
    | cons next rest =>
      rw [row_cons_cons, words_append_gap rfl, ih]
      rfl

theorem words_numbers {α : Type} (cells : List α) (width number : α → Nat) :
    words (row (cells.map fun a => alignRight (width a) (number a))) =
      cells.map fun a => toString (number a) := by
  rw [words_row, List.flatMap_map, List.map_eq_flatMap]
  simp only [words_alignRight]

theorem feed_not_mem_row {items : List (List Char)} (h : ∀ item ∈ items, '\n' ∉ item) :
    '\n' ∉ row items := by
  induction items with
  | nil => exact List.not_mem_nil
  | cons item rest ih =>
    obtain ⟨hitem, hrest⟩ := List.forall_mem_cons.mp h
    cases rest with
    | nil => simpa [row] using hitem
    | cons next rest =>
      rw [row_cons_cons, List.mem_append, List.mem_cons, not_or, not_or]
      exact ⟨hitem, by decide, ih hrest⟩

theorem feed_not_mem_replicate {c : Char} (hc : c ≠ '\n') (n : Nat) :
    '\n' ∉ List.replicate n c := by
  intro h
  exact hc (List.eq_of_mem_replicate h).symm

theorem feed_not_mem_alignRight (width n : Nat) : '\n' ∉ alignRight width n := by
  rw [alignRight, List.mem_append, not_or]
  exact ⟨feed_not_mem_replicate (by decide) _, feed_not_mem_nat n⟩

/-- A row of a box, filled up with blanks between its bars. -/
def barred (width : Nat) (row : List Char) : List Char :=
  '│' :: ' ' :: padTo width row ++ [' ', '│']

theorem words_barred (width : Nat) (row : List Char) : words (barred width row) = words row := by
  rw [barred, List.cons_append, words_cons_gap rfl, List.cons_append, words_cons_gap rfl,
    words_append_gap rfl, words_cons_gap rfl, words_nil, List.append_nil, padTo,
    words_append_blanks]

theorem feed_not_mem_barred {width : Nat} {row : List Char} (h : '\n' ∉ row) :
    '\n' ∉ barred width row := by
  simp only [barred, padTo, List.mem_cons, List.mem_append, not_or]
  exact ⟨⟨by decide, by decide, h, feed_not_mem_replicate (by decide) _⟩, by decide⟩

/-- A box has a row for each line, between two rules. -/
theorem splitOn_boxed {lines : List (List Char)} (h : ∀ line ∈ lines, '\n' ∉ line) :
    ∃ top bottom, (boxed lines).toList.splitOn '\n' =
      top :: (lines.map (barred (widest lines)) ++ [bottom]) := by
  have hrule {left right : Char} (hleft : left ≠ '\n') (hright : right ≠ '\n') :
      '\n' ∉ left :: List.replicate (widest lines + 2) '─' ++ [right] := by
    simp only [List.mem_append, List.mem_cons, List.not_mem_nil, or_false, not_or]
    exact ⟨⟨hleft.symm, feed_not_mem_replicate (by decide) _⟩, hright.symm⟩
  refine ⟨'╭' :: List.replicate (widest lines + 2) '─' ++ ['╮'],
    '╰' :: List.replicate (widest lines + 2) '─' ++ ['╯'], ?_⟩
  rw [boxed, String.toList_ofList, square, List.map_map]
  refine List.splitOn_intercalate _ ?_ (List.cons_ne_nil _ _)
  intro shown hshown
  rcases List.mem_cons.mp hshown with rfl | hshown
  · exact hrule (by decide) (by decide)
  rcases List.mem_append.mp hshown with hinner | hbottom
  · obtain ⟨line, hline, rfl⟩ := List.mem_map.mp hinner
    exact feed_not_mem_barred (h line hline)
  · rw [List.mem_singleton.mp hbottom]
    exact hrule (by decide) (by decide)

section
variable {σ : Type}

theorem tape_eq_boxed (m : Machine σ) (radius : Int) : ∃ width : Nat × UInt8 → Nat,
    tape m radius = boxed ["Tape".toList,
      row ((m.numbered radius).map fun cell => alignRight (width cell) cell.1),
      row ((m.numbered radius).map fun cell => alignRight (width cell) cell.2.toNat)] := by
  refine ⟨fun cell => max (toString cell.1).length 3, ?_⟩
  unfold tape Machine.numbered
  rw [List.zipIdx_eq_map_add]
  simp only [List.map_map]
  rfl

/-- The panel has five rows: below its title the indices of the cells, and below them the values. -/
theorem exists_rows (m : Machine σ) (radius : Int) : ∃ top title indices values bottom,
    (tape m radius).toList.splitOn '\n' = [top, title, indices, values, bottom] ∧
    words title = ["Tape"] ∧
    words indices = (m.numbered radius).map (fun (i, _) => toString i) ∧
    words values = (m.numbered radius).map (fun (_, x) => toString x.toNat) := by
  obtain ⟨width, htape⟩ := tape_eq_boxed m radius
  have hnumbers (number : Nat × UInt8 → Nat) : '\n' ∉
      row ((m.numbered radius).map fun cell => alignRight (width cell) (number cell)) := by
    refine feed_not_mem_row ?_
    intro item hitem
    obtain ⟨cell, -, rfl⟩ := List.mem_map.mp hitem
    exact feed_not_mem_alignRight _ _
  have hlines : ∀ line ∈ ["Tape".toList,
      row ((m.numbered radius).map fun cell => alignRight (width cell) cell.1),
      row ((m.numbered radius).map fun cell => alignRight (width cell) cell.2.toNat)],
      '\n' ∉ line := by
    rw [List.forall_mem_cons, List.forall_mem_cons, List.forall_mem_singleton]
    exact ⟨by decide, hnumbers _, hnumbers _⟩
  obtain ⟨top, bottom, hrows⟩ := splitOn_boxed hlines
  rw [← htape] at hrows
  refine ⟨top, _, _, _, bottom, hrows, ?_, ?_, ?_⟩
  · rw [words_barred]
    rfl
  · rw [words_barred, words_numbers]
  · rw [words_barred, words_numbers]

end

end Repl.Panel
end TapeLang
