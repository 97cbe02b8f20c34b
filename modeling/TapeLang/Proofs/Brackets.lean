import Mathlib.Data.List.Infix
import Mathlib.Data.List.Count

/-! Bracket sequences: when they are balanced, and which bracket closes which. -/
namespace TapeLang.Brackets
variable {α : Type} [DecidableEq α] {o c : α} {xs : List α} {depth i j : Nat}

/-- With `depth` brackets open, no prefix closes more than are open and the whole closes all. -/
structure ClosesAll (depth : Nat) (o c : α) (xs : List α) : Prop where
  prefixes : ∀ ys, ys <+: xs → ys.count c ≤ depth + ys.count o
  total : xs.count c = depth + xs.count o

/-- No prefix has more closing than opening brackets, and the whole has as many. -/
abbrev Balanced (o c : α) (xs : List α) : Prop := ClosesAll 0 o c xs

instance : Decidable (ClosesAll depth o c xs) :=
  decidable_of_iff ((∀ ys ∈ xs.inits, ys.count c ≤ depth + ys.count o) ∧
      xs.count c = depth + xs.count o)
    ⟨fun h => ⟨fun ys hy => h.1 ys ((List.mem_inits ys xs).mpr hy), h.2⟩,
      fun h => ⟨fun ys hy => h.prefixes ys ((List.mem_inits ys xs).mp hy), h.total⟩⟩

/-- The bracket with index `i` is closed by the one with index `j`. -/
structure Encloses (o c : α) (xs : List α) (i j : Nat) : Prop where
  lt : i < j
  opens : xs[i]? = some o
  closes : xs[j]? = some c
  between : Balanced o c ((xs.take j).drop (i + 1))

instance : Decidable (Encloses o c xs i j) :=
  decidable_of_iff (i < j ∧ xs[i]? = some o ∧ xs[j]? = some c ∧
      Balanced o c ((xs.take j).drop (i + 1)))
    ⟨fun h => ⟨h.1, h.2.1, h.2.2.1, h.2.2.2⟩, fun h => ⟨h.lt, h.opens, h.closes, h.between⟩⟩

theorem closesAll_nil : ClosesAll depth o c [] ↔ depth = 0 := by
  constructor
  · intro h
    simpa using h.total.symm
  · rintro rfl
    exact ⟨fun ys hy => by simp [List.prefix_nil.mp hy], by simp⟩

/-- A symbol in front matters only by the bracket it is. -/
theorem closesAll_cons_iff {d : Nat} {x : α}
    (hx : ∀ ys : List α, (x :: ys).count c ≤ depth + (x :: ys).count o ↔
      ys.count c ≤ d + ys.count o)
    (ht : ∀ ys : List α, (x :: ys).count c = depth + (x :: ys).count o ↔
      ys.count c = d + ys.count o) :
    ClosesAll depth o c (x :: xs) ↔ ClosesAll d o c xs := by
  constructor
  · intro h
    refine ⟨fun ys hy => ?_, (ht xs).mp h.total⟩
    exact (hx ys).mp (h.prefixes _ ((List.prefix_cons_inj x).mpr hy))
  · intro h
    refine ⟨fun ys hy => ?_, (ht xs).mpr h.total⟩
    rcases List.prefix_cons_iff.mp hy with rfl | ⟨zs, rfl, hz⟩
    · simp
    · exact (hx zs).mpr (h.prefixes zs hz)

theorem closesAll_cons_other {x : α} (ho : x ≠ o) (hc : x ≠ c) :
    ClosesAll depth o c (x :: xs) ↔ ClosesAll depth o c xs :=
  closesAll_cons_iff (fun ys => by simp [ho, hc]) (fun ys => by simp [ho, hc])

theorem closesAll_cons_opening (hoc : o ≠ c) :
    ClosesAll depth o c (o :: xs) ↔ ClosesAll (depth + 1) o c xs :=
  closesAll_cons_iff (fun ys => by simp [hoc]; omega) (fun ys => by simp [hoc]; omega)

theorem closesAll_cons_closing (hoc : o ≠ c) :
    ClosesAll (depth + 1) o c (c :: xs) ↔ ClosesAll depth o c xs :=
  closesAll_cons_iff (fun ys => by simp [hoc.symm]; omega) (fun ys => by simp [hoc.symm]; omega)

theorem not_closesAll_zero_closing (hoc : o ≠ c) : ¬ ClosesAll 0 o c (c :: xs) := by
  intro h
  have hp := h.prefixes [c] (List.prefix_append [c] xs)
  simp [hoc.symm] at hp

theorem count_filterMap_eq {β : Type} [DecidableEq β] {f : β → Option α} {a : α} {b : β}
    (h : ∀ x, f x = some a ↔ x = b) (xs : List β) : (xs.filterMap f).count a = xs.count b := by
  rw [List.count_filterMap, List.count]
  apply List.countP_congr
  intro x _
  simp [h]

/-- Brackets may be read off one by one, other things being passed over. -/
theorem closesAll_filterMap {β : Type} [DecidableEq β] {f : β → Option α} {o' c' : β}
    {xs : List β} (ho : ∀ x, f x = some o ↔ x = o') (hc : ∀ x, f x = some c ↔ x = c') :
    ClosesAll depth o c (xs.filterMap f) ↔ ClosesAll depth o' c' xs := by
  constructor
  · intro h
    refine ⟨fun ys hy => ?_, ?_⟩
    · have hp := h.prefixes (ys.filterMap f) (hy.filterMap f)
      rwa [count_filterMap_eq ho, count_filterMap_eq hc] at hp
    · have ht := h.total
      rwa [count_filterMap_eq ho, count_filterMap_eq hc] at ht
  · intro h
    refine ⟨fun zs hz => ?_, ?_⟩
    · obtain ⟨ys, hy, rfl⟩ := List.prefix_filterMap_iff.mp hz
      rw [count_filterMap_eq ho, count_filterMap_eq hc]
      exact h.prefixes ys hy
    · rw [count_filterMap_eq ho, count_filterMap_eq hc]
      exact h.total

theorem encloses_append {inside : List α} (h : Balanced o c inside) (before after : List α) :
    Encloses o c (before ++ o :: (inside ++ c :: after)) before.length
      (before.length + 1 + inside.length) := by
  have htake : (before ++ o :: (inside ++ c :: after)).take (before.length + 1 + inside.length) =
      before ++ o :: inside := by
    rw [show before ++ o :: (inside ++ c :: after) = (before ++ o :: inside) ++ c :: after by simp]
    exact List.take_left' (by simp; omega)
  refine ⟨by omega, by simp, ?_, ?_⟩
  · rw [show before ++ o :: (inside ++ c :: after) = (before ++ o :: inside) ++ c :: after by simp,
      List.getElem?_append_right (by simp; omega)]
    simp [show before.length + 1 + inside.length - (before.length + (inside.length + 1)) = 0
      by omega]
  · rw [htake, show before ++ o :: inside = (before ++ [o]) ++ inside by simp,
      List.drop_left' (by simp)]
    exact h

omit [DecidableEq α] in
/-- What stands between two indices, cut at a third between them. -/
private theorem take_drop_split {k : Nat} {x : α} (hij : i < j) (hjk : j < k)
    (hx : xs[j]? = some x) :
    (xs.take k).drop (i + 1) =
      (xs.take j).drop (i + 1) ++ x :: (xs.take k).drop (j + 1) := by
  obtain ⟨hj, rfl⟩ := List.getElem?_eq_some_iff.mp hx
  have hsplit : xs.take k = xs.take j ++ xs[j] :: (xs.take k).drop (j + 1) := by
    have hj' : j < (xs.take k).length := by rw [List.length_take]; omega
    have htake : (xs.take k).take j = xs.take j := by rw [List.take_take, min_eq_left hjk.le]
    have hget : (xs.take k)[j] = xs[j] := List.getElem_take
    rw [← hget, ← List.drop_eq_getElem_cons hj', ← htake, List.take_append_drop]
  conv_lhs => rw [hsplit]
  rw [List.drop_append_of_le_length]
  rw [List.length_take]
  omega

private theorem not_lt_of_encloses_right {k : Nat} (hoc : o ≠ c) (hj : Encloses o c xs i j)
    (hk : Encloses o c xs i k) : ¬ j < k := by
  intro hjk
  have hb := hk.between
  rw [take_drop_split hj.lt hjk hj.closes] at hb
  -- The shorter part is balanced, so the bracket behind it closes one too many.
  have hp := hb.prefixes ((xs.take j).drop (i + 1) ++ [c])
    ⟨(xs.take k).drop (j + 1), by simp⟩
  have ht := hj.between.total
  simp only [List.count_append, List.count_singleton_self, Nat.zero_add] at hp ht
  rw [List.count_singleton, if_neg (by simpa using hoc.symm)] at hp
  omega

private theorem not_lt_of_encloses_left {k : Nat} (hoc : o ≠ c) (hi : Encloses o c xs i k)
    (hj : Encloses o c xs j k) : ¬ i < j := by
  intro hij
  have hb := hi.between
  rw [take_drop_split hij hj.lt hj.opens] at hb
  -- The later part is balanced, so the bracket before it stays open.
  have hp := hb.prefixes ((xs.take j).drop (i + 1)) (List.prefix_append _ _)
  have ht := hb.total
  have hr := hj.between.total
  simp only [List.count_append, List.count_cons_self, Nat.zero_add] at hp ht hr
  rw [List.count_cons_of_ne hoc] at ht
  omega

theorem Encloses.right_unique {k : Nat} (hoc : o ≠ c) (hj : Encloses o c xs i j)
    (hk : Encloses o c xs i k) : j = k :=
  le_antisymm (not_lt.mp (not_lt_of_encloses_right hoc hk hj))
    (not_lt.mp (not_lt_of_encloses_right hoc hj hk))

theorem Encloses.left_unique {k : Nat} (hoc : o ≠ c) (hi : Encloses o c xs i k)
    (hj : Encloses o c xs j k) : i = j :=
  le_antisymm (not_lt.mp (not_lt_of_encloses_left hoc hj hi))
    (not_lt.mp (not_lt_of_encloses_left hoc hi hj))

/-- The bracket with index `i` closes more than is open, and it is the first to do so. -/
structure ClosesTooMany (o c : α) (xs : List α) (i : Nat) : Prop where
  closes : xs[i]? = some c
  exceeds : (xs.take (i + 1)).count o < (xs.take (i + 1)).count c
  before : ∀ ys, ys <+: xs.take i → ys.count c ≤ ys.count o

/-- The bracket with index `i` is the last one that nothing closes. -/
structure LastUnclosed (o c : α) (xs : List α) (i : Nat) : Prop where
  opens : xs[i]? = some o
  unclosed : ∀ j, ¬ Encloses o c xs i j
  later : ∀ k, i < k → xs[k]? = some o → ∃ j, Encloses o c xs k j

/-- Where too many are closed, there is a first bracket that does it. -/
theorem exists_closing_of_exceeds (hoc : o ≠ c) {ys : List α} (hy : ys <+: xs)
    (hlt : depth + ys.count o < ys.count c) :
    ∃ before after, xs = before ++ c :: after ∧ ClosesAll depth o c before := by
  induction xs generalizing depth ys with
  | nil => simp [List.prefix_nil.mp hy] at hlt
  | cons x xs ih =>
    rcases List.prefix_cons_iff.mp hy with rfl | ⟨zs, rfl, hz⟩
    · simp at hlt
    by_cases hc : x = c
    · subst hc
      rw [List.count_cons_self, List.count_cons_of_ne hoc.symm] at hlt
      cases depth with
      | zero => exact ⟨[], xs, rfl, closesAll_nil.mpr rfl⟩
      | succ d =>
        obtain ⟨before, after, rfl, hb⟩ := ih hz (show d + zs.count o < zs.count x by omega)
        exact ⟨x :: before, after, rfl, (closesAll_cons_closing hoc).mpr hb⟩
    by_cases ho : x = o
    · subst ho
      rw [List.count_cons_self, List.count_cons_of_ne hc] at hlt
      obtain ⟨before, after, rfl, hb⟩ := ih hz (show depth + 1 + zs.count x < zs.count c by omega)
      exact ⟨x :: before, after, rfl, (closesAll_cons_opening hoc).mpr hb⟩
    · rw [List.count_cons_of_ne hc, List.count_cons_of_ne ho] at hlt
      obtain ⟨before, after, rfl, hb⟩ := ih hz hlt
      exact ⟨x :: before, after, rfl, (closesAll_cons_other ho hc).mpr hb⟩

theorem closesTooMany_append (hoc : o ≠ c) {before : List α} (h : Balanced o c before)
    (after : List α) : ClosesTooMany o c (before ++ c :: after) before.length := by
  refine ⟨by simp, ?_, ?_⟩
  · have htake : (before ++ c :: after).take (before.length + 1) = before ++ [c] := by
      rw [show before ++ c :: after = (before ++ [c]) ++ after by simp]
      exact List.take_left' (by simp)
    have ht := h.total
    rw [htake, List.count_append, List.count_append, List.count_singleton_self,
      List.count_singleton, if_neg (by simpa using hoc.symm)]
    omega
  · intro ys hy
    rw [List.take_left' rfl] at hy
    simpa using h.prefixes ys hy

theorem ClosesTooMany.unique (hi : ClosesTooMany o c xs i) (hj : ClosesTooMany o c xs j) :
    i = j := by
  have hnot {i j : Nat} (hi : ClosesTooMany o c xs i) (hj : ClosesTooMany o c xs j) : ¬ i < j := by
    intro hlt
    have hle : (xs.take (i + 1)).count c ≤ (xs.take (i + 1)).count o :=
      hj.before _ (List.take_prefix_take_left hlt)
    have hexceeds := hi.exceeds
    omega
  exact le_antisymm (not_lt.mp (hnot hj hi)) (not_lt.mp (hnot hi hj))

/-- In a sequence that closes all, every opening bracket has its own closing one. -/
theorem exists_closing_of_closesAll (hoc : o ≠ c) {before after : List α}
    (h : ClosesAll depth o c (before ++ o :: after)) :
    ∃ inside rest, after = inside ++ c :: rest ∧ Balanced o c inside := by
  have hp := h.prefixes before (List.prefix_append _ _)
  have ht := h.total
  rw [List.count_append, List.count_append, List.count_cons_self,
    List.count_cons_of_ne hoc] at ht
  exact exists_closing_of_exceeds hoc (List.prefix_refl after) (by omega)

theorem exists_encloses (hoc : o ≠ c) (h : ClosesAll depth o c xs) (before : List α)
    (hi : xs[i]? = some o) : ∃ j, Encloses o c (before ++ xs) (before.length + i) j := by
  obtain ⟨hlt, hget⟩ := List.getElem?_eq_some_iff.mp hi
  have hsplit : xs = xs.take i ++ o :: xs.drop (i + 1) := by
    rw [← hget, List.cons_getElem_drop_succ, List.take_append_drop]
  rw [hsplit] at h
  obtain ⟨inside, rest, hrest, hinside⟩ := exists_closing_of_closesAll hoc h
  have henc := encloses_append hinside (before ++ xs.take i) rest
  rw [← hrest, List.append_assoc, ← hsplit, List.length_append, List.length_take,
    Nat.min_eq_left hlt.le] at henc
  exact ⟨_, henc⟩

theorem lastUnclosed_append (hoc : o ≠ c) {after : List α} (h : Balanced o c after)
    (before : List α) : LastUnclosed o c (before ++ o :: after) before.length := by
  have hall : before ++ o :: after = (before ++ [o]) ++ after := by simp
  have hlen : (before ++ [o]).length = before.length + 1 := by simp
  refine ⟨by simp, ?_, ?_⟩
  · rintro j ⟨hlt, -, hcloses, hbetween⟩
    obtain ⟨n, rfl⟩ := Nat.exists_eq_add_of_lt hlt
    -- What stands between is a prefix of `after`, and the bracket behind it closes one too many.
    have hn : after[n]? = some c := by
      rw [hall, List.getElem?_append_right (by omega), hlen] at hcloses
      rw [← hcloses]
      congr 1
      omega
    have htake : (before ++ o :: after).take (before.length + n + 1) =
        (before ++ [o]) ++ after.take n := by
      rw [hall, List.take_append, List.take_of_length_le (by omega)]
      congr 2
      omega
    rw [htake, List.drop_left' hlen] at hbetween
    have hp := h.prefixes (after.take (n + 1)) (List.take_prefix _ _)
    have ht := hbetween.total
    rw [List.take_add_one, hn, Option.toList_some, List.count_append, List.count_append,
      List.count_singleton_self, List.count_singleton, if_neg (by simpa using hoc.symm)] at hp
    omega
  · intro k hk hopens
    have hafter : after[k - (before.length + 1)]? = some o := by
      rw [hall, List.getElem?_append_right (by omega), hlen] at hopens
      exact hopens
    obtain ⟨j, hj⟩ := exists_encloses hoc h (before ++ [o]) hafter
    rw [← hall, hlen, Nat.add_sub_cancel' hk] at hj
    exact ⟨j, hj⟩

theorem LastUnclosed.unique (hi : LastUnclosed o c xs i) (hj : LastUnclosed o c xs j) :
    i = j := by
  have hnot {i j : Nat} (hi : LastUnclosed o c xs i) (hj : LastUnclosed o c xs j) : ¬ i < j := by
    intro hlt
    obtain ⟨k, hk⟩ := hi.later j hlt hj.opens
    exact hj.unclosed k hk
  exact le_antisymm (not_lt.mp (hnot hj hi)) (not_lt.mp (hnot hi hj))

end TapeLang.Brackets
