import Mathlib.Data.List.Basic
import TapeLang.Repl.LineEdit

/-! The text of an edited line. Whatever is typed or put into a line, it holds only characters that
can be shown and not too many of them, so that a text taken from it can be put back unchanged. -/
namespace TapeLang.Repl.LineEdit
variable {l l' : LineEdit} {cs ds : List Char}

/-- A text that a line can hold: none of its characters is dropped or replaced, and there is room
for all of them. -/
structure Fits (cs : List Char) : Prop where
  chars : ∀ c ∈ cs, sanitize [c] = [c]
  length : cs.length ≤ maxLength

theorem sanitize_cons (c : Char) (cs : List Char) :
    sanitize (c :: cs) = sanitize [c] ++ sanitize cs := by
  unfold sanitize
  rw [← List.filterMap_append]
  rfl

theorem sanitize_of_mem (h : ∀ c ∈ cs, sanitize [c] = [c]) : sanitize cs = cs := by
  induction cs with
  | nil => rfl
  | cons c cs ih =>
    rw [sanitize_cons, h c List.mem_cons_self, ih fun d hd => h d (List.mem_cons_of_mem c hd)]
    rfl

/-- What is left after one pass stays as it is. -/
theorem sanitize_of_mem_sanitize {c : Char} (h : c ∈ sanitize cs) : sanitize [c] = [c] := by
  unfold sanitize at h
  obtain ⟨d, -, hd⟩ := List.mem_filterMap.mp h
  split_ifs at hd with hblank hdropped
  · rw [← Option.some.inj hd]
    decide
  · rw [← Option.some.inj hd]
    simp [sanitize, hblank, hdropped]

theorem Fits.sublist (h : Fits cs) (hs : ds.Sublist cs) : Fits ds :=
  ⟨fun c hc => h.chars c (hs.subset hc), Nat.le_trans hs.length_le h.length⟩

theorem fits_take (h : ∀ c ∈ cs, sanitize [c] = [c]) : Fits (cs.take maxLength) :=
  ⟨fun c hc => h c (List.mem_of_mem_take hc), by rw [List.length_take]; exact Nat.min_le_left _ _⟩

theorem fits_nil : Fits [] := ⟨by simp, Nat.zero_le _⟩

@[simp] theorem value_scroll (l : LineEdit) : l.scroll.value = l.value := by
  unfold scroll
  dsimp only
  split_ifs <;> rfl

@[simp] theorem cursor_scroll (l : LineEdit) : l.scroll.cursor = l.cursor := by
  unfold scroll
  dsimp only
  split_ifs <;> rfl

@[simp] theorem value_moveTo (l : LineEdit) (n : Nat) : (l.moveTo n).value = l.value :=
  value_scroll _

@[simp] theorem cursor_moveTo (l : LineEdit) (n : Nat) :
    (l.moveTo n).cursor = min n l.value.length :=
  cursor_scroll _

@[simp] theorem value_back (n : Nat) (l : LineEdit) : (back n l).value = l.value := by
  induction n generalizing l with
  | zero => rfl
  | succ n ih => rw [back, ih, value_moveTo]

@[simp] theorem value_forth (n : Nat) (l : LineEdit) : (forth n l).value = l.value := by
  induction n generalizing l with
  | zero => rfl
  | succ n ih => rw [forth, ih, value_moveTo]

theorem le_cursor_forth (n : Nat) (h : l.cursor ≤ l.value.length) :
    l.cursor ≤ (forth n l).cursor := by
  induction n generalizing l with
  | zero => exact Nat.le_refl _
  | succ n ih =>
    have hinside : (l.moveTo (l.cursor + 1)).cursor ≤ (l.moveTo (l.cursor + 1)).value.length := by
      rw [cursor_moveTo, value_moveTo]
      exact Nat.min_le_right _ _
    have hnext := ih hinside
    rw [cursor_moveTo] at hnext
    rw [forth]
    omega

theorem value_replace (l : LineEdit) (value : List Char) :
    (l.replace value).value = value.take maxLength := by
  unfold replace
  dsimp only
  rw [value_scroll]
  split_ifs
  · exact value_moveTo _ _
  · rfl

theorem Fits.value_setText (h : Fits cs) (l : LineEdit) : (l.setText cs).value = cs := by
  rw [setText, value_replace, sanitize_of_mem h.chars, List.take_of_length_le h.length]

theorem fits_setText (l : LineEdit) (cs : List Char) : Fits (l.setText cs).value := by
  rw [setText, value_replace]
  exact fits_take fun c hc => sanitize_of_mem_sanitize hc

theorem Fits.insert (h : Fits l.value) (cs : List Char) : Fits (l.insert cs).value := by
  unfold LineEdit.insert
  dsimp only
  split_ifs
  · exact h
  · rw [value_replace]
    refine fits_take fun c hc => ?_
    simp only [List.mem_append] at hc
    rcases hc with (hc | hc) | hc
    · exact h.chars c (List.mem_of_mem_take hc)
    · exact sanitize_of_mem_sanitize (List.mem_of_mem_take hc)
    · exact h.chars c (List.mem_of_mem_drop hc)

/-- Without the characters between two places. -/
theorem Fits.cut (h : Fits cs) {i j : Nat} (hij : i ≤ j) : Fits (cs.take i ++ cs.drop j) := by
  refine h.sublist ?_
  conv_rhs => rw [← List.take_append_drop i cs]
  exact (List.Sublist.refl _).append (List.drop_sublist_drop_left cs hij)

theorem cursor_skipWhite_le (n : Nat) (l : LineEdit) : (skipWhite n l).cursor ≤ l.cursor := by
  induction n generalizing l with
  | zero => exact Nat.le_refl _
  | succ n ih =>
    rw [skipWhite]
    split_ifs
    · exact Nat.le_refl _
    · have hrest := ih (l.moveTo (l.cursor - 1))
      rw [cursor_moveTo] at hrest
      omega

/-- The search for the start of a word may come back by one place. -/
theorem cursor_skipWord_le (n : Nat) (l : LineEdit) : (skipWord n l).cursor ≤ l.cursor + 1 := by
  induction n generalizing l with
  | zero => exact Nat.le_succ _
  | succ n ih =>
    rw [skipWord]
    split_ifs
    · exact Nat.le_succ _
    · rw [cursor_moveTo]
      exact Nat.min_le_left _ _
    · have hrest := ih (l.moveTo (l.cursor - 1))
      rw [cursor_moveTo] at hrest
      omega

/-- What a key can do to the text: nothing, a deletion between two places, or the insertion of what
is typed. -/
inductive Edited (l l' : LineEdit) : Prop where
  | kept (h : l'.value = l.value)
  | deleted {i j : Nat} (hij : i ≤ j) (h : l'.value = l.value.take i ++ l.value.drop j)
  | typed (cs : List Char) (h : l'.value = (l.insert cs).value)

theorem edited_deleteBackward (l : LineEdit) : Edited l l.deleteBackward := by
  unfold deleteBackward
  split_ifs
  · exact .kept rfl
  · exact .deleted (Nat.sub_le _ 1) (value_moveTo _ _)

theorem edited_deleteBefore (l : LineEdit) : Edited l l.deleteBefore :=
  .deleted (i := 0) (Nat.zero_le l.cursor) (value_moveTo _ _)

theorem edited_deleteWordBackward (l : LineEdit) : Edited l l.deleteWordBackward := by
  unfold deleteWordBackward
  split_ifs with hzero
  · exact .kept rfl
  · have hword := cursor_skipWord_le l.cursor (skipWhite l.cursor (l.moveTo (l.cursor - 1)))
    have hwhite := cursor_skipWhite_le l.cursor (l.moveTo (l.cursor - 1))
    rw [cursor_moveTo] at hwhite
    exact .deleted (by omega) rfl

theorem edited_deleteWordForward? (h : l.deleteWordForward? = some l') : Edited l l' := by
  unfold deleteWordForward? at h
  split_ifs at h with hend hlast
  · cases h
    exact .kept rfl
  · cases h
    have hnext : (l.moveTo (l.cursor + 1)).cursor = l.cursor + 1 := by
      rw [cursor_moveTo]
      omega
    have hinside : (l.moveTo (l.cursor + 1)).cursor ≤ (l.moveTo (l.cursor + 1)).value.length := by
      rw [hnext, value_moveTo]
      omega
    have hmoved := le_cursor_forth (l.moveTo (l.cursor + 1)).runAfter hinside
    exact .deleted (by omega) (value_moveTo _ _)

theorem Edited.scroll (h : Edited l l') : Edited l l'.scroll := by
  cases h with
  | kept h => exact .kept (by rw [value_scroll, h])
  | deleted hij h => exact .deleted hij (by rw [value_scroll, h])
  | typed cs h => exact .typed cs (by rw [value_scroll, h])

theorem edited_of_press? {key : Key} (h : l.press? key = some l') : Edited l l' := by
  have hsome {x : LineEdit} (hx : Edited l x) (h : some x = some l') : Edited l l' := by
    cases h
    exact hx
  have hkept {x : LineEdit} (hx : x.value = l.value) (h : some x.scroll = some l') : Edited l l' :=
    hsome (Edited.kept hx).scroll h
  -- One case for each name of a key; the last is for all that type their text.
  unfold press? at h
  split at h
  case h_1 | h_2 | h_3 | h_4 | h_5 | h_6 | h_7 | h_8 => exact hkept (value_moveTo _ _) h
  case h_9 | h_10 => exact hsome l.edited_deleteBackward.scroll h
  case h_11 | h_12 => exact hsome (Edited.deleted (Nat.le_succ l.cursor) rfl).scroll h
  case h_13 => exact hsome l.edited_deleteBefore.scroll h
  case h_14 | h_15 => exact hsome l.edited_deleteWordBackward.scroll h
  case h_16 | h_17 | h_18 => exact hkept (value_back _ _) h
  case h_19 | h_20 | h_21 => exact hkept (value_forth _ _) h
  case h_22 | h_23 =>
    obtain ⟨x, hx, rfl⟩ := Option.map_eq_some_iff.mp h
    exact (edited_deleteWordForward? hx).scroll
  case h_24 | h_25 => exact hkept rfl h
  case h_26 => exact hsome (.kept rfl) h
  case h_27 => exact hsome (Edited.typed key.text rfl).scroll h

/-- No key brings a text into a line that it cannot hold. -/
theorem Fits.press? {key : Key} (hl : Fits l.value) (h : l.press? key = some l') :
    Fits l'.value := by
  cases edited_of_press? h with
  | kept h => exact h ▸ hl
  | deleted hij h => exact h ▸ hl.cut hij
  | typed cs h => exact h ▸ hl.insert cs

end TapeLang.Repl.LineEdit
