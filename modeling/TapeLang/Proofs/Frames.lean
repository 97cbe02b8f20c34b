import Mathlib.Data.List.DropRight
import TapeLang.Proofs.Utf8
import TapeLang.Source.CodeFrame

/-! Code frames of any position. An offset, moved into the text, is a gap between two characters or
an end of the text. The searches from it in both directions come to the ends of one line, and what is
rendered is that line between a header and a caret, whatever the position says. -/
namespace TapeLang

/-- A text cut inside one of its lines: the lines above, the parts of the line before and behind the
cut, and what begins at the end of that line. -/
structure Gap where
  above : List Char
  lead : List Char
  trail : List Char
  below : List Char
  above_ends : above = [] ∨ above.getLast? = some '\n'
  one_line : '\n' ∉ lead ++ trail
  below_starts : below = [] ∨ below.head? = some '\n'

namespace Gap

/-- Looking back, what is left over ends with a line feed. -/
theorem rdropWhile_ends (before : List Char) :
    before.rdropWhile CodeFrame.isLineChar = [] ∨
      (before.rdropWhile CodeFrame.isLineChar).getLast? = some '\n' := by
  by_cases hnil : before.rdropWhile CodeFrame.isLineChar = []
  · exact Or.inl hnil
  · right
    rw [List.getLast?_eq_some_getLast hnil]
    simpa [CodeFrame.isLineChar] using List.rdropWhile_last_not _ _ hnil

theorem dropWhile_starts (after : List Char) :
    after.dropWhile CodeFrame.isLineChar = [] ∨
      (after.dropWhile CodeFrame.isLineChar).head? = some '\n' := by
  have hhead := List.head?_dropWhile_not CodeFrame.isLineChar after
  cases hnil : after.dropWhile CodeFrame.isLineChar with
  | nil => exact Or.inl rfl
  | cons x rest =>
    right
    rw [hnil] at hhead
    simpa [CodeFrame.isLineChar] using hhead

theorem not_mem_rtakeWhile (before : List Char) :
    '\n' ∉ before.rtakeWhile CodeFrame.isLineChar := fun h =>
  absurd (List.mem_rtakeWhile_imp h) (by decide)

theorem not_mem_takeWhile (after : List Char) : '\n' ∉ after.takeWhile CodeFrame.isLineChar :=
  fun h => absurd (List.mem_takeWhile_imp h) (by decide)

/-- The gap between two parts of a text. -/
def between (before after : List Char) : Gap where
  above := before.rdropWhile CodeFrame.isLineChar
  lead := before.rtakeWhile CodeFrame.isLineChar
  trail := after.takeWhile CodeFrame.isLineChar
  below := after.dropWhile CodeFrame.isLineChar
  above_ends := rdropWhile_ends before
  one_line := by
    rw [List.mem_append, not_or]
    exact ⟨not_mem_rtakeWhile before, not_mem_takeWhile after⟩
  below_starts := dropWhile_starts after

variable (g : Gap)

/-- The line of the gap. -/
def line : List Char := g.lead ++ g.trail

def text : List Char := g.above ++ g.line ++ g.below

def offset : Nat := g.above.length + g.lead.length

/-- The index behind the last character of the line. -/
def stop : Nat := g.above.length + g.line.length

theorem text_eq : g.text = (g.above ++ g.lead) ++ (g.trail ++ g.below) := by
  simp [text, line]

theorem offset_eq : g.offset = (g.above ++ g.lead).length := List.length_append.symm

theorem take_offset : g.text.take g.offset = g.above ++ g.lead := by
  rw [text_eq, offset_eq, List.take_left]

theorem drop_offset : g.text.drop g.offset = g.trail ++ g.below := by
  rw [text_eq, offset_eq, List.drop_left]

theorem isLineChar_of_mem {c : Char} (h : c ∈ g.line) : CodeFrame.isLineChar c = true := by
  refine bne_iff_ne.mpr ?_
  rintro rfl
  exact g.one_line h

/-- Looking back from the gap, the line begins where the lines above end. -/
theorem takeWhile_take :
    (g.text.take g.offset).reverse.takeWhile CodeFrame.isLineChar = g.lead.reverse := by
  have hlead : ∀ c ∈ g.lead.reverse, CodeFrame.isLineChar c = true := fun c hc =>
    g.isLineChar_of_mem (List.mem_append_left _ (List.mem_reverse.mp hc))
  rw [take_offset, List.reverse_append, List.takeWhile_append_of_pos hlead]
  rcases g.above_ends with h | h
  · simp [h]
  · obtain ⟨front, h⟩ := List.getLast?_eq_some_iff.mp h
    simp [h, CodeFrame.isLineChar]

theorem takeWhile_drop :
    (g.text.drop g.offset).takeWhile CodeFrame.isLineChar = g.trail := by
  have htrail : ∀ c ∈ g.trail, CodeFrame.isLineChar c = true := fun c hc =>
    g.isLineChar_of_mem (List.mem_append_right _ hc)
  rw [drop_offset, List.takeWhile_append_of_pos htrail]
  rcases g.below_starts with h | h
  · simp [h]
  · obtain ⟨back, h⟩ := List.head?_eq_some_iff.mp h
    simp [h, CodeFrame.isLineChar]

theorem text_between (before after : List Char) : (between before after).text = before ++ after := by
  rw [text_eq, between, List.rdropWhile_append_rtakeWhile, List.takeWhile_append_dropWhile]

theorem offset_between (before after : List Char) :
    (between before after).offset = before.length := by
  rw [offset_eq, between, List.rdropWhile_append_rtakeWhile]

/-- There is a gap at each offset up to the end of a text. -/
theorem exists_of_le {cs : List Char} {i : Nat} (h : i ≤ cs.length) :
    ∃ g : Gap, g.text = cs ∧ g.offset = i := by
  refine ⟨between (cs.take i) (cs.drop i), ?_, ?_⟩
  · rw [text_between, List.take_append_drop]
  · rw [offset_between, List.length_take_of_le h]

theorem extract_text : g.text.extract g.above.length g.stop = g.line := by
  rw [List.extract_eq_take_drop, text, List.append_assoc, List.drop_left, stop,
    Nat.add_sub_cancel_left, List.take_left]

end Gap

/-- The indices from `start` up to before `stop` are those of the line around an offset: they all
have a character that is no line feed, and there is a line feed or an end of the text on both
sides. -/
structure LineAt (cs : List Char) (offset start stop : Nat) : Prop where
  start_le : start ≤ offset
  le_stop : offset ≤ stop
  stop_le : stop ≤ cs.length
  inside : ∀ i < stop, start ≤ i → ∃ c ∈ cs[i]?, c ≠ '\n'
  starts : start = 0 ∨ cs[start - 1]? = some '\n'
  ends : stop = cs.length ∨ cs[stop]? = some '\n'

theorem Gap.lineAt (g : Gap) : LineAt g.text g.offset g.above.length g.stop where
  start_le := Nat.le_add_right _ _
  le_stop := by
    rw [offset, stop, line, List.length_append]
    omega
  stop_le := by
    rw [stop, text, List.length_append, List.length_append]
    omega
  inside := by
    intro i hstop hstart
    have hi : i - g.above.length < g.line.length := by
      rw [stop] at hstop
      omega
    refine ⟨g.line[i - g.above.length], ?_, ?_⟩
    · rw [text, List.append_assoc, List.getElem?_append_right hstart,
        List.getElem?_append_left hi, List.getElem?_eq_getElem hi]
      rfl
    · intro h
      exact g.one_line (h ▸ List.getElem_mem hi)
  starts := by
    rcases g.above_ends with h | h
    · exact Or.inl (List.length_eq_zero_iff.mpr h)
    · right
      have hne : g.above ≠ [] := by
        intro hnil
        rw [hnil] at h
        cases h
      have hpos := List.length_pos_of_ne_nil hne
      rw [text, List.append_assoc, List.getElem?_append_left (by omega), ← List.getLast?_eq_getElem?, h]
  ends := by
    rcases g.below_starts with h | h
    · left
      rw [stop, text, h, List.append_nil, List.length_append]
    · right
      rw [stop, text, ← List.length_append, List.getElem?_append_right (le_refl _), Nat.sub_self,
        ← List.head?_eq_getElem?, h]

namespace LineAt
variable {cs : List Char} {offset start stop start' stop' : Nat}

theorem not_feed (h : LineAt cs offset start stop) {i : Nat} (hi : start ≤ i) (hstop : i < stop) :
    cs[i]? ≠ some '\n' := by
  obtain ⟨c, hc, hne⟩ := h.inside i hstop hi
  rw [Option.mem_def.mp hc]
  exact fun heq => hne (Option.some.inj heq)

theorem start_le_start (h : LineAt cs offset start stop) (h' : LineAt cs offset start' stop') :
    start ≤ start' := by
  by_contra hlt
  rcases h.starts with hzero | hfeed
  · omega
  · have hle := h.start_le
    have hstop := h'.le_stop
    exact h'.not_feed (i := start - 1) (by omega) (by omega) hfeed

theorem stop_le_stop (h : LineAt cs offset start stop) (h' : LineAt cs offset start' stop') :
    stop ≤ stop' := by
  by_contra hlt
  have hstop := h.stop_le
  rcases h'.ends with hend | hfeed
  · omega
  · have hle := h.start_le
    have hge := h'.le_stop
    exact h.not_feed (i := stop') (by omega) (by omega) hfeed

/-- There is one line around an offset. -/
theorem unique (h : LineAt cs offset start stop) (h' : LineAt cs offset start' stop') :
    start = start' ∧ stop = stop' :=
  ⟨le_antisymm (h.start_le_start h') (h'.start_le_start h),
    le_antisymm (h.stop_le_stop h') (h'.stop_le_stop h)⟩

end LineAt

namespace CodeFrame

/-- A line is what is left of it, or that with a carriage return at its end. -/
theorem dropReturn_spec (line : List Char) :
    line = dropReturn line ++ ['\r'] ∨
      line = dropReturn line ∧ (dropReturn line).getLast? ≠ some '\r' := by
  rw [dropReturn]
  split
  · next h =>
    obtain ⟨front, rfl⟩ := List.getLast?_eq_some_iff.mp h
    simp
  · next h => exact Or.inr ⟨rfl, h⟩

theorem dropReturn_isPrefix (line : List Char) : dropReturn line <+: line := by
  unfold dropReturn
  split_ifs
  · exact List.dropLast_prefix line
  · exact List.prefix_refl line

theorem render_eq (f : CodeFrame) {gutter : List Char}
    (h : gutter = List.replicate (toString f.line).length ' ') : f.render =
      s!"  --> line {f.line}, column {f.caret + 1}\n {f.line} | {String.ofList f.text}\n" ++
        s!" {String.ofList gutter} | {String.ofList f.padding}^" := by
  have hgutter : gutter = (toString f.line).toList.map fun _ => ' ' := by
    rw [h, List.map_const', String.length_toList]
  rw [hgutter]
  rfl

variable {f : CodeFrame}

theorem length_padding (h : f.caret ≤ f.text.length) : f.padding.length = f.caret := by
  rw [padding, List.length_map, List.length_take_of_le h]

theorem getElem?_padding {k : Nat} (hk : k < f.padding.length) :
    f.padding[k]? = some (if f.text[k]? = some '\t' then '\t' else ' ') := by
  rw [padding, List.length_map, List.length_take] at hk
  rw [padding, List.getElem?_map, List.getElem?_take_of_lt (by omega),
    List.getElem?_eq_getElem (by omega)]
  simp

theorem feed_not_mem_padding : '\n' ∉ f.padding := by
  intro h
  obtain ⟨c, -, hc⟩ := List.mem_map.mp h
  split_ifs at hc <;> cases hc

end CodeFrame

theorem toList_toString_nat (n : Nat) : (toString n).toList = Nat.toDigits 10 n := Nat.toList_repr

theorem isDigit_of_mem_toString {n : Nat} {c : Char} (h : c ∈ (toString n).toList) :
    c.isDigit = true := by
  rw [toList_toString_nat] at h
  exact Nat.isDigit_of_mem_toDigits (by decide) (by decide) h

theorem feed_not_mem_nat (n : Nat) : '\n' ∉ (toString n).toList := by
  intro h
  exact absurd (isDigit_of_mem_toString h) (by decide)

theorem feed_not_mem_int (n : Int) : '\n' ∉ (toString n).toList := by
  cases n with
  | ofNat m => exact feed_not_mem_nat m
  | negSucc m =>
    have htext : toString (Int.negSucc m) = "-" ++ toString (m + 1) := rfl
    rw [htext, String.toList_append, List.mem_append, not_or]
    exact ⟨by decide, feed_not_mem_nat (m + 1)⟩

namespace CodeFrame

/-- A frame of one line of a text is rendered on three lines. -/
theorem splitOn_render {f : CodeFrame} (htext : '\n' ∉ f.text) {gutter : List Char}
    (h : gutter = List.replicate (toString f.line).length ' ') :
    f.render.toList.splitOn '\n' =
      [s!"  --> line {f.line}, column {f.caret + 1}".toList,
        s!" {f.line} | {String.ofList f.text}".toList,
        s!" {String.ofList gutter} | {String.ofList f.padding}^".toList] := by
  have hstring (s : String) : toString s = s := rfl
  have hgutter : '\n' ∉ gutter := by
    intro hmem
    cases List.eq_of_mem_replicate (h ▸ hmem)
  have hheader : '\n' ∉ s!"  --> line {f.line}, column {f.caret + 1}".toList := by
    simp only [hstring, String.toList_append, List.mem_append, not_or]
    exact ⟨⟨⟨by decide, feed_not_mem_int _⟩, by decide⟩, feed_not_mem_nat _⟩
  have hshown : '\n' ∉ s!" {f.line} | {String.ofList f.text}".toList := by
    simp only [hstring, String.toList_append, String.toList_ofList, List.mem_append, not_or]
    exact ⟨⟨⟨by decide, feed_not_mem_int _⟩, by decide⟩, htext⟩
  have hcaret : '\n' ∉ s!" {String.ofList gutter} | {String.ofList f.padding}^".toList := by
    simp only [hstring, String.toList_append, String.toList_ofList, List.mem_append, not_or]
    exact ⟨⟨⟨⟨by decide, hgutter⟩, by decide⟩, feed_not_mem_padding⟩, by decide⟩
  have hlines : f.render.toList =
      s!"  --> line {f.line}, column {f.caret + 1}".toList ++ '\n' ::
        (s!" {f.line} | {String.ofList f.text}".toList ++ '\n' ::
          s!" {String.ofList gutter} | {String.ofList f.padding}^".toList) := by
    rw [f.render_eq h]
    simp [hstring]
  rw [hlines, List.splitOn_append_cons_self_of_not_mem hheader,
    List.splitOn_append_cons_self_of_not_mem hshown, List.splitOn_eq_singleton hcaret]

end CodeFrame

namespace Gap
variable (g : Gap)

/-- The line of a gap with the caret below it, in front of a carriage return that is not shown. -/
def frame (line : Int) : CodeFrame :=
  ⟨line, CodeFrame.dropReturn g.line, min g.lead.length (CodeFrame.dropReturn g.line).length⟩

/-- Every position whose offset comes to a gap has that gap's frame. -/
theorem locate?_eq {pos : Position} (htext : g.text ≠ []) (hline : 0 < pos.line)
    (hoffset : min pos.offset.toNat g.text.length = g.offset) :
    CodeFrame.locate? g.text pos = some (g.frame pos.line) := by
  have hsome : ¬ (g.text.isEmpty ∨ pos.line ≤ 0) := by
    rw [List.isEmpty_iff, not_or]
    exact ⟨htext, by omega⟩
  have hwhole : g.lead ++ g.trail = g.line := rfl
  rw [CodeFrame.locate?, if_neg hsome, hoffset]
  dsimp only
  rw [takeWhile_take, takeWhile_drop, List.reverse_reverse, List.length_reverse, hwhole]
  rfl

theorem feed_not_mem_frame (line : Int) : '\n' ∉ (g.frame line).text := fun h =>
  g.one_line ((CodeFrame.dropReturn_isPrefix g.line).subset h)

end Gap

theorem Utf8.decode_ne_nil {bs : Bytes} (h : bs ≠ []) : decode bs ≠ [] := by
  obtain ⟨b, rest, rfl⟩ := List.exists_cons_of_ne_nil h
  rw [decode_cons]
  exact List.cons_ne_nil _ _

namespace CodeFrame

/-- For each position with a line number the frame of a text has three lines: a header, the line
around the offset without a carriage return at its end, and the caret. The caret is below the
offset, or behind what is shown when the offset is behind the carriage return, with a tab below each
tab in front of it. All indices of that line are inside the text. -/
theorem describe_three_lines (source : Bytes) (pos : Position) (hsource : source ≠ [])
    (hline : 0 < pos.line) :
    let cs := Utf8.decode source
    let offset := (min (max pos.offset 0) cs.length).toNat
    (∃ start stop, LineAt cs offset start stop) ∧
      ∀ start stop, LineAt cs offset start stop →
        ∃ shown gutter padding : List Char,
          (cs.extract start stop = shown ++ ['\r'] ∨
            cs.extract start stop = shown ∧ shown.getLast? ≠ some '\r') ∧
          gutter = List.replicate (toString pos.line).length ' ' ∧
          padding.length = min (offset - start) shown.length ∧
          (∀ k < padding.length,
            padding[k]? = some (if shown[k]? = some '\t' then '\t' else ' ')) ∧
          (describe cs pos).toList.splitOn '\n' =
            [s!"  --> line {pos.line}, column {padding.length + 1}".toList,
              s!" {pos.line} | {String.ofList shown}".toList,
              s!" {String.ofList gutter} | {String.ofList padding}^".toList] := by
  intro cs offset
  have hmin : offset = min pos.offset.toNat cs.length := by omega
  have hle : offset ≤ cs.length := by omega
  obtain ⟨g, htext, hoffset⟩ := Gap.exists_of_le hle
  have hat := g.lineAt
  rw [htext, hoffset] at hat
  refine ⟨⟨_, _, hat⟩, ?_⟩
  intro start stop h
  -- There is only one line around the offset, so its ends are those of the gap.
  obtain ⟨rfl, rfl⟩ := h.unique hat
  have hcaret : (g.frame pos.line).padding.length = (g.frame pos.line).caret :=
    length_padding (min_le_right _ _)
  have hlead : offset - g.above.length = g.lead.length := by
    rw [← hoffset, Gap.offset, Nat.add_sub_cancel_left]
  refine ⟨(g.frame pos.line).text, _, (g.frame pos.line).padding, ?_, rfl, ?_,
    fun k => getElem?_padding, ?_⟩
  · rw [← htext, g.extract_text]
    exact dropReturn_spec g.line
  · rw [hcaret, hlead]
    rfl
  · have hlocate := g.locate?_eq (htext ▸ Utf8.decode_ne_nil hsource) hline
      (by rw [htext, hoffset, hmin])
    rw [htext] at hlocate
    rw [describe, hlocate, Option.map_some, Option.getD_some,
      splitOn_render (g.feed_not_mem_frame pos.line) rfl, hcaret]
    rfl

/-- Past the end of a text that ends with a carriage return, on a line with a tab. -/
theorem describe_three_lines_past_return :
    let source : Bytes := [0x2B, 0x0A, 0x09, 0x2B, 0x0D]
    let pos : Position := ⟨9, 12, -1⟩
    source ≠ [] ∧ 0 < pos.line ∧ LineAt (Utf8.decode source) 5 2 5 ∧
      (describe (Utf8.decode source) pos).toList.splitOn '\n' =
        ["  --> line 12, column 3".toList, " 12 | \t+".toList, "    | \t ^".toList] := by
  intro source pos
  have hdecode : Utf8.decode source = ['+', '\n', '\t', '+', '\r'] := by decide
  have hat : LineAt (Utf8.decode source) 5 2 5 := by
    rw [hdecode]
    refine ⟨by decide, by decide, by decide, ?_, Or.inr rfl, Or.inl rfl⟩
    intro i hstop hstart
    obtain rfl | rfl | rfl : i = 2 ∨ i = 3 ∨ i = 4 := by omega
    · exact ⟨'\t', rfl, by decide⟩
    · exact ⟨'+', rfl, by decide⟩
    · exact ⟨'\r', rfl, by decide⟩
  obtain ⟨shown, gutter, padding, hshown, rfl, hlength, hpadding, hlines⟩ :=
    (describe_three_lines source pos (by decide) (by decide)).2 2 5 hat
  have hextract : (Utf8.decode source).extract 2 5 = ['\t', '+'] ++ ['\r'] := by
    rw [hdecode]
    rfl
  obtain rfl : ['\t', '+'] = shown := by
    rw [hextract] at hshown
    rcases hshown with h | ⟨rfl, h⟩
    · exact List.append_cancel_right h
    · exact absurd rfl h
  have htwo : padding.length = 2 := hlength
  obtain ⟨a, b, rfl⟩ := List.length_eq_two.mp htwo
  obtain rfl : a = '\t' := Option.some.inj (hpadding 0 Nat.zero_lt_two)
  obtain rfl : b = ' ' := Option.some.inj (hpadding 1 Nat.one_lt_two)
  exact ⟨by decide, by decide, hat, hlines.trans (by cbv)⟩

end CodeFrame
end TapeLang
