import TapeLang.Editor.Column
import TapeLang.Proofs.Frames
import TapeLang.Proofs.ParseErrors
import TapeLang.Proofs.Pieces

/-! Places in a text as its reader, the editor and a code frame see them. The reader counts characters
as it goes, the editor cuts the bytes into lines before it decodes them, and a frame looks for the
ends of a line from an offset; they all come to the same character of the same line. -/
namespace TapeLang

/-- A text cut at one of its characters: the lines above, the part of its own line before it, the
character, the rest of its line, and what begins at the end of that line. -/
structure Spot where
  above : List Char
  lead : List Char
  char : Char
  trail : List Char
  below : List Char
  above_ends : above = [] ∨ above.getLast? = some '\n'
  one_line : '\n' ∉ lead ++ char :: trail
  below_starts : below = [] ∨ below.head? = some '\n'

namespace Spot
variable (s : Spot)

/-- The line of the character. -/
def line : List Char := s.lead ++ s.char :: s.trail

def text : List Char := s.above ++ s.line ++ s.below

def offset : Nat := s.above.length + s.lead.length

/-- Lines and columns are counted from one. -/
def position : Position := ⟨s.offset, s.above.count '\n' + 1, s.lead.length + 1⟩

/-- The gap in front of the character. -/
def gap : Gap :=
  ⟨s.above, s.lead, s.char :: s.trail, s.below, s.above_ends, s.one_line, s.below_starts⟩

theorem text_eq : s.text = (s.above ++ s.lead) ++ (s.char :: s.trail ++ s.below) := s.gap.text_eq

theorem offset_eq : s.offset = (s.above ++ s.lead).length := s.gap.offset_eq

theorem take_offset : s.text.take s.offset = s.above ++ s.lead := s.gap.take_offset

theorem drop_offset : s.text.drop s.offset = s.char :: s.trail ++ s.below := s.gap.drop_offset

theorem getElem?_offset : s.text[s.offset]? = some s.char := by
  rw [← List.head?_drop, drop_offset]
  rfl

theorem offset_lt : s.offset < s.text.length :=
  (List.getElem?_eq_some_iff.mp s.getElem?_offset).1

theorem takeWhile_take :
    (s.text.take s.offset).reverse.takeWhile CodeFrame.isLineChar = s.lead.reverse :=
  s.gap.takeWhile_take

theorem count_take : (s.text.take s.offset).count '\n' = s.above.count '\n' := by
  have hlead : s.lead.count '\n' = 0 :=
    List.count_eq_zero.mpr fun h => s.one_line (List.mem_append_left _ h)
  rw [take_offset, List.count_append, hlead, Nat.add_zero]

theorem position_eq : s.position = .ofIndex s.text s.offset := by
  have hlead : ((s.text.take s.offset).reverse.takeWhile (· != '\n')).length = s.lead.length :=
    (congrArg List.length s.takeWhile_take).trans List.length_reverse
  rw [Position.ofIndex, hlead, count_take, position, Int.add_comm 1, Int.add_comm 1]

/-- The spot of a character, given what comes before it and what comes after it. -/
def between (before : List Char) {c : Char} (hc : c ≠ '\n') (after : List Char) : Spot where
  above := before.rdropWhile CodeFrame.isLineChar
  lead := before.rtakeWhile CodeFrame.isLineChar
  char := c
  trail := after.takeWhile CodeFrame.isLineChar
  below := after.dropWhile CodeFrame.isLineChar
  above_ends := Gap.rdropWhile_ends before
  one_line := by
    rw [List.mem_append, List.mem_cons, not_or, not_or]
    exact ⟨Gap.not_mem_rtakeWhile before, hc.symm, Gap.not_mem_takeWhile after⟩
  below_starts := Gap.dropWhile_starts after

theorem text_between (before : List Char) {c : Char} (hc : c ≠ '\n') (after : List Char) :
    (between before hc after).text = before ++ c :: after := by
  rw [text_eq, between, List.rdropWhile_append_rtakeWhile, List.cons_append,
    List.takeWhile_append_dropWhile]

theorem offset_between (before : List Char) {c : Char} (hc : c ≠ '\n') (after : List Char) :
    (between before hc after).offset = before.length := by
  rw [offset_eq, between, List.rdropWhile_append_rtakeWhile]

/-- There is a spot at each character that is no line feed. -/
theorem exists_of_getElem? {cs : List Char} {i : Nat} {c : Char} (h : cs[i]? = some c)
    (hc : c ≠ '\n') : ∃ s : Spot, s.text = cs ∧ s.char = c ∧ s.offset = i := by
  obtain ⟨hi, hci⟩ := List.getElem?_eq_some_iff.mp h
  have hcut : cs.take i ++ c :: cs.drop (i + 1) = cs := by
    rw [← hci, List.cons_getElem_drop_succ, List.take_append_drop]
  refine ⟨between (cs.take i) hc (cs.drop (i + 1)), ?_, rfl, ?_⟩
  · rw [text_between, hcut]
  · rw [offset_between, List.length_take_of_le hi.le]

theorem length_splitOn {α : Type} [BEq α] [LawfulBEq α] (a : α) (xs : List α) :
    (xs.splitOn a).length = xs.count a + 1 := by
  induction xs with
  | nil => rfl
  | cons x xs ih =>
    rw [List.splitOn_cons_eq_if_modifyHead, List.count_cons]
    split <;> simp [ih]

/-- The line of a spot is the one that its line number names. -/
theorem getElem?_splitOn : (s.text.splitOn '\n')[s.above.count '\n']? = some s.line := by
  have hone : '\n' ∉ s.line := s.one_line
  obtain ⟨rest, hline⟩ : ∃ rest, (s.line ++ s.below).splitOn '\n' = s.line :: rest := by
    rcases s.below_starts with h | h
    · exact ⟨[], by rw [h, List.append_nil, List.splitOn_eq_singleton hone]⟩
    · obtain ⟨back, h⟩ := List.head?_eq_some_iff.mp h
      exact ⟨_, by rw [h, List.splitOn_append_cons_self_of_not_mem hone]⟩
  rw [text, List.append_assoc]
  rcases s.above_ends with h | h
  · rw [h, List.nil_append, hline]
    rfl
  · obtain ⟨front, h⟩ := List.getLast?_eq_some_iff.mp h
    have hcount : s.above.count '\n' = (front.splitOn '\n').length := by
      rw [h, length_splitOn, List.count_append, List.count_singleton_self]
    rw [hcount, h, List.append_assoc, List.singleton_append, List.splitOn_append_cons_self, hline]
    simp

end Spot

namespace Editor

theorem linesFrom_eq (line : Bytes) (acc : List Bytes) (bs : Bytes) :
    linesFrom line acc bs = acc.reverse ++ (bs.splitOn 0x0A).modifyHead (line.reverse ++ ·) := by
  induction bs generalizing line acc with
  | nil => simp [linesFrom]
  | cons b bs ih =>
    rw [linesFrom, List.splitOn_cons_eq_if_modifyHead]
    obtain ⟨first, rest, hsplit⟩ := List.exists_cons_of_ne_nil (List.splitOn_ne_nil 0x0A bs)
    by_cases hb : b = 0x0A
    · rw [if_pos hb, if_pos (by simpa using hb), ih, hsplit]
      simp
    · rw [if_neg hb, if_neg (by simpa using hb), ih, hsplit]
      simp

theorem lines_eq (source : Bytes) : lines source = source.splitOn 0x0A := by
  obtain ⟨first, rest, hsplit⟩ := List.exists_cons_of_ne_nil (List.splitOn_ne_nil 0x0A source)
  rw [lines, linesFrom_eq, hsplit]
  rfl

/-- Cutting into lines and decoding may be done in either order. -/
theorem map_decode_splitOn (bs : Bytes) :
    (bs.splitOn 0x0A).map Utf8.decode = (Utf8.decode bs).splitOn '\n' := by
  have hfeed : (0x0A : UInt8).toNat < 0x80 := by decide
  -- A line feed is never part of a longer sequence, so the first line comes off both sides alike.
  induction hn : bs.length using Nat.strongRecOn generalizing bs with
  | _ n ih =>
    by_cases hmem : (0x0A : UInt8) ∈ bs
    · obtain ⟨front, back, rfl, hfront⟩ := List.eq_append_cons_of_mem hmem
      have hfront' : '\n' ∉ Utf8.decode front := fun h =>
        hfront ((Utf8.mem_decode_ascii_iff hfeed).mp h)
      have hback : back.length < n := by
        rw [← hn, List.length_append, List.length_cons]
        omega
      have hchars : Utf8.decode (front ++ 0x0A :: back) =
          Utf8.decode front ++ '\n' :: Utf8.decode back := Utf8.decode_append_ascii hfeed front back
      rw [hchars, List.splitOn_append_cons_self_of_not_mem hfront,
        List.splitOn_append_cons_self_of_not_mem hfront', List.map_cons, ih _ hback _ rfl]
    · have hnone : '\n' ∉ Utf8.decode bs := fun h =>
        hmem ((Utf8.mem_decode_ascii_iff hfeed).mp h)
      rw [List.splitOn_eq_singleton hmem, List.splitOn_eq_singleton hnone]
      rfl

theorem decode_dropEnd_return (bs : Bytes) :
    Utf8.decode (White.dropEnd (· == 0x0D) bs) = White.dropEnd (· == '\r') (Utf8.decode bs) := by
  rw [White.dropEnd_eq, White.dropEnd_eq]
  induction bs using List.reverseRecOn with
  | nil => rfl
  | append_singleton bs b ih =>
    by_cases hb : b = 0x0D
    · subst b
      have hchars : Utf8.decode (bs ++ [0x0D]) = Utf8.decode bs ++ ['\r'] :=
        Utf8.decode_append_ascii (by decide) bs []
      rw [List.rdropWhile_concat_pos _ _ _ rfl, hchars, List.rdropWhile_concat_pos _ _ _ rfl, ih]
    · rw [List.rdropWhile_concat_neg _ _ _ (by simpa using hb)]
      symm
      rw [List.rdropWhile_eq_self_iff]
      intro hne hlast
      -- A carriage return at the end of the characters is one at the end of the bytes.
      have hchars := List.dropLast_append_getLast hne
      rw [beq_iff_eq.mp hlast] at hchars
      obtain ⟨front, back, hbytes, -, hback⟩ :=
        Utf8.Decodes.exists_of_append (c := '\r') (by decide) (hchars ▸ Utf8.decodes_decode _)
      cases hback
      exact hb (List.head_eq_of_cons_eq (List.append_inj' hbytes rfl).2)

/-- The rows are the lines of the characters, without the carriage returns that end them. -/
theorem rows_eq (source : Bytes) :
    rows source = ((Utf8.decode source).splitOn '\n').map (White.dropEnd (· == '\r')) := by
  rw [rows, lines_eq, ← map_decode_splitOn, List.map_map]
  exact List.map_congr_left fun bs _ => decode_dropEnd_return bs

end Editor

theorem White.dropEnd_append_cons {α : Type} {p : α → Bool} {x : α} (h : p x = false)
    (xs ys : List α) : dropEnd p (xs ++ x :: ys) = xs ++ x :: dropEnd p ys := by
  have hsplit : (xs ++ x :: ys).reverse = ys.reverse ++ x :: xs.reverse := by simp
  rw [dropEnd, dropEnd, hsplit, List.dropWhile_append]
  split
  · next hempty => simp [List.dropWhile_cons_of_neg, h, List.isEmpty_iff.mp hempty]
  · simp

namespace Spot
variable (s : Spot)

/-- The carriage return that may end a line is not in front of the character. -/
theorem lead_isPrefix : s.lead <+: CodeFrame.dropReturn s.line := by
  have hlead : s.lead <+: s.line := List.prefix_append _ _
  rcases CodeFrame.dropReturn_spec s.line with h | ⟨h, -⟩
  · have hlen := congrArg List.length h
    rw [line, List.length_append, List.length_append, List.length_cons, List.length_singleton] at hlen
    rw [h] at hlead
    exact List.prefix_of_prefix_length_le hlead (List.prefix_append _ _) (by rw [line]; omega)
  · rw [← h]
    exact hlead

theorem line_sub_one : s.position.line - 1 = s.above.count '\n' := Int.add_sub_cancel _ _

theorem column_sub_one : s.position.column - 1 = s.lead.length := Int.add_sub_cancel _ _

/-- The row that the editor has for the line of a spot. -/
theorem line?_eq {source : Bytes} (h : Utf8.decode source = s.text) :
    Editor.line? source (s.position.line - 1) = some (White.dropEnd (· == '\r') s.line) := by
  rw [s.line_sub_one, Editor.line?, if_neg (by omega), Int.toNat_natCast,
    Editor.rows_eq, List.getElem?_map, h, s.getElem?_splitOn]
  rfl

/-- Carriage returns are dropped behind the character only. -/
theorem getElem?_row (h : s.char ≠ '\r') :
    (White.dropEnd (· == '\r') s.line)[s.lead.length]? = some s.char := by
  rw [line, White.dropEnd_append_cons (by simpa using h), List.getElem?_append_right (le_refl _),
    Nat.sub_self]
  rfl

/-- The line of a spot with the caret below its character. -/
def frame : CodeFrame := ⟨s.position.line, CodeFrame.dropReturn s.line, s.lead.length⟩

theorem frame_gap : s.gap.frame s.position.line = s.frame := by
  have hline : s.gap.line = s.line := rfl
  have hlead : s.gap.lead = s.lead := rfl
  rw [Gap.frame, hline, hlead, min_eq_left s.lead_isPrefix.length_le]
  rfl

theorem locate?_eq : CodeFrame.locate? s.text s.position = some s.frame := by
  have hoffset : min s.position.offset.toNat s.text.length = s.offset :=
    min_eq_left s.offset_lt.le
  have hline : 0 < s.position.line := by
    have h := s.line_sub_one
    omega
  have htext : s.text ≠ [] := List.ne_nil_of_length_pos (Nat.zero_lt_of_lt s.offset_lt)
  rw [← s.frame_gap]
  exact s.gap.locate?_eq htext hline hoffset

theorem length_padding : s.frame.padding.length = s.lead.length :=
  CodeFrame.length_padding s.lead_isPrefix.length_le

theorem getElem?_padding {k : Nat} (hk : k < s.frame.padding.length) :
    s.frame.padding[k]? = some (if s.line[k]? = some '\t' then '\t' else ' ') := by
  have hshown : k < s.frame.text.length := by
    rw [length_padding] at hk
    exact hk.trans_le s.lead_isPrefix.length_le
  have hchar : s.line[k]? = some s.frame.text[k] :=
    List.prefix_iff_getElem?.mp (CodeFrame.dropReturn_isPrefix s.line) k hshown
  rw [CodeFrame.getElem?_padding hk, hchar, List.getElem?_eq_getElem hshown]

theorem toString_column : toString s.position.column = toString (s.frame.caret + 1) := by
  have hcolumn : s.position.column = (s.frame.caret + 1 : Nat) := rfl
  rw [hcolumn]
  rfl

theorem describe_eq {p : Position} (hp : p = s.position) {gutter : List Char}
    (h : gutter = List.replicate (toString p.line).length ' ') : CodeFrame.describe s.text p =
      s!"  --> line {p.line}, column {p.column}\n {p.line} | {String.ofList s.frame.text}\n" ++
        s!" {String.ofList gutter} | {String.ofList s.frame.padding}^" := by
  subst hp
  have hline : s.frame.line = s.position.line := rfl
  rw [← hline] at h ⊢
  rw [CodeFrame.describe, s.locate?_eq, Option.map_some, Option.getD_some,
    CodeFrame.render_eq _ h, s.toString_column]

end Spot

/-- The positions that reading a text gives out: those of the statements of its program, or those
of its error. -/
inductive Program.Attaches (source : Bytes) : Position → Prop where
  | statement {p : Program} {t : Token} (h : parse source = .ok p) (ht : t ∈ p.body.statements) :
      Attaches source t.pos
  | error {e : ParseError} (h : parse source = .error e) : Attaches source e.pos
  | lexical {e : ParseError} {l : LexError} (h : parse source = .error e)
      (hl : e.lexical? = some l) : Attaches source l.pos

namespace Program

theorem Attaches.exists_index {source : Bytes} {p : Position} (h : Attaches source p) :
    ∃ i c, (Utf8.decode source)[i]? = some c ∧ isBlank c = false ∧
      p = .ofIndex (Utf8.decode source) i := by
  have hstray {c : Char} (hc : Stray c) : isBlank c = false := by
    by_contra hb
    exact not_stray_iff.mpr (Or.inr (by simpa using hb)) hc
  have herror {e : ParseError} (h : parse source = .error e) :
      ∃ i c, (Utf8.decode source)[i]? = some c ∧ isBlank c = false ∧
        e.pos = .ofIndex (Utf8.decode source) i ∧ ∀ l, e.lexical? = some l → l.pos = e.pos := by
    rcases located_of_parse_eq_error h with ⟨i, c, hi, rfl⟩ | ⟨-, -, i, hi, rfl⟩ | ⟨-, -, i, hi, rfl⟩
    · exact ⟨i, c, hi.here, hstray hi.stray, rfl, fun l hl => by cases hl; rfl⟩
    · exact ⟨i, ']', hi.closes, rfl, rfl, by simp⟩
    · exact ⟨i, '[', hi.opens, rfl, rfl, by simp⟩
  cases h with
  | @statement p t h ht =>
    obtain ⟨-, -, hspells⟩ := parse_eq_ok_iff.mp h
    rw [hspells.statements_eq] at ht
    obtain ⟨front, back, hts⟩ := List.append_of_mem (List.mem_of_mem_filter ht)
    obtain ⟨before, after, hcs, hpos, -, -⟩ := Token.exists_of_ofPart_eq hts
    refine ⟨before.length, _, ?_, Symbol.isBlank_toChar t.symbol, ?_⟩
    · rw [hcs]
      simp
    · rw [hpos, Nat.zero_add]
  | error h =>
    obtain ⟨i, c, hi, hc, hpos, -⟩ := herror h
    exact ⟨i, c, hi, hc, hpos⟩
  | lexical h hl =>
    obtain ⟨i, c, hi, hc, hpos, hlex⟩ := herror h
    exact ⟨i, c, hi, hc, (hlex _ hl).trans hpos⟩

/-- A position that reading gives out is inside the text, counts the line feeds before it and the
characters since the last of them, and is where the editor and the frames find the same character.
A frame shows the line without a carriage return at its end, with tabs below its tabs up to the
caret. -/
theorem places_agree {source : Bytes} {p : Position} (h : Attaches source p) :
    ∃ s : Spot, s.text = Utf8.decode source ∧
      p.offset = s.offset ∧ s.offset < (Utf8.decode source).length ∧
      (Utf8.decode source)[s.offset]? = some s.char ∧
      p.line - 1 = ((Utf8.decode source).take s.offset).count '\n' ∧
      (Utf8.decode source).take s.offset = s.above ++ s.lead ∧ p.column - 1 = s.lead.length ∧
      ((Utf8.decode source).splitOn '\n')[(p.line - 1).toNat]? = some s.line ∧
      (∃ row, Editor.line? source (p.line - 1) = some row ∧
        row[(p.column - 1).toNat]? = some s.char) ∧
      ∃ shown gutter padding : List Char,
        (s.line = shown ++ ['\r'] ∨ s.line = shown ∧ shown.getLast? ≠ some '\r') ∧
        gutter = List.replicate (toString p.line).length ' ' ∧
        padding.length = (p.column - 1).toNat ∧
        (∀ k < padding.length,
          padding[k]? = some (if s.line[k]? = some '\t' then '\t' else ' ')) ∧
        CodeFrame.describe (Utf8.decode source) p =
          s!"  --> line {p.line}, column {p.column}\n {p.line} | {String.ofList shown}\n" ++
            s!" {String.ofList gutter} | {String.ofList padding}^" := by
  obtain ⟨i, c, hi, hblank, rfl⟩ := h.exists_index
  have hfeed : c ≠ '\n' := by
    rintro rfl
    cases hblank
  obtain ⟨s, htext, rfl, rfl⟩ := Spot.exists_of_getElem? hi hfeed
  -- No carriage return that is dropped stands at the character or before it.
  have hreturn : s.char ≠ '\r' := by
    intro hr
    rw [hr] at hblank
    cases hblank
  have hrow := s.line?_eq htext.symm
  rw [← htext, ← s.position_eq, s.column_sub_one, Int.toNat_natCast]
  refine ⟨s, rfl, rfl, s.offset_lt, s.getElem?_offset, ?_, s.take_offset, rfl, ?_,
    ⟨_, hrow, s.getElem?_row hreturn⟩, s.frame.text, _, s.frame.padding,
    CodeFrame.dropReturn_spec s.line, rfl, s.length_padding, fun k => s.getElem?_padding,
    s.describe_eq rfl rfl⟩
  · rw [s.count_take, s.line_sub_one]
  · rw [s.line_sub_one, Int.toNat_natCast, s.getElem?_splitOn]

/-- A truncated sequence behind a tab, on a line that ends with a carriage return. -/
theorem places_agree_truncated :
    Attaches [0x2B, 0x0A, 0x09, 0xE2, 0x0D, 0x0A] ⟨3, 2, 2⟩ ∧
    ∃ s : Spot, s.text = ['+', '\n', '\t', Utf8.replacement, '\r', '\n'] ∧ s.offset = 3 ∧
      ∃ row, Editor.line? [0x2B, 0x0A, 0x09, 0xE2, 0x0D, 0x0A] 1 = some row ∧
        row[1]? = some s.char := by
  have h : Attaches [0x2B, 0x0A, 0x09, 0xE2, 0x0D, 0x0A] ⟨3, 2, 2⟩ :=
    .error (e := .ofLexError (.unexpected Utf8.replacement ⟨3, 2, 2⟩)) rfl
  obtain ⟨s, htext, hoffset, -, -, -, -, -, -, hrow, -⟩ := places_agree h
  exact ⟨h, s, htext, (Int.ofNat.inj hoffset).symm, hrow⟩

end Program
end TapeLang
