import Mathlib.Algebra.GroupWithZero.Nat
import TapeLang.Editor.Diagnostic
import TapeLang.Proofs.DeadLoops
import TapeLang.Proofs.Places

/-! Problems as the editor marks them: one for the error of a text that is no program, and otherwise one
for each warning. A mark begins after the UTF-16 units that are before the offending character on its
line and is as wide as that character. -/
namespace TapeLang

namespace Editor

theorem unitLength_eq (cs : List Char) : unitLength cs = (cs.map units).sum := by
  induction cs with
  | nil => rfl
  | cons c cs ih =>
    rw [List.map_cons, List.sum_cons, ← ih]
    rfl

theorem unitsBefore_append (lead rest : List Char) :
    unitsBefore (lead ++ rest) lead.length = (lead.map units).sum := by
  rw [unitsBefore, List.take_left, List.length_append, Nat.sub_eq_zero_of_le (Nat.le_add_right _ _),
    Nat.add_zero, unitLength_eq]

theorem units_eq (c : Char) : units c = if 0xFFFF < c.toNat then 2 else 1 := by
  unfold units
  split_ifs <;> omega

/-- A diagnostic marks exactly the character of a spot: on its line, behind the units of what comes
before it, as wide as the character, and not past the end of the line. -/
structure Diagnostic.Marks (d : Diagnostic) (s : Spot) : Prop where
  line : (d.line : Int) = s.position.line - 1
  isLine : (s.text.splitOn '\n')[d.line]? = some s.line
  first : d.first = (s.lead.map units).sum
  width : d.last = d.first + if 0xFFFF < s.char.toNat then 2 else 1
  last : d.last ≤ ((White.dropEnd (· == '\r') s.line).map units).sum

end Editor

namespace Spot
variable (s : Spot)

/-- The row of a spot goes on behind its character, without the carriage returns at its end. -/
theorem row_eq (h : s.char ≠ '\r') : White.dropEnd (· == '\r') s.line =
    s.lead ++ s.char :: White.dropEnd (· == '\r') s.trail :=
  White.dropEnd_append_cons (by simpa using h) s.lead s.trail

theorem getElem?_rows {source : Bytes} (h : s.text = Utf8.decode source) :
    (Editor.rows source)[s.above.count '\n']? = some (White.dropEnd (· == '\r') s.line) := by
  rw [Editor.rows_eq, List.getElem?_map, ← h, s.getElem?_splitOn]
  rfl

end Spot

namespace Editor

/-- What is marked at a spot. -/
theorem mark_eq {source : Bytes} {s : Spot} (htext : s.text = Utf8.decode source)
    (hreturn : s.char ≠ '\r') (severity : Severity) (message : String) :
    mark (rows source) s.position severity message =
      let first := (s.lead.map units).sum
      ⟨s.above.count '\n', first, first + units s.char, severity, message⟩ := by
  have hline : (s.position.line - 1).toNat = s.above.count '\n' := by
    rw [s.line_sub_one, Int.toNat_natCast]
  have hcolumn : (s.position.column - 1).toNat = s.lead.length := by
    rw [s.column_sub_one, Int.toNat_natCast]
  have hpositive : ¬ s.position.column < 1 := by
    have h := s.column_sub_one
    omega
  have hchar : (s.lead ++ s.char :: White.dropEnd (· == '\r') s.trail)[s.lead.length]? =
      some s.char := by
    rw [← s.row_eq hreturn]
    exact s.getElem?_row hreturn
  unfold mark
  dsimp only
  rw [hline, hcolumn, s.getElem?_rows htext, Option.getD_some, s.row_eq hreturn,
    unitsBefore_append, if_neg hpositive, hchar]
  rfl

theorem marks_mark {source : Bytes} {s : Spot} (htext : s.text = Utf8.decode source)
    (hreturn : s.char ≠ '\r') (severity : Severity) (message : String) :
    (mark (rows source) s.position severity message).Marks s := by
  rw [mark_eq htext hreturn]
  refine ⟨?_, s.getElem?_splitOn, rfl, ?_, ?_⟩
  · rw [s.line_sub_one]
  · rw [← units_eq]
  · rw [s.row_eq hreturn, List.map_append, List.map_cons, List.sum_append, List.sum_cons]
    dsimp only
    omega

end Editor

theorem Program.Attaches.exists_spot {source : Bytes} {p : Position} (h : Attaches source p) :
    ∃ s : Spot, s.text = Utf8.decode source ∧ s.position = p ∧ s.char ≠ '\r' := by
  obtain ⟨i, c, hi, hblank, rfl⟩ := h.exists_index
  -- A place is never one of a blank, and so neither of a line feed nor of a carriage return.
  have hne {d : Char} (hd : isBlank d = true) : c ≠ d := by
    rintro rfl
    rw [hblank] at hd
    cases hd
  obtain ⟨s, htext, rfl, rfl⟩ := Spot.exists_of_getElem? hi (hne rfl)
  exact ⟨s, htext, by rw [← htext, s.position_eq], hne rfl⟩

/-- A warning is about a statement. -/
theorem Lint.Flags.exists_statement {w : Warning} {blank : Bool} {previous? : Option Symbol}
    {b : Block} (h : Flags w blank previous? b) : ∃ t ∈ b.statements, t.pos = w.pos := by
  induction b generalizing blank previous? with
  | done => exact h.elim
  | act i p next ih =>
    rcases h with ⟨hpos, -⟩ | h
    · exact ⟨_, List.mem_cons_self, hpos.symm⟩
    · obtain ⟨t, ht, hpos⟩ := ih h
      exact ⟨t, List.mem_cons_of_mem _ ht, hpos⟩
  | loop p body next ihb ih =>
    rcases h with ⟨hpos, -⟩ | h | h
    · exact ⟨_, List.mem_cons_self, hpos.symm⟩
    · obtain ⟨t, ht, hpos⟩ := ihb h
      exact ⟨t, List.mem_cons_of_mem _ (List.mem_append_left _ ht), hpos⟩
    · obtain ⟨t, ht, hpos⟩ := ih h
      exact ⟨t, List.mem_cons_of_mem _ (List.mem_append_right _ ht), hpos⟩

theorem Program.attaches_warning {source : Bytes} {p : Program} (hp : parse source = .ok p)
    {w : Warning} (hw : w ∈ p.warnings) : Attaches source w.pos := by
  obtain ⟨t, ht, hpos⟩ := (Lint.mem_warnings_iff.mp hw).exists_statement
  rw [← hpos]
  exact .statement hp ht

/-- The words for an error are those of its lexical part, or else its kind. -/
theorem ParseError.Located.detail_eq {cs : List Char} {e : ParseError} (h : Located cs e) :
    e.detail = (e.lexical?.map LexError.detail).getD e.kind.name ∧
      ∀ l, e.lexical? = some l → l.pos = e.pos := by
  rcases h with ⟨i, c, -, rfl⟩ | ⟨-, -, i, -, rfl⟩ | ⟨-, -, i, -, rfl⟩
  · refine ⟨rfl, fun l hl => ?_⟩
    cases hl
    rfl
  · exact ⟨rfl, nofun⟩
  · exact ⟨rfl, nofun⟩

namespace Editor

theorem exists_mark {source : Bytes} {p : Position} (h : Program.Attaches source p)
    (severity : Severity) (message : String) :
    ∃ s : Spot, s.text = Utf8.decode source ∧ s.position = p ∧
      (mark (rows source) p severity message).Marks s := by
  obtain ⟨s, htext, rfl, hreturn⟩ := h.exists_spot
  exact ⟨s, htext, rfl, marks_mark htext hreturn severity message⟩

theorem diagnose_of_error {source : Bytes} {e : ParseError}
    (h : Program.parse source = .error e) :
    diagnose source = [mark (rows source) e.pos .error e.detail] := by
  unfold diagnose
  rw [h]

theorem diagnose_of_ok {source : Bytes} {p : Program} (h : Program.parse source = .ok p) :
    diagnose source =
      p.warnings.map fun w => mark (rows source) w.pos .warning w.issue.message := by
  unfold diagnose
  rw [h]

/-- There is a single diagnostic of an error exactly for the texts that are rejected, and it has the
words of that error and marks the character at its place. A program has one diagnostic for each
warning, in the same order, with its words, that marks the character at its place. -/
theorem diagnose_marks (source : Bytes) :
    ((∃ d, diagnose source = [d] ∧ d.severity.code = 1) ↔
      ∃ e, Program.parse source = .error e) ∧
    (∀ e, Program.parse source = .error e →
      (∀ l, e.lexical? = some l → l.pos = e.pos) ∧
      ∃ (d : Diagnostic) (s : Spot), diagnose source = [d] ∧ d.severity.code = 1 ∧
        d.message = (e.lexical?.map LexError.detail).getD e.kind.name ∧
        s.text = Utf8.decode source ∧ s.position = e.pos ∧ d.Marks s) ∧
    ∀ p, Program.parse source = .ok p →
      List.Forall₂ (fun w d => d.severity.code = 2 ∧ d.message = w.issue.message ∧
        ∃ s : Spot, s.text = Utf8.decode source ∧ s.position = w.pos ∧ d.Marks s)
        p.warnings (diagnose source) := by
  refine ⟨⟨?_, ?_⟩, ?_, ?_⟩
  · rintro ⟨d, hd, hcode⟩
    cases hp : Program.parse source with
    | error e => exact ⟨e, rfl⟩
    | ok p =>
      rw [diagnose_of_ok hp] at hd
      obtain ⟨w, -, rfl⟩ := List.mem_map.mp (hd ▸ List.mem_singleton_self d)
      cases hcode
  · rintro ⟨e, he⟩
    exact ⟨_, diagnose_of_error he, rfl⟩
  · intro e he
    obtain ⟨hdetail, hpos⟩ := (Program.located_of_parse_eq_error he).detail_eq
    obtain ⟨s, htext, hs, hmarks⟩ := exists_mark (.error he) .error e.detail
    exact ⟨hpos, _, s, diagnose_of_error he, rfl, hdetail, htext, hs, hmarks⟩
  · intro p hp
    -- Both lists are made of the warnings, so it is enough to compare them warning by warning.
    rw [diagnose_of_ok hp, List.forall₂_map_right_iff, List.forall₂_same]
    intro w hw
    exact ⟨rfl, rfl, exists_mark (Program.attaches_warning hp hw) .warning w.issue.message⟩

/-- A stray character of two units on the second line, and a pair of instructions that cancel each
other around a carriage return. -/
theorem diagnose_marks_astral :
    let stray : Bytes := [0x2B, 0x0A, 0x2D, 0xF0, 0x9F, 0x98, 0x80, 0x0D]
    let lexical : LexError := .unexpected '😀' ⟨3, 2, 2⟩
    let pair : Bytes := [0x2B, 0x0D, 0x2D]
    let p : Program := ⟨.act .increment ⟨0, 1, 1⟩ (.act .decrement ⟨2, 1, 3⟩ .done), pair⟩
    let w : Warning := ⟨⟨2, 1, 3⟩, .cancels .increment .decrement⟩
    Program.parse stray = .error (.ofLexError lexical) ∧
      (∃ s : Spot, s.position = ⟨3, 2, 2⟩ ∧
        Diagnostic.Marks ⟨1, 1, 3, .error, lexical.detail⟩ s) ∧
      Program.parse pair = .ok p ∧ p.warnings = [w] ∧
      ∃ s : Spot, s.position = ⟨2, 1, 3⟩ ∧
        Diagnostic.Marks ⟨0, 2, 3, .warning, w.issue.message⟩ s := by
  intro stray lexical pair p w
  -- With the characters given, neither the parser nor the rows decode the long sequence again.
  have hdecode : Utf8.decode stray = ['+', '\n', '-', '😀', '\r'] := by decide
  have hstray : Program.parse stray = .error (.ofLexError lexical) := by
    unfold Program.parse
    rw [hdecode]
    rfl
  have hpair : Program.parse pair = .ok p := rfl
  have hwarnings : p.warnings = [w] := List.mergeSort_singleton w
  obtain ⟨-, herror, -⟩ := diagnose_marks stray
  obtain ⟨-, d, s, hd, -, -, -, hs, hmarks⟩ := herror _ hstray
  rw [diagnose_of_error hstray, rows_eq, hdecode] at hd
  have hd : d = ⟨1, 1, 3, .error, lexical.detail⟩ := (List.singleton_inj.mp hd).symm
  obtain ⟨-, -, hok⟩ := diagnose_marks pair
  have hall := hok p hpair
  rw [hwarnings, diagnose_of_ok hpair, hwarnings] at hall
  obtain ⟨-, -, t, -, ht, hmarked⟩ := (List.forall₂_cons.mp hall).1
  exact ⟨hstray, ⟨s, hs, hd ▸ hmarks⟩, hpair, hwarnings, t, ht, hmarked⟩

end Editor
end TapeLang
