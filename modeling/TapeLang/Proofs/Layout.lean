import TapeLang.Program.Layout
import TapeLang.Proofs.Parse

/-! The canonical layout read back: a program keeps its tree, and laying it out once more changes
nothing. -/
namespace TapeLang

/-- A tree without its positions. -/
def Block.bare : Block → Block
  | .done => .done
  | .act i _ next => .act i .start next.bare
  | .loop _ body next => .loop .start body.bare next.bare

namespace Block

/-- The symbols alone spell the tree without its positions. -/
theorem spells_bare (b : Block) :
    Spells b.bare (b.symbols.map (fun s => (⟨s, .start⟩ : Token))) := by
  induction b with
  | done => exact .done
  | act i p next ih => exact .act ih
  | loop p body next ihb ih => simpa [bare, symbols] using Spells.loop ihb ih

theorem symbols_bare (b : Block) : b.bare.symbols = b.symbols := by
  simpa [Function.comp_def] using (spells_bare b).symbols_eq

/-- The symbols of a tree are the tree up to positions. -/
theorem bare_eq_iff {a b : Block} : a.bare = b.bare ↔ a.symbols = b.symbols := by
  constructor
  · intro h
    rw [← symbols_bare a, h, symbols_bare]
  · intro h
    exact (spells_bare a).unique (h ▸ spells_bare b)

end Block

namespace Layout

theorem Line.readable_chars (l : Line) : Token.Readable l.chars := by
  intro c hc
  rw [Line.chars, List.mem_append, List.mem_append, List.mem_singleton] at hc
  rcases hc with (hc | hc) | rfl
  · rw [List.eq_of_mem_replicate hc]
    exact Or.inr rfl
  · left
    rcases l with ⟨_, is | _ | _ | _⟩ <;> simp only [Content.chars, List.mem_map, List.mem_cons,
      List.not_mem_nil, or_false] at hc
    · obtain ⟨i, -, rfl⟩ := hc
      exact Option.isSome_of_mem (Symbol.ofChar?_toChar (.act i))
    · rcases hc with rfl | rfl <;> rfl
    · rw [hc]; rfl
    · rw [hc]; rfl
  · exact Or.inr rfl

/-- The symbols on lines given last first. -/
private def symbolsOf (acc : List Line) : List Symbol :=
  (acc.reverse.flatMap Line.chars).filterMap Symbol.ofChar?

private theorem symbolsOf_cons (l : Line) (acc : List Line) :
    symbolsOf (l :: acc) = symbolsOf acc ++ l.content.chars.filterMap Symbol.ofChar? := by
  have hindent : (List.replicate (2 * l.depth) ' ').filterMap Symbol.ofChar? = [] := by
    rw [List.filterMap_eq_nil_iff]
    intro c hc
    rw [List.eq_of_mem_replicate hc]
    rfl
  have hfeed : Symbol.ofChar? '\n' = none := rfl
  simp [symbolsOf, Line.chars, hindent, hfeed]

private theorem symbols_run (is : List Instr) :
    (Content.run is).chars.filterMap Symbol.ofChar? = is.map Symbol.act := by
  induction is with
  | nil => rfl
  | cons i is ih =>
    have hi : Symbol.ofChar? i.toChar = some (.act i) := Symbol.ofChar?_toChar (.act i)
    rw [Content.chars, List.map_cons, List.filterMap_cons_some hi]
    exact congrArg _ ih

private theorem symbolsOf_endRun (depth : Nat) (run : List Instr) (acc : List Line) :
    symbolsOf (endRun depth run acc) = symbolsOf acc ++ run.reverse.map Symbol.act := by
  unfold endRun
  cases run with
  | nil => simp
  | cons i run =>
    rw [if_neg (by simp), symbolsOf_cons, symbols_run]

/-- No instruction is lost: what is pending comes before the rest of the block. -/
private theorem symbolsOf_linesFrom (depth : Nat) (run : List Instr) (acc : List Line)
    (b : Block) :
    symbolsOf (linesFrom depth run acc b) =
      symbolsOf acc ++ run.reverse.map Symbol.act ++ b.symbols := by
  have hempty : Content.emptyLoop.chars.filterMap Symbol.ofChar? = [.opening, .closing] := rfl
  have hopening : Content.opening.chars.filterMap Symbol.ofChar? = [.opening] := rfl
  have hclosing : Content.closing.chars.filterMap Symbol.ofChar? = [.closing] := rfl
  fun_induction linesFrom depth run acc b with
  | case1 depth run acc => simp [symbolsOf_endRun, Block.symbols]
  | case2 depth run acc i p next ih => simp [ih, Block.symbols]
  | case3 depth run acc p next ih =>
    simp [ih, symbolsOf_cons, symbolsOf_endRun, hempty, Block.symbols]
  | case4 depth run acc p body next hbody opened ihb ih =>
    simp [ih, ihb, opened, symbolsOf_cons, symbolsOf_endRun, hopening, hclosing, Block.symbols]

theorem symbols_chars (b : Block) : (chars b).filterMap Symbol.ofChar? = b.symbols := by
  have h := symbolsOf_linesFrom 0 [] [] b
  simpa [symbolsOf, chars, lines] using h

private theorem linesFrom_bare (depth : Nat) (run : List Instr) (acc : List Line) (b : Block) :
    linesFrom depth run acc b.bare = linesFrom depth run acc b := by
  fun_induction linesFrom depth run acc b with
  | case1 depth run acc => rfl
  | case2 depth run acc i p next ih => exact ih
  | case3 depth run acc p next ih => exact ih
  | case4 depth run acc p body next hbody opened ihb ih =>
    have hb : body.bare ≠ .done := by
      cases body <;> simp_all [Block.bare]
    rw [Block.bare, linesFrom, ihb, ih]
    exact hb

theorem chars_bare (b : Block) : chars b.bare = chars b := by
  rw [chars, lines, linesFrom_bare]
  rfl

theorem readable_chars (b : Block) : Token.Readable (chars b) := by
  intro c hc
  obtain ⟨l, -, hl⟩ := List.mem_flatMap.mp hc
  exact l.readable_chars c hl

/-- The tokens of a tree's layout spell a tree with the same symbols. -/
theorem exists_spells_chars (b : Block) :
    ∃ d : Block, d.Spells (Token.ofText (chars b)) ∧ d.bare = b.bare := by
  have hsym : (Token.ofText (chars b)).map Token.symbol = b.symbols := by
    rw [Token.ofText, Token.symbol_ofPart, symbols_chars]
  have hbal : Brackets.Balanced Symbol.opening Symbol.closing b.symbols := by
    simpa [Function.comp_def] using b.spells_bare.balanced
  obtain ⟨d, hd⟩ := Block.exists_spells_iff.mpr (hsym ▸ hbal)
  exact ⟨d, hd, Block.bare_eq_iff.mpr (hd.symbols_eq.trans hsym)⟩

end Layout

namespace Program

theorem format_eq_of_bare {p q : Program} (h : p.body.bare = q.body.bare) :
    p.format = q.format := by
  rw [format, ← Layout.chars_bare, h, Layout.chars_bare, ← format]

theorem exists_parse_format (p : Program) :
    ∃ q, parse p.format = .ok q ∧ q.body.bare = p.body.bare := by
  obtain ⟨d, hd, hbare⟩ := Layout.exists_spells_chars p.body
  have hdecode : Utf8.decode p.format = Layout.chars p.body := Utf8.decode_encode _
  refine ⟨⟨d, p.format⟩, parse_eq_ok_iff.mpr ⟨?_, rfl, ?_⟩, hbare⟩
  · rw [hdecode]
    exact Layout.readable_chars p.body
  · rw [hdecode]
    exact hd

/-- Every program's layout is read as the same tree, and is its own layout. -/
theorem format_roundtrip :
    (∀ p : Program, ∃ q, parse p.format = .ok q ∧ q.body.bare = p.body.bare ∧
      q.format = p.format) ∧
    ∀ source p, parse source = .ok p →
      formatSource source = .ok p.format ∧ formatSource p.format = .ok p.format := by
  have hformat (p : Program) : ∃ q, parse p.format = .ok q ∧ q.body.bare = p.body.bare ∧
      q.format = p.format := by
    obtain ⟨q, hq, hbare⟩ := exists_parse_format p
    exact ⟨q, hq, hbare, format_eq_of_bare hbare⟩
  refine ⟨hformat, ?_⟩
  intro source p hp
  obtain ⟨q, hq, -, hfix⟩ := hformat p
  refine ⟨?_, ?_⟩
  · rw [formatSource, hp]
    rfl
  · rw [formatSource, hq]
    exact congrArg Except.ok hfix

theorem format_roundtrip_nested :
    formatSource [0x5B, 0x2B, 0x5B, 0x5D, 0x5D] = .ok (Bytes.ofString "[\n  +\n  []\n]\n") ∧
      formatSource (Bytes.ofString "[\n  +\n  []\n]\n") =
        .ok (Bytes.ofString "[\n  +\n  []\n]\n") := by
  let p : Program := ⟨.loop ⟨0, 1, 1⟩ (.act .increment ⟨1, 1, 2⟩ (.loop ⟨2, 1, 3⟩ .done .done))
    .done, [0x5B, 0x2B, 0x5B, 0x5D, 0x5D]⟩
  have hp : parse [0x5B, 0x2B, 0x5B, 0x5D, 0x5D] = .ok p := rfl
  exact format_roundtrip.2 _ p hp

end Program
end TapeLang
