import Mathlib.Data.Set.List
import TapeLang.Command.Format
import TapeLang.Proofs.Layout

/-! The texts that the canonical layout produces, told line by line: how far a line is indented,
what it holds, and which lines may follow each other. These are the texts that are their own
layout. -/
namespace TapeLang
namespace Layout

/-- Instructions and nothing else, at least one. -/
def IsRun (cs : List Char) : Prop := cs ≠ [] ∧ ∀ c ∈ cs, c ∈ "><+-.,".toList

instance (cs : List Char) : Decidable (IsRun cs) :=
  decidable_of_iff (cs ≠ [] ∧ cs.all (· ∈ "><+-.,".toList) = true) (by simp [IsRun])

/-- A text that may go on at some depth behind a line that holds `previous` after its indentation.
A closing bracket is indented as the loop that it ends. -/
inductive Canonical : Nat → List Char → List Char → Prop where
  | done {previous : List Char} : Canonical 0 previous []
  | run {depth : Nat} {previous content rest : List Char} (hrun : IsRun content)
      (hprevious : ¬ IsRun previous) (h : Canonical depth content rest) :
      Canonical depth previous (List.replicate (2 * depth) ' ' ++ content ++ ['\n'] ++ rest)
  | emptyLoop {depth : Nat} {previous rest : List Char} (h : Canonical depth ['[', ']'] rest) :
      Canonical depth previous (List.replicate (2 * depth) ' ' ++ ['[', ']'] ++ ['\n'] ++ rest)
  | opening {depth : Nat} {previous rest : List Char} (h : Canonical (depth + 1) ['['] rest) :
      Canonical depth previous (List.replicate (2 * depth) ' ' ++ ['['] ++ ['\n'] ++ rest)
  | closing {depth : Nat} {previous rest : List Char} (hprevious : previous ≠ ['['])
      (h : Canonical depth [']'] rest) :
      Canonical (depth + 1) previous (List.replicate (2 * depth) ' ' ++ [']'] ++ ['\n'] ++ rest)

/-- What a block is written as at some depth, with instructions pending before it. -/
def written (depth : Nat) (run : List Instr) (b : Block) : List Char :=
  (linesFrom depth run [] b).reverse.flatMap Line.chars

/-- What pending instructions, last first, are written as. -/
def runChars (depth : Nat) (run : List Instr) : List Char :=
  (endRun depth run []).reverse.flatMap Line.chars

theorem endRun_append (depth : Nat) (run : List Instr) (acc : List Line) :
    endRun depth run acc = endRun depth run [] ++ acc := by
  unfold endRun
  split_ifs <;> rfl

theorem linesFrom_loop (depth : Nat) (run : List Instr) (acc : List Line) (p : Position)
    {body : Block} (hbody : body ≠ .done) (next : Block) :
    linesFrom depth run acc (.loop p body next) =
      linesFrom depth [] (⟨depth, .closing⟩ ::
        linesFrom (depth + 1) [] (⟨depth, .opening⟩ :: endRun depth run acc) body) next := by
  rw [linesFrom]
  exact hbody

/-- The lines so far are kept as they are. -/
theorem linesFrom_append (depth : Nat) (run : List Instr) (acc : List Line) (b : Block) :
    linesFrom depth run acc b = linesFrom depth run [] b ++ acc := by
  induction b generalizing depth run acc with
  | done => exact endRun_append depth run acc
  | act i p next ih => exact ih depth (i :: run) acc
  | loop p body next ihb ih =>
    by_cases hbody : body = .done
    · rw [hbody, linesFrom, linesFrom, ih, ih depth [] (_ :: endRun depth run []), endRun_append]
      simp
    · rw [linesFrom_loop _ _ _ _ hbody, linesFrom_loop _ _ _ _ hbody, ih,
        ih depth [] (_ :: linesFrom _ _ _ _), ihb, ihb (depth + 1) [] (_ :: endRun depth run []),
        endRun_append]
      simp

theorem written_done (depth : Nat) (run : List Instr) :
    written depth run .done = runChars depth run := rfl

theorem written_act (depth : Nat) (run : List Instr) (i : Instr) (p : Position) (next : Block) :
    written depth run (.act i p next) = written depth (i :: run) next := rfl

theorem written_emptyLoop (depth : Nat) (run : List Instr) (p : Position) (next : Block) :
    written depth run (.loop p .done next) =
      runChars depth run ++ (⟨depth, .emptyLoop⟩ : Line).chars ++ written depth [] next := by
  unfold written runChars
  rw [linesFrom, linesFrom_append, endRun_append]
  simp

theorem written_loop (depth : Nat) (run : List Instr) (p : Position) {body : Block}
    (hbody : body ≠ .done) (next : Block) :
    written depth run (.loop p body next) =
      runChars depth run ++ (⟨depth, .opening⟩ : Line).chars ++ written (depth + 1) [] body ++
        (⟨depth, .closing⟩ : Line).chars ++ written depth [] next := by
  unfold written runChars
  rw [linesFrom_loop _ _ _ _ hbody, linesFrom_append depth, linesFrom_append (depth + 1),
    endRun_append]
  simp

theorem runChars_nil (depth : Nat) : runChars depth [] = [] := rfl

theorem runChars_of_ne_nil (depth : Nat) {run : List Instr} (h : run ≠ []) :
    runChars depth run =
      List.replicate (2 * depth) ' ' ++ run.reverse.map Instr.toChar ++ ['\n'] := by
  unfold runChars endRun
  rw [if_neg (by simpa using h)]
  simp [Line.chars, Content.chars]

theorem mem_instructions_iff {c : Char} : c ∈ "><+-.,".toList ↔ ∃ i : Instr, c = i.toChar := by
  constructor
  · intro h
    simp at h
    rcases h with rfl | rfl | rfl | rfl | rfl | rfl
    · exact ⟨.right, rfl⟩
    · exact ⟨.left, rfl⟩
    · exact ⟨.increment, rfl⟩
    · exact ⟨.decrement, rfl⟩
    · exact ⟨.output, rfl⟩
    · exact ⟨.input, rfl⟩
  · rintro ⟨i, rfl⟩
    cases i <;> decide

theorem isRun_iff {cs : List Char} :
    IsRun cs ↔ ∃ is : List Instr, is ≠ [] ∧ is.map Instr.toChar = cs := by
  have hrange : (∃ is : List Instr, is.map Instr.toChar = cs) ↔ ∀ c ∈ cs, c ∈ "><+-.,".toList := by
    simp only [mem_instructions_iff, eq_comm (b := Instr.toChar _)]
    exact Set.ext_iff.mp (Set.range_list_map Instr.toChar) cs
  unfold IsRun
  rw [← hrange]
  constructor
  · rintro ⟨hne, is, rfl⟩
    exact ⟨is, by simpa using hne, rfl⟩
  · rintro ⟨is, hne, rfl⟩
    exact ⟨by simpa using hne, is, rfl⟩

theorem not_isRun_of_mem_brackets {cs : List Char} (h : '[' ∈ cs ∨ ']' ∈ cs) : ¬ IsRun cs := by
  rintro ⟨-, hall⟩
  rcases h with h | h
  · exact absurd (hall _ h) (by decide)
  · exact absurd (hall _ h) (by decide)

/-- Pending instructions get a line of their own. -/
theorem canonical_runChars {depth : Nat} {run : List Instr} {previous rest : List Char}
    (hprevious : ¬ IsRun previous) (hnone : run = [] → Canonical depth previous rest)
    (hsome : ∀ content, IsRun content → Canonical depth content rest) :
    Canonical depth previous (runChars depth run ++ rest) := by
  by_cases hrun : run = []
  · rw [hrun, runChars_nil]
    exact hnone hrun
  · have hcontent : IsRun (run.reverse.map Instr.toChar) :=
      isRun_iff.mpr ⟨run.reverse, by simpa using hrun, rfl⟩
    rw [runChars_of_ne_nil depth hrun]
    exact .run hcontent hprevious (hsome _ hcontent)

/-- Whatever may stand behind a block may stand behind its layout. -/
theorem canonical_written {b : Block} {depth : Nat} {run : List Instr} {previous rest : List Char}
    (hprevious : ¬ IsRun previous) (hempty : run = [] → b = .done → previous ≠ ['['])
    (hrest : ∀ last, last ≠ ['['] → Canonical depth last rest) :
    Canonical depth previous (written depth run b ++ rest) := by
  have hopen (content : List Char) (h : IsRun content) : content ≠ ['['] := by
    rintro rfl
    exact not_isRun_of_mem_brackets (Or.inl (by simp)) h
  induction b generalizing depth run previous rest with
  | done =>
    rw [written_done]
    exact canonical_runChars hprevious (fun hrun => hrest _ (hempty hrun rfl))
      (fun content hcontent => hrest _ (hopen content hcontent))
  | act i p next ih =>
    rw [written_act]
    exact ih hprevious (by simp) hrest
  | loop p body next ihb ih =>
    by_cases hbody : body = .done
    · have hnext : Canonical depth ['[', ']'] (written depth [] next ++ rest) :=
        ih (not_isRun_of_mem_brackets (Or.inl (by simp))) (by simp) hrest
      rw [hbody, written_emptyLoop, List.append_assoc, List.append_assoc]
      exact canonical_runChars hprevious (fun _ => .emptyLoop hnext) (fun _ _ => .emptyLoop hnext)
    · have hnext : Canonical depth [']'] (written depth [] next ++ rest) :=
        ih (not_isRun_of_mem_brackets (Or.inr (by simp))) (by simp) hrest
      have hinside : Canonical (depth + 1) ['['] (written (depth + 1) [] body ++
          ((⟨depth, .closing⟩ : Line).chars ++ (written depth [] next ++ rest))) :=
        ihb (not_isRun_of_mem_brackets (Or.inl (by simp))) (fun _ h => absurd h hbody)
          (fun last hlast => .closing hlast hnext)
      rw [written_loop depth run p hbody, List.append_assoc, List.append_assoc, List.append_assoc,
        List.append_assoc]
      exact canonical_runChars hprevious (fun _ => .opening hinside) (fun _ _ => .opening hinside)

/-- Instructions before a block. -/
def acts (is : List Instr) (b : Block) : Block := is.foldr (fun i next => .act i .start next) b

theorem written_acts (depth : Nat) (run is : List Instr) (b : Block) :
    written depth run (acts is b) = written depth (is.reverse ++ run) b := by
  induction is generalizing run with
  | nil => rfl
  | cons i is ih =>
    have hcons : acts (i :: is) b = .act i .start (acts is b) := rfl
    rw [hcons, written_act, ih]
    simp

/-- Only more instructions go on with a line. -/
theorem written_eq_append {b : Block} (h : ∀ i p next, b ≠ .act i p next) (depth : Nat)
    (run : List Instr) : written depth run b = runChars depth run ++ written depth [] b := by
  cases b with
  | done => simp [written_done, runChars_nil]
  | act i p next => exact absurd rfl (h i p next)
  | loop p body next =>
    by_cases hbody : body = .done
    · rw [hbody, written_emptyLoop, written_emptyLoop, runChars_nil]
      simp
    · rw [written_loop _ _ _ hbody, written_loop _ _ _ hbody, runChars_nil]
      simp

/-- A text is what is left to write at some depth: a block, and for each loop around it a closing
bracket and what is left outside. -/
def Unfolds : Nat → Block → List Char → Prop
  | 0, b, cs => cs = written 0 [] b
  | depth + 1, b, cs => ∃ next rest, Unfolds depth next rest ∧
      cs = written (depth + 1) [] b ++ ((⟨depth, .closing⟩ : Line).chars ++ rest)

theorem Unfolds.extend {depth : Nat} {b c : Block} {cs front : List Char} (h : Unfolds depth b cs)
    (hc : written depth [] c = front ++ written depth [] b) : Unfolds depth c (front ++ cs) := by
  cases depth with
  | zero =>
    rw [Unfolds] at h ⊢
    rw [h, hc]
  | succ depth =>
    obtain ⟨next, rest, hnext, rfl⟩ := h
    exact ⟨next, rest, hnext, by rw [hc, List.append_assoc]⟩

/-- A canonical text is read off line by line, the innermost open loop first. -/
theorem Canonical.exists_unfolds {depth : Nat} {previous cs : List Char}
    (h : Canonical depth previous cs) :
    ∃ b, Unfolds depth b cs ∧ (0 < depth → previous = ['['] → b ≠ .done) ∧
      (IsRun previous → ∀ i p next, b ≠ .act i p next) := by
  induction h with
  | done => exact ⟨.done, rfl, by simp, by simp⟩
  | @run depth _ content rest hrun hprevious h ih =>
    obtain ⟨b, hb, -, hact⟩ := ih
    obtain ⟨is, hne, rfl⟩ := isRun_iff.mp hrun
    have hwritten : written depth [] (acts is b) =
        List.replicate (2 * depth) ' ' ++ is.map Instr.toChar ++ ['\n'] ++ written depth [] b := by
      have hrun' : is.reverse ++ [] ≠ [] := by simpa using hne
      rw [written_acts, written_eq_append (hact hrun), runChars_of_ne_nil depth hrun']
      simp
    have hnot : acts is b ≠ .done := by
      cases is <;> simp_all [acts]
    exact ⟨acts is b, hb.extend hwritten, fun _ _ => hnot, fun h => absurd h hprevious⟩
  | @emptyLoop depth _ rest h ih =>
    obtain ⟨b, hb, -, -⟩ := ih
    exact ⟨.loop .start .done b, hb.extend (written_emptyLoop depth [] .start b), by simp, by simp⟩
  | @opening depth _ rest h ih =>
    -- What was left inside is the body, and what was left outside goes on behind the loop.
    obtain ⟨body, ⟨next, rest, hnext, rfl⟩, hbody, -⟩ := ih
    have hbody : body ≠ .done := hbody (Nat.succ_pos depth) rfl
    refine ⟨.loop .start body next, ?_, by simp, by simp⟩
    have hloop := hnext.extend (written_loop depth [] .start hbody next)
    simpa [runChars_nil, Line.chars, Content.chars] using hloop
  | @closing depth _ rest hprevious h ih =>
    obtain ⟨b, hb, -, -⟩ := ih
    exact ⟨.done, ⟨b, rest, hb, rfl⟩, fun _ h => absurd h hprevious, by simp⟩

/-- The canonical texts are the layouts of the blocks. -/
theorem canonical_iff {cs : List Char} : Canonical 0 [] cs ↔ ∃ b, chars b = cs := by
  constructor
  · intro h
    obtain ⟨b, hb, -⟩ := h.exists_unfolds
    exact ⟨b, hb.symm⟩
  · rintro ⟨b, rfl⟩
    have hnil : ¬ IsRun [] := fun h => h.1 rfl
    have hdone (last : List Char) (_ : last ≠ ['[']) : Canonical 0 last [] := .done
    have hb : Canonical 0 [] (written 0 [] b ++ []) := canonical_written hnil (by simp) hdone
    rw [List.append_nil] at hb
    exact hb

end Layout

theorem formatSource_eq_ok_iff {source formatted : Bytes} : formatSource source = .ok formatted ↔
    ∃ p, Program.parse source = .ok p ∧ p.format = formatted := by
  unfold formatSource
  cases Program.parse source <;> simp [Except.map]

/-- A layout is read back as the same tree, and so it is its own layout. -/
theorem formatSource_format (p : Program) : formatSource p.format = .ok p.format := by
  obtain ⟨q, hq, hbare⟩ := p.exists_parse_format
  exact formatSource_eq_ok_iff.mpr ⟨q, hq, Program.format_eq_of_bare hbare⟩

/-- A check of a single file passes when the file is its own layout. -/
theorem Command.formatFiles_check_iff {s : Setting} {targets : List String} {path : Path}
    {source : Bytes} (hpath : sources s targets = .ok [path])
    (hread : s.tree.read (.ofPath path) = .ok source) :
    (formatFiles s targets false true).failure? = none ↔ formatSource source = .ok source := by
  let st : FormatState := ⟨s.tree, [], 0⟩
  cases hformat : formatSource source with
  | error e =>
    have hall : formatAll false true st [path] = (some (.notFormatted path source e), st) := by
      rw [formatAll, hread]
      dsimp only
      rw [hformat]
    simp [formatFiles, hpath, st, hall]
  | ok formatted =>
    have hall : formatAll false true st [path] =
        (none, st.add false true path source formatted) := by
      rw [formatAll, hread]
      dsimp only
      rw [hformat]
      rfl
    have hchanged : (st.add false true path source formatted).changed = 0 ↔ formatted = source := by
      by_cases heq : formatted = source <;> simp [FormatState.add, st, heq]
    simp [formatFiles, hpath, st, hall, ← hchanged]

/-- A text is its own layout exactly when it is canonical: it is made of lines, each indented by two
spaces for every loop around it, that hold a run of instructions, an empty loop, an opening or a
closing bracket; runs do not follow each other, a closing bracket does not follow an opening one,
and all loops are closed at the end. These are the files that pass a check. -/
theorem formatSource_eq_self_iff (source : Bytes) :
    (formatSource source = .ok source ↔
      ∃ cs, Layout.Canonical 0 [] cs ∧ source = Utf8.encode cs) ∧
    ∀ (s : Command.Setting) (targets : List String) (path : Path),
      Command.sources s targets = .ok [path] → s.tree.read (.ofPath path) = .ok source →
      ((Command.formatFiles s targets false true).failure? = none ↔
        ∃ cs, Layout.Canonical 0 [] cs ∧ source = Utf8.encode cs) := by
  have hself : formatSource source = .ok source ↔
      ∃ cs, Layout.Canonical 0 [] cs ∧ source = Utf8.encode cs := by
    constructor
    · intro h
      obtain ⟨p, -, hformat⟩ := formatSource_eq_ok_iff.mp h
      exact ⟨Layout.chars p.body, Layout.canonical_iff.mpr ⟨p.body, rfl⟩, hformat.symm⟩
    · rintro ⟨cs, hcs, rfl⟩
      obtain ⟨b, rfl⟩ := Layout.canonical_iff.mp hcs
      exact formatSource_format ⟨b, []⟩
  refine ⟨hself, ?_⟩
  intro s targets path hpath hread
  rw [Command.formatFiles_check_iff hpath hread]
  exact hself

/-- A file with a loop in canonical layout. -/
theorem formatSource_eq_self_iff_loop :
    let source : Bytes := [0x5B, 0x0A, 0x20, 0x20, 0x2B, 0x0A, 0x5D, 0x0A]
    let s : Command.Setting := ⟨⟨[(["p.bf"], .file source)]⟩, [], []⟩
    Command.sources s ["p.bf"] = .ok [["p.bf"]] ∧ formatSource source = .ok source ∧
      (Command.formatFiles s ["p.bf"] false true).failure? = none := by
  intro source s
  have hrun : Layout.IsRun ['+'] := by decide
  have hopening : ¬ Layout.IsRun ['['] := by decide
  have hcanonical : Layout.Canonical 0 [] ['[', '\n', ' ', ' ', '+', '\n', ']', '\n'] :=
    .opening (.run hrun hopening (.closing (by decide) .done))
  have hpath : Command.sources s ["p.bf"] = .ok [["p.bf"]] := by
    have hfound : ["p.bf"].mapM (Command.sourcesAt s) = .ok [[["p.bf"]]] := by decide
    unfold Command.sources
    rw [hfound]
    exact congrArg Except.ok (List.mergeSort_singleton _)
  have hread : s.tree.read (.ofPath ["p.bf"]) = .ok source := by decide
  obtain ⟨hself, hcheck⟩ := formatSource_eq_self_iff source
  exact ⟨hpath, hself.mpr ⟨_, hcanonical, by decide⟩,
    (hcheck s ["p.bf"] ["p.bf"] hpath hread).mpr ⟨_, hcanonical, by decide⟩⟩

end TapeLang
