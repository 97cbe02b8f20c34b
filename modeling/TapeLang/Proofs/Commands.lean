import TapeLang.Proofs.Quoting
import TapeLang.Proofs.Sessions

/-! Command lines: which command a line with white space around it is taken for, and which bytes an
input command queues. -/
namespace TapeLang

/-- The first byte of an encoding tells an ASCII character. -/
theorem Utf8.head?_of_head?_encode {cs : List Char} {b : UInt8} (hb : b.toNat < 0x80)
    (h : (encode cs).head? = some b) : cs.head? = some (Char.ofNat b.toNat) := by
  obtain ⟨rest, hrest⟩ := List.head?_eq_some_iff.mp h
  have hdecode := decode_append_ascii hb [] rest
  rw [List.nil_append, ← hrest, decode_encode] at hdecode
  rw [hdecode]
  rfl

namespace Repl

/-- The bytes of a quoted text, whatever white space follows it. -/
theorem readInput_quote (bs : Bytes) {w : List Char} (hw : ∀ c ∈ w, White.isWhite c = true) :
    readInput (Utf8.encode (Quoted.quote bs ++ w)) = .ok bs := by
  have hquote : White.trim (Quoted.quote bs) = Quoted.quote bs := by
    have hfront : (Quoted.quote bs).dropWhile White.isWhite = Quoted.quote bs :=
      List.dropWhile_cons_of_neg (by decide)
    rw [White.trim, hfront, White.dropEnd_eq]
    exact List.rdropWhile_concat_neg _ _ '"' (by decide)
  have hbytes : Utf8.encode (Quoted.quote bs) =
      0x22 :: Utf8.encode ((Utf8.pieces bs).flatMap Quoted.escapePiece ++ ['"']) := rfl
  have hread : Quoted.unquote? (Utf8.decode (Utf8.encode (Quoted.quote bs))) = some bs := by
    rw [Utf8.decode_encode, Quoted.unquote?_quote]
  rw [hbytes] at hread
  rw [readInput, White.trimBytes_encode, White.trim_append_right hw, hquote, hbytes]
  dsimp only
  rw [if_pos rfl, hread]

/-- Text that does not start with a quotation mark is taken as it is, byte for byte. -/
theorem readInput_of_plain {text : Bytes} (hblank : White.trimBytes text ≠ [])
    (hquote : (White.trimBytes text).head? ≠ some 0x22) : readInput text = .ok text := by
  unfold readInput
  cases htrim : White.trimBytes text with
  | nil => exact absurd htrim hblank
  | cons b rest =>
    have hb : b ≠ 0x22 := by
      intro hb
      rw [htrim, hb] at hquote
      exact hquote rfl
    dsimp only
    rw [if_neg hb]

namespace Session

/-- What is left of a line when it is taken as a command: spaces and tabs in front are dropped. -/
def stripLead (raw : List Char) : List Char := raw.dropWhile fun c => c == ' ' || c == '\t'

/-- The command that an input is taken for, with the name that is reported when there is no such
command. -/
structure Branch where
  command : Command
  reported? : Option String
deriving DecidableEq, Repr

namespace Branch

def ofName (name : String) : Branch :=
  ⟨.ofName name, if Command.ofName name = .unknown then some name else none⟩

/-- The branch that a line is dispatched to when it is submitted. -/
def ofLine (raw : List Char) : Branch := ofName (splitCommand (stripLead raw)).1

/-- What a session does in a branch, given the whole input and its argument. -/
def obey (b : Branch) (s : Session) (input argument : List Char) : Session × Next :=
  match b.command with
  | .help => (s.toggleHelp, .stay)
  | .clear => (s.clear, .stay)
  | .tape => (s.toggleTape, .stay)
  | .reset => ({ s with machine := .fresh .empty }.report input "Tape reset" false, .stay)
  | .input => (s.queueInput input argument, .stay)
  | .quit => (s.quit, .leave)
  | .unknown =>
    let name := b.reported?.getD ""
    (s.report input s!"Unknown command: {name}" true, .stay)

theorem ofName_eq_ofName_empty_iff {name : String} : ofName name = ofName "" ↔ name = "" := by
  have hempty : ofName "" = ⟨.unknown, some ""⟩ := rfl
  constructor
  · intro h
    rw [hempty, ofName, Branch.mk.injEq] at h
    obtain ⟨hunknown, hname⟩ := h
    rw [if_pos hunknown] at hname
    exact Option.some.inj hname
  · intro h
    rw [h]

end Branch

/-- A command does what its branch does. -/
theorem command_eq_obey (s : Session) (input : List Char) :
    s.command input =
      (Branch.ofName (splitCommand input).1).obey s input (splitCommand input).2 := by
  unfold command Branch.obey Branch.ofName
  dsimp only
  cases Command.ofName (splitCommand input).1 <;> rfl

/-- A line that starts with a colon is a command, and is cleared behind it. -/
theorem submit?_eq_obey {s : Session} {rest : List Char}
    (h : White.trim s.line.value = ':' :: rest) (fuel : Nat) :
    let input := stripLead s.line.value
    let r := (Branch.ofLine s.line.value).obey s input (splitCommand input).2
    s.submit? fuel = some ({ r.1 with line := r.1.line.setText [], index? := none }, r.2) := by
  have hcommand := s.command_eq_obey (stripLead s.line.value)
  unfold stripLead at hcommand
  intro input r
  unfold submit?
  dsimp only
  rw [h]
  dsimp only
  rw [if_pos rfl, hcommand]
  rfl

theorem splitCommand_name (input : List Char) :
    (splitCommand input).1 = String.ofList (White.trim (input.takeWhile (· != ' '))) := rfl

/-- White space in front of a name does not change it, nor does what a space cuts off. -/
theorem splitCommand_name_pad {lead text trail : List Char}
    (hlead : ∀ c ∈ lead, White.isWhite c = true)
    (htrail : ∀ c ∈ trail, White.isWhite c = true) (hspace : ' ' ∉ lead) :
    (splitCommand (lead ++ (text ++ trail))).1 = (splitCommand text).1 := by
  have hall {cs : List Char} (h : ' ' ∉ cs) : ∀ c ∈ cs, (c != ' ') = true := by
    intro c hc
    rw [bne_iff_ne]
    intro heq
    exact h (heq ▸ hc)
  rw [splitCommand_name, splitCommand_name, List.takeWhile_append_of_pos (hall hspace),
    White.trim_append_left hlead]
  by_cases hmem : ' ' ∈ text
  · rw [takeWhile_append_of_mem hmem (by decide)]
  · have hwhite : ∀ c ∈ trail.takeWhile (· != ' '), White.isWhite c = true := by
      intro c hc
      exact htrail c (List.takeWhile_subset _ hc)
    have hself : text.takeWhile (· != ' ') = text := List.takeWhile_eq_self_iff.mpr (hall hmem)
    rw [List.takeWhile_append_of_pos (hall hmem), White.trim_append_right hwhite, hself]

/-- When a space is left in front, the name ends before it begins. -/
theorem splitCommand_name_empty {lead : List Char} (hlead : ∀ c ∈ lead, White.isWhite c = true)
    (hspace : ' ' ∈ lead) (rest : List Char) : (splitCommand (lead ++ rest)).1 = "" := by
  have hwhite : ∀ c ∈ lead.takeWhile (· != ' '), White.isWhite c = true := by
    intro c hc
    exact hlead c (List.takeWhile_subset _ hc)
  have htrim := White.trim_append_right hwhite []
  rw [List.nil_append] at htrim
  rw [splitCommand_name, takeWhile_append_of_mem hspace (by decide), htrim]
  rfl

theorem stripLead_colon (rest : List Char) : stripLead (':' :: rest) = ':' :: rest :=
  List.dropWhile_cons_of_neg (by decide)

theorem stripLead_append_colon (lead rest : List Char) :
    stripLead (lead ++ ':' :: rest) = stripLead lead ++ ':' :: rest := by
  have hcolon := stripLead_colon rest
  unfold stripLead at hcolon ⊢
  rw [List.dropWhile_append]
  split
  · next hempty => rw [hcolon, List.isEmpty_iff.mp hempty, List.nil_append]
  · rfl

theorem splitCommand_name_colon (rest : List Char) : (splitCommand (':' :: rest)).1 ≠ "" := by
  have hcolon : White.isWhite ':' = false := by decide
  have hname : (':' :: rest).takeWhile (· != ' ') = ':' :: rest.takeWhile (· != ' ') :=
    List.takeWhile_cons_of_pos (by decide)
  intro h
  rw [splitCommand_name, hname, White.trim,
    List.dropWhile_cons_of_neg (by rw [hcolon]; decide)] at h
  have hnil := String.ofList_injective (h.trans rfl : _ = String.ofList [])
  rw [White.dropEnd_eq, List.rdropWhile_eq_nil_iff] at hnil
  have hwhite := hnil ':' List.mem_cons_self
  rw [hcolon] at hwhite
  cases hwhite

/-- A line that starts with a colon, whatever white space is around it, is dispatched as it is
without that white space exactly when no space is left in front of it once spaces and tabs have been
dropped there. With a space left, the name is cut off before it begins, and the line is reported as
a command without a name. -/
theorem padded_branch_iff {raw rest : List Char} (h : White.trim raw = ':' :: rest) :
    (∀ text ∈ [raw, White.trim raw], ∀ (fuel : Nat) (s : Session), s.line.value = text →
      let input := stripLead text
      let r := (Branch.ofLine text).obey s input (splitCommand input).2
      s.press? fuel ⟨"enter", []⟩ =
        some ({ r.1 with line := r.1.line.setText [], index? := none }, r.2)) ∧
    (Branch.ofLine raw = Branch.ofLine (White.trim raw) ↔
      ' ' ∉ stripLead (raw.takeWhile White.isWhite)) ∧
    (' ' ∈ stripLead (raw.takeWhile White.isWhite) →
      Branch.ofLine raw = ⟨.unknown, some ""⟩) := by
  obtain ⟨trail, htrail, hraw⟩ := White.exists_eq_append_trim raw
  have hlead : ∀ c ∈ stripLead (raw.takeWhile White.isWhite), White.isWhite c = true := by
    intro c hc
    exact List.mem_takeWhile_imp (List.dropWhile_subset _ hc)
  have hstrip : stripLead raw =
      stripLead (raw.takeWhile White.isWhite) ++ (White.trim raw ++ trail) := by
    conv_lhs => rw [hraw, h, List.cons_append, stripLead_append_colon]
    rw [h, List.cons_append]
  have htext : stripLead (White.trim raw) = White.trim raw := by
    rw [h, stripLead_colon]
  have hempty (hspace : ' ' ∈ stripLead (raw.takeWhile White.isWhite)) :
      Branch.ofLine raw = Branch.ofName "" := by
    rw [Branch.ofLine, hstrip, splitCommand_name_empty hlead hspace]
  refine ⟨?_, ⟨?_, ?_⟩, hempty⟩
  · intro text htext fuel s hs
    have htrim : White.trim s.line.value = ':' :: rest := by
      rcases List.mem_pair.mp htext with heq | heq
      · rw [hs, heq, h]
      · rw [hs, heq, White.trim_trim, h]
    have hsubmit := submit?_eq_obey htrim fuel
    rw [hs] at hsubmit
    exact hsubmit
  · intro hsame hspace
    rw [hempty hspace, Branch.ofLine, htext, h] at hsame
    exact splitCommand_name_colon rest (Branch.ofName_eq_ofName_empty_iff.mp hsame.symm)
  · intro hspace
    rw [Branch.ofLine, hstrip, splitCommand_name_pad hlead htrail hspace, Branch.ofLine, htext]

/-- Behind a space of another kind an ordinary one is left, and help is not found; alone it does no
harm. -/
theorem padded_branch_iff_noBreakSpace :
    let spaced := ['\u00A0', ' ', ':', 'h']
    let joined := ['\u00A0', ':', 'h', '\u00A0', ' ']
    White.trim spaced = [':', 'h'] ∧ White.trim joined = [':', 'h'] ∧
      Branch.ofLine spaced = ⟨.unknown, some ""⟩ ∧ Branch.ofLine [':', 'h'] = ⟨.help, none⟩ ∧
      Branch.ofLine joined = Branch.ofLine [':', 'h'] := by
  intro spaced joined
  have hspaced : White.trim spaced = [':', 'h'] := by decide
  have hjoined : White.trim joined = [':', 'h'] := by decide
  obtain ⟨-, -, hempty⟩ := padded_branch_iff hspaced
  obtain ⟨-, hsame, -⟩ := padded_branch_iff hjoined
  have hbranch := hsame.mpr (by decide)
  rw [hjoined] at hbranch
  exact ⟨hspaced, hjoined, hempty (by decide), by decide, hbranch⟩

/-- What is queued by an input command that reads as these bytes. -/
theorem machine_command_input (s : Session) {text : List Char} {bs : Bytes}
    (h : readInput (Utf8.encode (text.dropWhile (· == ' '))) = .ok bs) :
    (s.command (":input ".toList ++ text)).1.machine =
      { s.machine with channel := s.machine.channel.feed bs } := by
  have hsplit : splitCommand (":input ".toList ++ text) =
      (":input", text.dropWhile (· == ' ')) := rfl
  rw [(s.command_spec _).2, hsplit]
  change Request.commandEffect s .input (text.dropWhile (· == ' ')) = _
  rw [Request.commandEffect, h]

/-- A quoted text may stand between any number of spaces. -/
theorem machine_command_quoted (s : Session) (bs : Bytes) (before after : Nat) :
    (s.command (":input ".toList ++
        (List.replicate before ' ' ++ (Quoted.quote bs ++ List.replicate after ' ')))).1.machine =
      { s.machine with channel := s.machine.channel.feed bs } := by
  have hspace {n : Nat} : ∀ c ∈ List.replicate n ' ', (c == ' ') = true := by
    intro c hc
    rw [List.eq_of_mem_replicate hc]
    rfl
  have hwhite : ∀ c ∈ List.replicate after ' ', White.isWhite c = true := by
    intro c hc
    rw [List.eq_of_mem_replicate hc]
    rfl
  have hmark : (Quoted.quote bs ++ List.replicate after ' ').dropWhile (· == ' ') =
      Quoted.quote bs ++ List.replicate after ' ' := List.dropWhile_cons_of_neg (by decide)
  apply machine_command_input
  rw [List.dropWhile_append_of_pos hspace, hmark, readInput_quote bs hwhite]

/-- A line that succeeds is described with the bytes that it has added to the log. -/
theorem describe_of_evaluate? {fuel : Nat} {s : Session} {text : List Char} {output : String}
    {m : Machine Buffer} (h : s.evaluate? fuel text = some (output, false, m)) :
    ∃ produced, m.log.toList = s.machine.log.toList ++ produced ∧ output = describe m produced := by
  cases hp : Program.parse (Utf8.encode text) with
  | error e =>
    rw [evaluate?_of_malformed hp] at h
    cases h
  | ok p =>
    obtain ⟨r, produced, -, hlog, hanswer⟩ := exists_of_evaluate? hp h
    rw [Prod.mk.injEq, Prod.mk.injEq] at hanswer
    obtain ⟨houtput, hfailed, rfl⟩ := hanswer
    refine ⟨produced, hlog, ?_⟩
    cases herror : r.error? with
    | some e =>
      rw [herror] at hfailed
      cases hfailed
    | none => rw [houtput, shown, herror]

/-- An input command queues the bytes of a quoted text, with any number of spaces around it, and all
bytes of any other text, white space at its end included. So what a line is said to have written can
be given back as input, and is then queued byte for byte. Nothing but the pending input changes in
the machine. -/
theorem input_queues_bytes (s : Session) :
    (∀ (bs : Bytes) (before after : Nat),
      (s.command (":input ".toList ++ (List.replicate before ' ' ++
          (Quoted.quote bs ++ List.replicate after ' ')))).1.machine =
        { s.machine with channel := s.machine.channel.feed bs }) ∧
    (∀ fuel text output m, s.evaluate? fuel text = some (output, false, m) →
      ∃ produced, m.log.toList = s.machine.log.toList ++ produced ∧
        (produced ≠ [] → output = Quoted.quoteText produced ++ "  " ++
            s!"ptr={m.pointer.val} cell={m.current.toNat} steps={m.stepWord.toInt}" ∧
          ∀ s' : Session,
            (s'.command (":input ".toList ++ (Quoted.quoteText produced).toList)).1.machine =
              { s'.machine with channel := s'.machine.channel.feed produced })) ∧
    ∀ text : List Char, White.trim text ≠ [] → text.head? ≠ some ' ' →
      (White.trim text).head? ≠ some '"' →
      (s.command (":input ".toList ++ text)).1.machine =
        { s.machine with channel := s.machine.channel.feed (Utf8.encode text) } := by
  refine ⟨s.machine_command_quoted, ?_, ?_⟩
  · intro fuel text output m heval
    obtain ⟨produced, hlog, houtput⟩ := describe_of_evaluate? heval
    refine ⟨produced, hlog, ?_⟩
    intro hne
    rw [describe_eq, if_neg hne] at houtput
    refine ⟨houtput, ?_⟩
    intro s'
    have hqueued := s'.machine_command_quoted produced 0 0
    rw [Quoted.quoteText, String.toList_ofList]
    simpa using hqueued
  · intro text hblank hspace hquote
    have hself : text.dropWhile (· == ' ') = text := by
      cases text with
      | nil => rfl
      | cons c rest =>
        have hc : ¬ (c == ' ') = true := by
          intro hc
          rw [beq_iff_eq.mp hc] at hspace
          exact hspace rfl
        exact List.dropWhile_cons_of_neg hc
    apply machine_command_input
    rw [hself]
    apply readInput_of_plain
    · intro hnil
      rw [White.trimBytes_encode] at hnil
      have hdecode := Utf8.decode_encode (White.trim text)
      rw [hnil] at hdecode
      exact hblank hdecode.symm
    · intro hmark
      rw [White.trimBytes_encode] at hmark
      exact hquote (Utf8.head?_of_head?_encode (by decide) hmark)

/-- The control character that a program has written is given back as input, and a text is queued
with the space at its end. -/
theorem input_queues_bytes_control :
    ∃ s m, start .defaults = .ok s ∧
      s.evaluate? 9 ['+', '.'] = some ("\"\\x01\"  ptr=0 cell=1 steps=2", false, m) ∧
      (Quoted.quoteText [1]).toList = "\"\\x01\"".toList ∧
      (s.command ":input \"\\x01\"".toList).1.machine.channel.input = [1] ∧
      (s.command ":input  \"\\x01\" ".toList).1.machine.channel.input = [1] ∧
      (s.command ":input ab ".toList).1.machine.channel.input = [0x61, 0x62, 0x20] := by
  obtain ⟨s, hstart, hlog₀, hinput⟩ : ∃ s, start .defaults = .ok s ∧ s.machine.log.toList = [] ∧
      s.machine.channel.input = [] := ⟨_, rfl, rfl, rfl⟩
  obtain ⟨m, heval, hlog⟩ : ∃ m, s.evaluate? 9 ['+', '.'] =
      some ("\"\\x01\"  ptr=0 cell=1 steps=2", false, m) ∧ m.log.toList = [1] := by
    cases hstart
    exact ⟨_, rfl, rfl⟩
  have hinput₁ (bs : Bytes) : (s.machine.channel.feed bs).input = bs := by
    rw [Buffer.feed, hinput, List.nil_append]
  obtain ⟨hquoted, hpasted, hplain⟩ := input_queues_bytes s
  obtain ⟨produced, hproduced, hback⟩ := hpasted _ _ _ _ heval
  rw [hlog, hlog₀, List.nil_append] at hproduced
  have hpaste := (hback (by rw [← hproduced]; decide)).2 s
  rw [← hproduced] at hpaste
  have hone := hquoted [1] 1 1
  have htext := hplain ['a', 'b', ' '] (by decide) (by decide) (by decide)
  refine ⟨s, m, hstart, heval, rfl, ?_, ?_, ?_⟩
  · exact (congrArg (·.channel.input) hpaste).trans (hinput₁ _)
  · exact (congrArg (·.channel.input) hone).trans (hinput₁ _)
  · exact (congrArg (·.channel.input) htext).trans (hinput₁ _)

end Session
end Repl
end TapeLang
