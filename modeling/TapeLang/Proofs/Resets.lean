import TapeLang.Proofs.Sessions

/-! What a reset leaves behind. Whatever a session went through before, the lines submitted after a
reset are answered as they would be in a session that has just started. -/
namespace TapeLang.Repl

/-- What happens to a session: a key is pressed, its window gets another size, or a text is put
into its line. -/
inductive Event where
  | key (k : Key)
  | resize (width height : Int)
  | text (cs : List Char)

/-- A request after which no earlier entry is left. -/
def Request.clears : Request → Bool
  | .command .clear _ => true
  | _ => false

namespace Session
variable {fuel : Nat} {s u s' : Session} {earlier : Array Entry}

/-- The session after an event, unless there is none after a key. -/
def react? (fuel : Nat) (s : Session) : Event → Option Session
  | .key k => (s.press? fuel k).map Prod.fst
  | .resize width height => some (s.resize width height)
  | .text cs => some (s.setText cs)

def reactAll? (fuel : Nat) (s : Session) (events : List Event) : Option Session :=
  events.foldlM (react? fuel) s

/-- What a key can do to a session. -/
inductive Pressed (fuel : Nat) (s : Session) : Session → Prop where
  | quit : Pressed fuel s s.quit
  | clear : Pressed fuel s s.clear
  | toggleTape : Pressed fuel s s.toggleTape
  | toggleHelp : Pressed fuel s s.toggleHelp
  | older : Pressed fuel s s.older
  | newer : Pressed fuel s s.newer
  | submit {s' : Session} (h : s.enter? fuel s.line = some s') : Pressed fuel s s'
  | edit {k : Key} {line : LineEdit} (h : s.line.press? k = some line) :
      Pressed fuel s { s with line }

theorem pressed_of_press? {k : Key} {next : Next} (h : s.press? fuel k = some (s', next)) :
    Pressed fuel s s' := by
  have hfirst {r : Session × Next} (hr : Pressed fuel s r.1) (h : some r = some (s', next)) :
      Pressed fuel s s' := by
    cases h
    exact hr
  -- One case for each name of a key; the last is for all that only edit the line.
  unfold press? at h
  split at h
  case h_1 | h_2 => exact hfirst .quit h
  case h_3 => exact hfirst .clear h
  case h_4 => exact hfirst .toggleTape h
  case h_5 => exact hfirst .toggleHelp h
  case h_6 => exact hfirst .older h
  case h_7 => exact hfirst .newer h
  case h_8 => exact .submit (Option.map_eq_some_iff.mpr ⟨_, h, rfl⟩)
  case h_9 =>
    obtain ⟨line, hedit, hline⟩ := Option.map_eq_some_iff.mp h
    cases hline
    exact .edit hedit

theorem constants_older (s : Session) : s.older.constants = s.constants := by
  unfold older
  split
  · rfl
  · split <;> rfl

theorem constants_newer (s : Session) : s.newer.constants = s.constants := by
  unfold newer
  split <;> rfl

theorem constants_react? {e : Event} (h : s.react? fuel e = some s') :
    s'.constants = s.constants := by
  cases e with
  | key k =>
    obtain ⟨⟨s₁, next⟩, hpress, rfl⟩ := Option.map_eq_some_iff.mp h
    cases pressed_of_press? hpress with
    | older => exact s.constants_older
    | newer => exact s.constants_newer
    | submit hs => exact constants_enter? hs
    | _ => rfl
  | resize width height =>
    cases h
    rfl
  | text cs =>
    cases h
    rfl

/-- What every event keeps holds after all of them. -/
theorem reactAll?_invariant {I : Session → Prop}
    (step : ∀ {s e s'}, react? fuel s e = some s' → I s → I s') {events : List Event}
    (h : s.reactAll? fuel events = some s') (hs : I s) : I s' := by
  induction events generalizing s with
  | nil =>
    cases h
    exact hs
  | cons e events ih =>
    obtain ⟨s₁, hstep, hrest⟩ := Option.bind_eq_some_iff.mp h
    exact ih hrest (step hstep hs)

/-- No event changes the engine, the prompt or the width of the panel. -/
theorem constants_reactAll? {events : List Event} (h : s.reactAll? fuel events = some s') :
    s'.constants = s.constants :=
  reactAll?_invariant (I := fun u => u.constants = s.constants)
    (fun hstep hu => (constants_react? hstep).trans hu) h rfl

theorem engine_reactAll? {events : List Event} (h : s.reactAll? fuel events = some s') :
    s'.engine = s.engine :=
  congrArg Prod.fst (constants_reactAll? h)

/-- Two sessions that no line can tell apart: they have the same engine and the same machine, and
`s` has the entries of `u` behind some earlier ones. -/
structure SameAfter (earlier : Array Entry) (s u : Session) : Prop where
  engine : s.engine = u.engine
  machine : s.machine = u.machine
  entries : s.entries = earlier ++ u.entries

namespace SameAfter

theorem report (h : SameAfter earlier s u) (input : List Char) (output : String) (isError : Bool) :
    SameAfter earlier (s.report input output isError) (u.report input output isError) := by
  refine ⟨h.engine, h.machine, ?_⟩
  unfold Session.report
  dsimp only
  rw [h.entries, Array.append_push]

theorem evaluate?_eq (h : SameAfter earlier s u) (fuel : Nat) (text : List Char) :
    s.evaluate? fuel text = u.evaluate? fuel text := by
  unfold Session.evaluate?
  rw [h.engine, h.machine]

theorem submitProgram? (h : SameAfter earlier s u) (fuel : Nat) (text : List Char) :
    Option.Rel (SameAfter earlier) (s.submitProgram? fuel text) (u.submitProgram? fuel text) := by
  unfold Session.submitProgram?
  rw [h.evaluate?_eq fuel text]
  cases u.evaluate? fuel text with
  | none => exact .none
  | some answer =>
    have hsame : SameAfter earlier { s with machine := answer.2.2, lines := s.lines.push text }
        { u with machine := answer.2.2, lines := u.lines.push text } :=
      ⟨h.engine, rfl, h.entries⟩
    exact .some (hsame.report text answer.1 answer.2.1)

theorem queueInput (h : SameAfter earlier s u) (input text : List Char) :
    SameAfter earlier (s.queueInput input text) (u.queueInput input text) := by
  unfold Session.queueInput
  rw [h.machine]
  cases readInput (Utf8.encode text) with
  | error e => exact h.report _ _ _
  | ok bytes =>
    refine report ?_ _ _ _
    exact ⟨h.engine, rfl, h.entries⟩

theorem command (h : SameAfter earlier s u) (input : List Char) :
    let request := Request.command (.ofName (splitCommand input).1) (splitCommand input).2
    SameAfter (if request.clears then #[] else earlier)
      (s.command input).1 (u.command input).1 := by
  unfold Session.command
  dsimp only
  cases Command.ofName (splitCommand input).1 with
  | help => exact ⟨h.engine, h.machine, h.entries⟩
  | clear => exact ⟨h.engine, h.machine, rfl⟩
  | tape => exact ⟨h.engine, h.machine, h.entries⟩
  | reset =>
    refine report ?_ _ _ _
    exact ⟨h.engine, rfl, h.entries⟩
  | input => exact h.queueInput _ _
  | quit => exact ⟨h.engine, h.machine, h.entries⟩
  | unknown => exact h.report _ _ _

theorem ready (h : SameAfter earlier s u) : SameAfter earlier s.ready u.ready :=
  ⟨h.engine, h.machine, h.entries⟩

/-- A line has the same effect and the same answer in both, or none in both. -/
theorem enter? (h : SameAfter earlier s u) (fuel : Nat) (l : LineEdit) :
    Option.Rel (SameAfter (if (Request.ofLine l.value).clears then #[] else earlier))
      (s.enter? fuel l) (u.enter? fuel l) := by
  have hline : SameAfter earlier { s with line := l } { u with line := l } :=
    ⟨h.engine, h.machine, h.entries⟩
  unfold Session.enter? submit? Request.ofLine
  dsimp only
  cases White.trim l.value with
  | nil => exact .some hline
  | cons c rest =>
    dsimp only
    by_cases hc : c = ':'
    · simp only [if_pos hc]
      exact .some (hline.command (l.value.dropWhile fun c => c == ' ' || c == '\t')).ready
    · simp only [if_neg hc, Option.map_map]
      exact rel_map (hline.submitProgram? fuel (c :: rest)) fun _ _ h => h.ready

/-- So have all lines that follow. -/
theorem enterAll? (h : SameAfter earlier s u) (fuel : Nat) (lines : List LineEdit) :
    Option.Rel
      (SameAfter (if lines.any fun l => (Request.ofLine l.value).clears then #[] else earlier))
      (s.enterAll? fuel lines) (u.enterAll? fuel lines) := by
  -- The earlier entries are generalized, since a line may clear them; later lines keep that.
  induction lines generalizing s u earlier with
  | nil => exact .some h
  | cons l lines ih =>
    unfold Session.enterAll? at ih ⊢
    rw [List.foldlM_cons, List.foldlM_cons, List.any_cons]
    refine rel_bind (h.enter? fuel l) ?_
    intro s₁ u₁ hsame
    have hrest := ih hsame
    cases hl : (Request.ofLine l.value).clears with
    | false =>
      rw [hl] at hrest
      exact hrest
    | true =>
      rw [hl, if_pos rfl, ite_self] at hrest
      exact hrest

end SameAfter

/-- A reset is an entry of its own, behind which the machine is blank. -/
theorem enter?_reset {l : LineEdit} {argument : List Char}
    (h : Request.ofLine l.value = .command .reset argument) (fuel : Nat) (s : Session) :
    ∃ s', s.enter? fuel l = some s' ∧ s'.machine = .fresh .empty ∧
      ∃ input, s'.entries = s.entries.push ⟨input, "Tape reset", false⟩ := by
  rcases s.enter?_cases fuel l with ⟨hr, -⟩ | ⟨text, hr, -⟩ | ⟨input, hr, heq⟩
  · cases h.symm.trans hr
  · cases h.symm.trans hr
  · have hname := (Request.command.inj (h.symm.trans hr)).1
    have hmachine := s.machine_enter? fuel l
    rw [h, heq] at hmachine
    refine ⟨_, heq, Option.some.inj hmachine, input, ?_⟩
    rw [Session.command]
    dsimp only
    rw [← hname]
    rfl

/-- Whatever a session with accepted settings went through, after a reset it goes on as one that has
just started: the lines that follow are answered in both or in neither, they have the same entries,
behind those up to the reset unless they are cleared, and the machine is the same at the end. With a
quota that can be exceeded they are answered. -/
theorem reset_forgets {decode : String → Bytes → Except Settings.ReadError Settings}
    {t : FileTree} {here : Path} {path : String} {settings : Settings}
    (h : Settings.loadWith decode t here path = .ok settings) :
    ∃ s₀, start settings = .ok s₀ ∧
      (s₀.engine.IsLimited → ∀ lines, ∃ s, s₀.enterAll? (s₀.engine.quota + 1) lines = some s) ∧
      ∀ (fuel : Nat) (events : List Event) (s : Session), s₀.reactAll? fuel events = some s →
      ∀ (l : LineEdit) (argument : List Char),
        Request.ofLine l.value = .command .reset argument →
      ∃ reset, s.enter? fuel l = some reset ∧
        (∃ input, reset.entries = s.entries.push ⟨input, "Tape reset", false⟩) ∧
        ∀ (fuel : Nat) (lines : List LineEdit),
          Option.Rel (fun later anew =>
              later.entries = (if lines.any fun l => (Request.ofLine l.value).clears then #[]
                else reset.entries) ++ anew.entries ∧
              later.machine = anew.machine)
            (reset.enterAll? fuel lines) (s₀.enterAll? fuel lines) := by
  have hquota := (Settings.accepted_of_loadWith h).quota
  refine ⟨initial settings, start_eq_ok_iff.mpr ⟨hquota, rfl⟩, exists_enterAll?, ?_⟩
  intro fuel events s hevents l argument hl
  obtain ⟨reset, hreset, hmachine, hentry⟩ := enter?_reset hl fuel s
  refine ⟨reset, hreset, hentry, ?_⟩
  intro fuel lines
  have hsame : SameAfter reset.entries reset (initial settings) := by
    refine ⟨?_, hmachine, Array.append_empty.symm⟩
    rw [engine_enter? hreset, engine_reactAll? hevents]
  exact rel_imp (hsame.enterAll? fuel lines) fun _ _ h => ⟨h.entries, h.machine⟩

/-- Input is queued, a program reads it and fails, and after a reset two lines are answered as in a
session of their own. -/
theorem reset_forgets_queued :
    let enter : Event := .key ⟨"enter", []⟩
    let events : List Event := [.text [':', 'i', ' ', 'a', 'b'], enter, .text [',', '<'], enter]
    let reset : LineEdit := ⟨":reset".toList, 6, 0, 6, 60⟩
    let lines : List LineEdit := [⟨[',', '.'], 2, 0, 2, 60⟩, ⟨['['], 1, 0, 1, 60⟩]
    ∃ s₀ s blank later anew, start .defaults = .ok s₀ ∧ s₀.reactAll? 9 events = some s ∧
      s.enter? 9 reset = some blank ∧ blank.enterAll? 9 lines = some later ∧
      s₀.enterAll? 9 lines = some anew ∧ later.entries = blank.entries ++ anew.entries ∧
      later.machine = anew.machine := by
  intro enter events reset lines
  have hload : Settings.loadWith Settings.ofYaml ⟨[]⟩ [] "" = .ok .defaults := rfl
  obtain ⟨s₀, hstart, -, hall⟩ := reset_forgets hload
  obtain ⟨-, rfl⟩ := start_eq_ok_iff.mp hstart
  obtain ⟨s, hs⟩ : ∃ s, (initial .defaults).reactAll? 9 events = some s := ⟨_, rfl⟩
  obtain ⟨blank, hblank, -, hlines⟩ := hall 9 events s hs reset [] rfl
  have hsame := hlines 9 lines
  obtain ⟨anew, hanew⟩ : ∃ anew, (initial .defaults).enterAll? 9 lines = some anew := ⟨_, rfl⟩
  rw [hanew] at hsame
  generalize hlater : blank.enterAll? 9 lines = later? at hsame
  cases hsame with
  | some h => exact ⟨_, s, blank, _, anew, hstart, hs, hblank, hlater, hanew, h.1, h.2⟩

end Session
end TapeLang.Repl
