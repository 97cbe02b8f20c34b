import TapeLang.Proofs.Accepted
import TapeLang.Proofs.Delivery
import TapeLang.Proofs.Quota
import TapeLang.Proofs.Quoting
import TapeLang.Repl.Session

/-! Interactive sessions, line after line. The log of the machine is what its buffer recorded, no
byte of the queued input is lost or read twice, an entry shows what its line has written, and most
lines leave the machine alone. A line without an answer can only be one whose program goes on for
ever, and there is none where the quota can be exceeded. -/
namespace TapeLang

/-- The log is what the buffer has recorded. -/
def Machine.Mirrored (m : Machine Buffer) : Prop := m.log = m.channel.output

namespace Machine

theorem mirrored_fresh : (fresh Buffer.empty).Mirrored := rfl

theorem Mirrored.perform {m : Machine Buffer} (h : m.Mirrored) (i : Instr) (pos : Position) :
    (m.perform i pos).machine.Mirrored := by
  obtain ⟨hlog, hchannel⟩ := m.perform_channel i pos
  unfold Mirrored at h ⊢
  rw [hlog, hchannel]
  cases i with
  | output =>
    dsimp only
    rw [h]
    rfl
  | input =>
    obtain ⟨tape, pointer, log, steps, ⟨input, output⟩⟩ := m
    cases input <;> exact h
  | _ => exact h

end Machine

namespace Engine
variable {e : Engine} {p : Program} {m : Machine Buffer} {r : Run Buffer}

theorem Executes.exists_ends (h : e.Executes (some p) m r) :
    ∃ o, e.Ends p.body { m with steps := 0 } o ∧ r.machine = o.machine := by
  obtain ⟨o, ho, rfl⟩ := executes_iff.mp h
  exact ⟨o, ho, by cases o <;> rfl⟩

theorem Executes.mirrored (h : e.Executes (some p) m r) (hm : m.Mirrored) :
    r.machine.Mirrored := by
  obtain ⟨o, ho, hr⟩ := h.exists_ends
  rw [hr]
  exact ho.invariant (I := fun m m' => m.Mirrored → m'.Mirrored) (fun _ h => h)
    (fun h h' hm => h' (h hm)) (fun _ h => h) (fun i pos _ h => h.perform i pos) hm

/-- A run only adds to the log. -/
theorem Executes.log_isPrefix (h : e.Executes (some p) m r) :
    m.log.toList <+: r.machine.log.toList := by
  obtain ⟨o, ho, hr⟩ := h.exists_ends
  rw [hr]
  exact (ho.extends Channel.carries_true).log

/-- The log only grows, so what lies behind its old size is what the run has added. -/
theorem Executes.log_eq_append (h : e.Executes (some p) m r) :
    r.machine.log.toList =
      m.log.toList ++ (r.machine.log.extract m.log.size r.machine.log.size).toList := by
  obtain ⟨produced, hlog⟩ := h.log_isPrefix
  rw [Array.toList_extract, ← Array.length_toList, ← Array.length_toList, ← hlog]
  simp

/-- A run is at most one step over a quota that can be exceeded. -/
theorem Executes.steps_le (h : e.Executes (some p) m r) (he : e.IsLimited) :
    r.machine.steps ≤ e.quota + 1 := by
  obtain ⟨o, ho, hr⟩ := h.exists_ends
  rw [hr]
  exact (ho.within he (Nat.zero_le _)).bound

theorem ofQuota_eq_ok {quota : Int} (h : 0 ≤ quota) : ofQuota quota = .ok ⟨quota.toNat⟩ := by
  have hneg : ¬ quota < 0 := by omega
  rw [ofQuota, if_neg hneg]

theorem exists_execute_of_isLimited (he : e.IsLimited) (p : Program) (m : Machine Buffer) :
    ∃ r, e.execute (e.quota + 1) (some p) m = some r := by
  have hfuel : e.quota < 0 + (e.quota + 1) := by omega
  obtain ⟨o, ho⟩ := exists_exec_of_quota (b := p.body) (m := { m with steps := 0 }) he
    (Nat.zero_le _) hfuel
  exact ⟨conclude p.text o, by rw [execute, ho]; rfl⟩

end Engine

namespace Repl

/-- What a line asks for. -/
inductive Request where
  | nothing
  | program (text : List Char)
  | command (c : Session.Command) (argument : List Char)

namespace Request

def ofLine (raw : List Char) : Request :=
  match White.trim raw with
  | [] => .nothing
  | c :: rest =>
    if c = ':' then
      let (name, argument) := Session.splitCommand (raw.dropWhile fun c => c == ' ' || c == '\t')
      .command (.ofName name) argument
    else .program (c :: rest)

/-- Requests that the machine is not needed for: a program with an error, input that is rejected,
and all commands but two. -/
inductive Idle : Request → Prop where
  | nothing : Idle .nothing
  | malformed {text : List Char} {e : ParseError}
      (h : Program.parse (Utf8.encode text) = .error e) : Idle (.program text)
  | rejected {argument : List Char} {e : InputError}
      (h : readInput (Utf8.encode argument) = .error e) : Idle (.command .input argument)
  | command {c : Session.Command} (hreset : c ≠ .reset) (hinput : c ≠ .input)
      (argument : List Char) : Idle (.command c argument)

/-- The machine is needed for programs, resets and input. -/
theorem idle_or (r : Request) :
    r.Idle ∨ (∃ text p, r = .program text ∧ Program.parse (Utf8.encode text) = .ok p) ∨
      (∃ argument, r = .command .reset argument) ∨
      ∃ argument bytes, r = .command .input argument ∧
        readInput (Utf8.encode argument) = .ok bytes := by
  cases r with
  | nothing => exact Or.inl .nothing
  | program text =>
    cases hp : Program.parse (Utf8.encode text) with
    | error e => exact Or.inl (.malformed hp)
    | ok p => exact Or.inr (Or.inl ⟨text, p, rfl, hp⟩)
  | command c argument =>
    by_cases hreset : c = .reset
    · exact Or.inr (Or.inr (Or.inl ⟨argument, by rw [hreset]⟩))
    by_cases hinput : c = .input
    · subst hinput
      cases hi : readInput (Utf8.encode argument) with
      | error e => exact Or.inl (.rejected hi)
      | ok bytes => exact Or.inr (Or.inr (Or.inr ⟨argument, bytes, rfl, hi⟩))
    · exact Or.inl (.command hreset hinput argument)

/-- The machine after a command. -/
def commandEffect (s : Session) : Session.Command → List Char → Machine Buffer
  | .reset, _ => .fresh .empty
  | .input, argument =>
    match readInput (Utf8.encode argument) with
    | .ok bytes => { s.machine with channel := s.machine.channel.feed bytes }
    | .error _ => s.machine
  | _, _ => s.machine

/-- The machine after a request, unless a program does not end. -/
def effect? (fuel : Nat) (s : Session) : Request → Option (Machine Buffer)
  | .nothing => some s.machine
  | .program text => (s.evaluate? fuel text).map (·.2.2)
  | .command c argument => some (commandEffect s c argument)

theorem effect?_of_idle {r : Request} (h : r.Idle) (fuel : Nat) (s : Session) :
    r.effect? fuel s = some s.machine := by
  cases h with
  | nothing => rfl
  | malformed h =>
    rw [effect?, Session.evaluate?, h]
    rfl
  | rejected h => rw [effect?, commandEffect, h]
  | @command c hreset hinput =>
    cases c with
    | reset => exact absurd rfl hreset
    | input => exact absurd rfl hinput
    | _ => rfl

end Request

namespace Session
variable {fuel : Nat} {s s' : Session} {l : LineEdit} {text : List Char}

/-- The session after the line has been edited to `l` and submitted, unless its program does not
end. -/
def enter? (fuel : Nat) (s : Session) (l : LineEdit) : Option Session :=
  ({ s with line := l }.submit? fuel).map Prod.fst

def enterAll? (fuel : Nat) (s : Session) (lines : List LineEdit) : Option Session :=
  lines.foldlM (enter? fuel) s

/-- What becomes of a line that was submitted: nothing happens, a program is run, or a command is
obeyed, and the line is ready for the next one. -/
theorem enter?_cases (fuel : Nat) (s : Session) (l : LineEdit) :
    (Request.ofLine l.value = .nothing ∧ s.enter? fuel l = some { s with line := l }) ∨
    (∃ text, Request.ofLine l.value = .program text ∧
      s.enter? fuel l = ({ s with line := l }.submitProgram? fuel text).map ready) ∨
    ∃ input, Request.ofLine l.value =
        .command (.ofName (splitCommand input).1) (splitCommand input).2 ∧
      s.enter? fuel l = some ({ s with line := l }.command input).1.ready := by
  unfold enter? submit? Request.ofLine
  dsimp only
  cases White.trim l.value with
  | nil => exact Or.inl ⟨rfl, rfl⟩
  | cons c rest =>
    dsimp only
    split_ifs
    · exact Or.inr (Or.inr ⟨_, rfl, rfl⟩)
    · exact Or.inr (Or.inl ⟨_, rfl, by rw [Option.map_map]; rfl⟩)

/-- A program has an entry of its own. -/
theorem enter?_program (hr : Request.ofLine l.value = .program text) :
    s.enter? fuel l = (s.evaluate? fuel text).map fun (output, isError, machine) =>
      let done := { s with line := l, machine, lines := s.lines.push text }
      (done.report text output isError).ready := by
  rcases s.enter?_cases fuel l with ⟨h, -⟩ | ⟨text', h, heq⟩ | ⟨input, h, -⟩
  · cases hr.symm.trans h
  · cases hr.symm.trans h
    rw [heq, submitProgram?, Option.map_map]
    rfl
  · cases hr.symm.trans h

/-- What a session has from its start to its end. -/
def constants (s : Session) : Engine × String × Int := (s.engine, s.prompt, s.tapeWindow)

theorem command_spec (s : Session) (input : List Char) :
    (s.command input).1.constants = s.constants ∧ (s.command input).1.machine =
      Request.commandEffect s (.ofName (splitCommand input).1) (splitCommand input).2 := by
  unfold command
  dsimp only
  cases Command.ofName (splitCommand input).1 with
  | input =>
    dsimp only [queueInput, Request.commandEffect]
    cases readInput (Utf8.encode (splitCommand input).2) <;> exact ⟨rfl, rfl⟩
  | _ => exact ⟨rfl, rfl⟩

theorem constants_enter? (h : s.enter? fuel l = some s') : s'.constants = s.constants := by
  rcases s.enter?_cases fuel l with ⟨-, heq⟩ | ⟨text, hr, -⟩ | ⟨input, -, heq⟩
  · cases heq.symm.trans h
    rfl
  · rw [enter?_program hr] at h
    obtain ⟨answer, -, rfl⟩ := Option.map_eq_some_iff.mp h
    rfl
  · cases heq.symm.trans h
    exact (command_spec _ input).1

theorem engine_enter? (h : s.enter? fuel l = some s') : s'.engine = s.engine :=
  congrArg Prod.fst (constants_enter? h)

theorem machine_enter? (fuel : Nat) (s : Session) (l : LineEdit) :
    (s.enter? fuel l).map machine = (Request.ofLine l.value).effect? fuel s := by
  rcases s.enter?_cases fuel l with ⟨hr, heq⟩ | ⟨text, hr, -⟩ | ⟨input, hr, heq⟩
  · rw [hr, heq]
    rfl
  · rw [hr, enter?_program hr, Option.map_map]
    rfl
  · rw [hr, heq]
    exact congrArg some (command_spec { s with line := l } input).2

/-- A request that needs no machine is always answered. -/
theorem machine_of_idle (hidle : (Request.ofLine l.value).Idle) (fuel : Nat) (s : Session) :
    ∃ s', s.enter? fuel l = some s' ∧ s'.machine = s.machine := by
  have hmachine := s.machine_enter? fuel l
  rw [Request.effect?_of_idle hidle] at hmachine
  exact Option.map_eq_some_iff.mp hmachine

/-- What an entry says about a run. -/
def shown (r : Run Buffer) (produced : Bytes) : String :=
  match r.error? with
  | some e => describeError e produced
  | none => describe r.machine produced

/-- A program is run, and what it is said to have written is what it added to the log. -/
theorem evaluate?_of_execute {p : Program} {r : Run Buffer}
    (hp : Program.parse (Utf8.encode text) = .ok p)
    (hr : s.engine.execute fuel (some p) s.machine = some r) :
    ∃ produced, r.machine.log.toList = s.machine.log.toList ++ produced ∧
      s.evaluate? fuel text = some (shown r produced, r.error?.isSome, r.machine) := by
  refine ⟨_, Engine.Executes.log_eq_append ⟨_, hr⟩, ?_⟩
  rw [evaluate?, hp]
  dsimp only
  rw [hr, Option.map_some, shown]
  cases r.error? <;> rfl

/-- There is no answer before the run has ended. -/
theorem exists_of_evaluate? {p : Program} {answer : String × Bool × Machine Buffer}
    (hp : Program.parse (Utf8.encode text) = .ok p)
    (h : s.evaluate? fuel text = some answer) :
    ∃ r produced, s.engine.execute fuel (some p) s.machine = some r ∧
      r.machine.log.toList = s.machine.log.toList ++ produced ∧
      answer = (shown r produced, r.error?.isSome, r.machine) := by
  obtain ⟨r, hr⟩ : ∃ r, s.engine.execute fuel (some p) s.machine = some r := by
    rw [evaluate?, hp] at h
    obtain ⟨r, hr, -⟩ := Option.map_eq_some_iff.mp h
    exact ⟨r, hr⟩
  obtain ⟨produced, hlog, heval⟩ := evaluate?_of_execute hp hr
  exact ⟨r, produced, hr, hlog, Option.some.inj (h.symm.trans heval)⟩

theorem evaluate?_of_malformed {e : ParseError}
    (hp : Program.parse (Utf8.encode text) = .error e) (fuel : Nat) (s : Session) :
    s.evaluate? fuel text = some (e.message text, true, s.machine) := by
  rw [evaluate?, hp]

/-- With a quota that can be exceeded, what is said about a text is found in a bounded number of
steps. -/
theorem evaluate?_bounded (he : s.engine.IsLimited) (text : List Char) :
    (∃ e, Program.parse (Utf8.encode text) = .error e ∧
      s.evaluate? (s.engine.quota + 1) text = some (e.message text, true, s.machine)) ∨
    ∃ p r produced, Program.parse (Utf8.encode text) = .ok p ∧
      s.engine.Executes (some p) s.machine r ∧ r.machine.steps ≤ s.engine.quota + 1 ∧
      s.evaluate? (s.engine.quota + 1) text =
        some (shown r produced, r.error?.isSome, r.machine) := by
  cases hp : Program.parse (Utf8.encode text) with
  | error e => exact Or.inl ⟨e, rfl, evaluate?_of_malformed hp _ s⟩
  | ok p =>
    obtain ⟨r, hr⟩ := Engine.exists_execute_of_isLimited he p s.machine
    obtain ⟨produced, -, heval⟩ := evaluate?_of_execute hp hr
    have hexecutes : s.engine.Executes (some p) s.machine r := ⟨_, hr⟩
    exact Or.inr ⟨p, r, produced, rfl, hexecutes, hexecutes.steps_le he, heval⟩

theorem exists_enter? (he : s.engine.IsLimited) (l : LineEdit) :
    ∃ s', s.enter? (s.engine.quota + 1) l = some s' := by
  rcases s.enter?_cases (s.engine.quota + 1) l with ⟨-, heq⟩ | ⟨text, hr, -⟩ | ⟨input, -, heq⟩
  · exact ⟨_, heq⟩
  · rw [enter?_program hr]
    rcases evaluate?_bounded he text with ⟨e, -, heval⟩ | ⟨p, r, produced, -, -, -, heval⟩
    · rw [heval]
      exact ⟨_, rfl⟩
    · rw [heval]
      exact ⟨_, rfl⟩
  · exact ⟨_, heq⟩

/-- Where the quota can be exceeded, lines are answered one after the other. -/
theorem exists_enterAll? (he : s.engine.IsLimited) (lines : List LineEdit) :
    ∃ s', s.enterAll? (s.engine.quota + 1) lines = some s' := by
  induction lines generalizing s with
  | nil => exact ⟨s, rfl⟩
  | cons l lines ih =>
    obtain ⟨s₁, hs₁⟩ := exists_enter? he l
    have hengine := engine_enter? hs₁
    obtain ⟨s', hs'⟩ := ih (s := s₁) (hengine ▸ he)
    refine ⟨s', ?_⟩
    rw [enterAll?, List.foldlM_cons, hs₁]
    rw [hengine] at hs'
    exact hs'

/-- The quota of a session with these settings; zero stands for the usual one. -/
def quotaOf (settings : Settings) : Nat :=
  if settings.stepQuota = 0 then usualQuota else settings.stepQuota.toNat

theorem quotaOf_pos {settings : Settings} (h : 0 ≤ settings.stepQuota) : 0 < quotaOf settings := by
  unfold quotaOf
  split_ifs
  · decide
  · omega

/-- A session as it starts. -/
def initial (settings : Settings) : Session where
  line := .empty lineWidth
  engine := ⟨quotaOf settings⟩
  machine := .fresh .empty
  prompt := settings.prompt
  tapeWindow := settings.tapeWindow
  entries := #[]
  lines := #[]
  index? := none
  size? := none
  showHelp := false
  showTape := false
  quitting := false

/-- A session starts with every quota that is not negative, and always in the same way. -/
theorem start_eq_ok_iff {settings : Settings} :
    start settings = .ok s ↔ 0 ≤ settings.stepQuota ∧ s = initial settings := by
  unfold start
  by_cases h : 0 ≤ settings.stepQuota
  · have hengine : Engine.ofQuota
        (if settings.stepQuota = 0 then usualQuota else settings.stepQuota) =
          .ok ⟨quotaOf settings⟩ := by
      unfold quotaOf
      split_ifs
      · rfl
      · exact Engine.ofQuota_eq_ok h
    rw [hengine]
    constructor
    · rintro ⟨⟩
      exact ⟨h, rfl⟩
    · rintro ⟨-, rfl⟩
      rfl
  · have hnegative : settings.stepQuota < 0 := Int.not_le.mp h
    rw [if_neg (Int.ne_of_lt hnegative), Engine.ofQuota, if_pos hnegative]
    refine iff_of_false ?_ fun hs => h hs.1
    intro hs
    cases hs

end Session

/-- The input of a session since the last reset: what was queued, and what programs have read. -/
structure Ledger where
  queued : Bytes
  consumed : Bytes

namespace Ledger

def blank : Ledger := ⟨[], []⟩

def after (fuel : Nat) (g : Ledger) (s : Session) : Request → Ledger
  | .program text =>
    match Program.parse (Utf8.encode text) with
    | .ok p =>
      { g with consumed := g.consumed ++ s.engine.consumed fuel (some p) s.machine }
    | .error _ => g
  | .command .reset _ => .blank
  | .command .input argument =>
    match readInput (Utf8.encode argument) with
    | .ok bytes => { g with queued := g.queued ++ bytes }
    | .error _ => g
  | _ => g

theorem after_of_idle {r : Request} (h : r.Idle) (fuel : Nat) (g : Ledger) (s : Session) :
    g.after fuel s r = g := by
  cases h with
  | nothing => rfl
  | malformed h => rw [after, h]
  | rejected h => rw [after, h]
  | @command c hreset hinput =>
    cases c with
    | reset => exact absurd rfl hreset
    | input => exact absurd rfl hinput
    | _ => rfl

end Ledger

namespace Session
variable {fuel : Nat} {s s' : Session} {g : Ledger} {l : LineEdit}

/-- The ledger of a session that goes on with these lines, as far as they are answered. -/
def ledger (fuel : Nat) (s : Session) (g : Ledger) : List LineEdit → Ledger
  | [] => g
  | l :: lines =>
    match s.enter? fuel l with
    | some s' => s'.ledger fuel (g.after fuel s (.ofLine l.value)) lines
    | none => g

/-- The log is what the buffer recorded, and the ledger accounts for the pending input. -/
structure Consistent (s : Session) (g : Ledger) : Prop where
  mirrored : s.machine.Mirrored
  input : g.queued = g.consumed ++ s.machine.channel.input

theorem consistent_initial (settings : Settings) : (initial settings).Consistent .blank :=
  ⟨Machine.mirrored_fresh, rfl⟩

theorem Consistent.enter? (h : s.Consistent g) (hs : s.enter? fuel l = some s') :
    s'.Consistent (g.after fuel s (.ofLine l.value)) := by
  have hmachine := s.machine_enter? fuel l
  rw [hs, Option.map_some] at hmachine
  rcases (Request.ofLine l.value).idle_or with
    hidle | ⟨text, p, hr, hp⟩ | ⟨argument, hr⟩ | ⟨argument, bytes, hr, hi⟩
  · rw [Request.effect?_of_idle hidle, Option.some.injEq] at hmachine
    rw [Ledger.after_of_idle hidle]
    exact ⟨hmachine ▸ h.mirrored, hmachine ▸ h.input⟩
  · rw [hr, Request.effect?] at hmachine
    obtain ⟨answer, heval, hm⟩ := Option.map_eq_some_iff.mp hmachine.symm
    obtain ⟨r, produced, hrun, -, rfl⟩ := exists_of_evaluate? hp heval
    refine ⟨hm ▸ Engine.Executes.mirrored ⟨_, hrun⟩ h.mirrored, ?_⟩
    -- What the run took from the pending input goes on record, also where it failed.
    rw [← hm, hr, Ledger.after, hp]
    dsimp only
    rw [List.append_assoc, Engine.consumed_append_input hrun, h.input]
  · rw [hr, Request.effect?, Request.commandEffect, Option.some.injEq] at hmachine
    refine ⟨hmachine ▸ Machine.mirrored_fresh, ?_⟩
    rw [hmachine, hr]
    rfl
  · rw [hr, Request.effect?, Request.commandEffect, hi, Option.some.injEq] at hmachine
    refine ⟨hmachine ▸ h.mirrored, ?_⟩
    rw [hmachine, hr, Ledger.after, hi]
    dsimp only [Buffer.feed]
    rw [h.input, List.append_assoc]

theorem Consistent.enterAll? {lines : List LineEdit} (h : s.Consistent g)
    (hs : s.enterAll? fuel lines = some s') : s'.Consistent (s.ledger fuel g lines) := by
  induction lines generalizing s g with
  | nil =>
    cases hs
    exact h
  | cons l lines ih =>
    obtain ⟨s₁, hs₁, hrest⟩ := Option.bind_eq_some_iff.mp hs
    rw [ledger, hs₁]
    exact ih (h.enter? hs₁) hrest

theorem describe_eq (m : Machine Buffer) (produced : Bytes) : describe m produced =
    (if produced = [] then "" else Quoted.quoteText produced ++ "  ") ++
      s!"ptr={m.pointer.val} cell={m.current.toNat} steps={m.stepWord.toInt}" := by
  unfold describe
  cases produced with
  | nil => exact String.empty_append.symm
  | cons b bs => rfl

theorem describeError_eq (e : RunError) (produced : Bytes) : describeError e produced =
    e.message ++ if produced = [] then "" else
      "\noutput before failure: " ++ Quoted.quoteText produced := by
  unfold describeError
  cases produced with
  | nil => exact String.append_empty.symm
  | cons b bs => exact String.append_assoc

/-- In a session that starts with accepted settings, the log of the machine is always what the
buffer recorded, and what was queued since the last reset is what programs have read since then,
followed by what is pending. A program is run to its end, and its entry shows the bytes that it
added to the log, so that they can be read back; without one, the entry tells what is wrong. A line
with an error in it, a rejected input and every command but two leave the machine as it is. With a
quota that can be exceeded all lines are answered. -/
theorem sessions_account {decode : String → Bytes → Except Settings.ReadError Settings}
    {t : FileTree} {here : Path} {path : String} {settings : Settings}
    (h : Settings.loadWith decode t here path = .ok settings) :
    ∃ s₀, start settings = .ok s₀ ∧
      (s₀.engine.IsLimited → ∀ lines, ∃ s, s₀.enterAll? (s₀.engine.quota + 1) lines = some s) ∧
      ∀ (fuel : Nat) (lines : List LineEdit) (s : Session), s₀.enterAll? fuel lines = some s →
      let g := s₀.ledger fuel .blank lines
      s.machine.log = s.machine.channel.output ∧
      g.queued = g.consumed ++ s.machine.channel.input ∧
      ∀ l : LineEdit,
        (∀ text p s', Request.ofLine l.value = .program text →
          Program.parse (Utf8.encode text) = .ok p → s.enter? fuel l = some s' →
          ∃ r produced output, let m := r.machine
            s.engine.Executes (some p) s.machine r ∧ s'.machine = m ∧
            m.log.toList = s.machine.log.toList ++ produced ∧
            s'.entries = s.entries.push ⟨text, output, r.error?.isSome⟩ ∧
            Quoted.unquote? (Quoted.quoteText produced).toList = some produced ∧
            output = match r.error? with
              | none => (if produced = [] then "" else Quoted.quoteText produced ++ "  ") ++
                s!"ptr={m.pointer.val} cell={m.current.toNat} steps={m.stepWord.toInt}"
              | some e => e.message ++ if produced = [] then "" else
                "\noutput before failure: " ++ Quoted.quoteText produced) ∧
        (∀ text e, Request.ofLine l.value = .program text →
          Program.parse (Utf8.encode text) = .error e →
          ∃ s', s.enter? fuel l = some s' ∧
            s'.entries = s.entries.push ⟨text, e.message text, true⟩) ∧
        ((Request.ofLine l.value).Idle →
          ∃ s', s.enter? fuel l = some s' ∧ s'.machine = s.machine) := by
  have hquota := (Settings.accepted_of_loadWith h).quota
  refine ⟨initial settings, start_eq_ok_iff.mpr ⟨hquota, rfl⟩, exists_enterAll?, ?_⟩
  intro fuel lines s hs g
  obtain ⟨hmirrored, hinput⟩ := (consistent_initial settings).enterAll? hs
  refine ⟨hmirrored, hinput, fun l => ⟨?_, ?_, ?_⟩⟩
  · intro text p s' hr hp hs'
    rw [enter?_program hr] at hs'
    obtain ⟨answer, heval, rfl⟩ := Option.map_eq_some_iff.mp hs'
    obtain ⟨r, produced, hrun, hlog, rfl⟩ := exists_of_evaluate? hp heval
    have hback : Quoted.unquote? (Quoted.quoteText produced).toList = some produced := by
      rw [Quoted.quoteText, String.toList_ofList, Quoted.unquote?_quote]
    refine ⟨r, produced, _, ⟨_, hrun⟩, rfl, hlog, rfl, hback, ?_⟩
    rw [shown]
    cases r.error? with
    | none => exact describe_eq r.machine produced
    | some e => exact describeError_eq e produced
  · intro text e hr hp
    rw [enter?_program hr, evaluate?_of_malformed hp]
    exact ⟨_, rfl, rfl⟩
  · intro hidle
    exact machine_of_idle hidle fuel s

/-- Two bytes are queued, a program reads and writes one of them and its entry shows that byte, and
an open bracket does nothing. -/
theorem sessions_account_echo :
    let queue : LineEdit := ⟨[':', 'i', ' ', 'a', 'b'], 5, 0, 5, 60⟩
    let echo : LineEdit := ⟨[',', '.'], 2, 0, 2, 60⟩
    let broken : LineEdit := ⟨['['], 1, 0, 1, 60⟩
    Settings.loadWith Settings.ofYaml ⟨[]⟩ [] "" = .ok .defaults ∧
    ∃ s₀ s s' s'', start .defaults = .ok s₀ ∧ s₀.enterAll? 9 [queue] = some s ∧
      (let g := s₀.ledger 9 .blank [queue]
       g.queued = g.consumed ++ s.machine.channel.input) ∧
      s.enter? 9 echo = some s' ∧ s'.machine.log.toList = s.machine.log.toList ++ [0x61] ∧
      s'.entries = s.entries.push ⟨[',', '.'], "\"a\"  ptr=0 cell=97 steps=2", false⟩ ∧
      Quoted.unquote? "\"a\"".toList = some [0x61] ∧
      s.enter? 9 broken = some s'' ∧ s''.machine = s.machine := by
  intro queue echo broken
  have hload : Settings.loadWith Settings.ofYaml ⟨[]⟩ [] "" = .ok .defaults := rfl
  obtain ⟨s₀, hstart, -, hall⟩ := sessions_account hload
  obtain ⟨-, rfl⟩ := start_eq_ok_iff.mp hstart
  have hruns : ((initial .defaults).enterAll? 9 [queue]).bind (fun s => (s.enter? 9 echo).map
      fun s' => (s.machine.log.toList, s'.machine.log.toList, s'.entries.back?)) =
      some ([], [0x61], some ⟨[',', '.'], "\"a\"  ptr=0 cell=97 steps=2", false⟩) := by
    decide +kernel
  obtain ⟨s, hs, hecho⟩ := Option.bind_eq_some_iff.mp hruns
  obtain ⟨s', hs', hshown⟩ := Option.map_eq_some_iff.mp hecho
  obtain ⟨hbefore, hafter, hlast⟩ : s.machine.log.toList = [] ∧ s'.machine.log.toList = [0x61] ∧
      s'.entries.back? = some ⟨[',', '.'], "\"a\"  ptr=0 cell=97 steps=2", false⟩ := by
    simpa using hshown
  obtain ⟨-, hinput, hline⟩ := hall 9 [queue] s hs
  obtain ⟨r, produced, output, -, hmachine, hlog, hentries, hback, -⟩ :=
    (hline echo).1 [',', '.'] _ s' rfl rfl hs'
  have hproduced : produced = [0x61] := by
    rw [← hmachine, hafter, hbefore, List.nil_append] at hlog
    exact hlog.symm
  rw [hproduced] at hback
  rw [hentries, Array.back?_push, Option.some.injEq] at hlast
  rw [hlast] at hentries
  obtain ⟨s'', hs'', hsame⟩ := (hline broken).2.2 (.malformed rfl)
  exact ⟨hload, _, s, s', s'', hstart, hs, hinput, hs', by rw [hafter, hbefore]; rfl, hentries,
    hback, hs'', hsame⟩

end Session
end Repl
end TapeLang
