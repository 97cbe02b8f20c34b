import TapeLang.Channel.Buffer
import TapeLang.Machine.Engine
import TapeLang.Repl.InputText
import TapeLang.Repl.LineEdit
import TapeLang.Settings.Basic

/-! Interactive sessions: lines are programs that run one after the other on one machine, or
commands that start with a colon. -/
namespace TapeLang.Repl

structure Entry where
  input : List Char
  output : String
  isError : Bool
deriving DecidableEq, Repr

structure Session where
  line : LineEdit
  engine : Engine
  machine : Machine Buffer
  prompt : String
  tapeWindow : Int
  entries : Array Entry
  /-- The program lines submitted, oldest first. -/
  lines : Array (List Char)
  /-- The stored line that is shown for editing. -/
  index? : Option Nat
  /-- The width and height of the window, once known. -/
  size? : Option (Int × Int)
  showHelp : Bool
  showTape : Bool
  quitting : Bool

namespace Session

/-- The steps a line may take when the settings give no limit. -/
def usualQuota : Nat := 1000000

def lineWidth : Int := 60

def start (s : Settings) : Except String Session := do
  let engine ← Engine.ofQuota (if s.stepQuota = 0 then usualQuota else s.stepQuota)
  return {
    line := .empty lineWidth
    engine
    machine := .fresh .empty
    prompt := s.prompt
    tapeWindow := s.tapeWindow
    entries := #[]
    lines := #[]
    index? := none
    size? := none
    showHelp := false
    showTape := false
    quitting := false }

def report (s : Session) (input : List Char) (output : String) (isError : Bool) : Session :=
  { s with entries := s.entries.push ⟨input, output, isError⟩ }

def clear (s : Session) : Session := { s with entries := #[] }

/-- The state after a run that succeeded, behind its output if there is any. -/
def describe (m : Machine Buffer) (produced : Bytes) : String :=
  let state := s!"ptr={m.pointer.val} cell={m.current.toNat} steps={m.stepWord.toInt}"
  if produced.isEmpty then state else s!"{Quoted.quoteText produced}  {state}"

def describeError (e : RunError) (produced : Bytes) : String :=
  if produced.isEmpty then e.message
  else s!"{e.message}\noutput before failure: {Quoted.quoteText produced}"

/-- Runs a line as a program: what is said about it, whether it failed, and the machine
afterwards. There is no answer while the run has not ended with the fuel at hand. -/
def evaluate? (fuel : Nat) (s : Session) (input : List Char) :
    Option (String × Bool × Machine Buffer) :=
  match Program.parse (Utf8.encode input) with
  | .error e => some (e.message input, true, s.machine)
  | .ok p =>
    (s.engine.execute fuel (some p) s.machine).map fun r =>
      let produced := (r.machine.log.extract s.machine.log.size r.machine.log.size).toList
      match r.error? with
      | some e => (describeError e produced, true, r.machine)
      | none => (describe r.machine produced, false, r.machine)

/-- The commands, by any of their names. -/
inductive Command where
  | help
  | clear
  | tape
  | reset
  | input
  | quit
  | unknown
deriving DecidableEq, Repr

def Command.ofName : String → Command
  | ":help" | ":h" => .help
  | ":clear" | ":c" => .clear
  | ":tape" | ":t" => .tape
  | ":reset" | ":r" => .reset
  | ":input" | ":i" => .input
  | ":quit" | ":q" => .quit
  | _ => .unknown

/-- The name of a command, up to the first space, and its argument, which keeps the space at
its end. -/
def splitCommand (input : List Char) : String × List Char :=
  let name := input.takeWhile (· != ' ')
  (String.ofList (White.trim name), (input.drop (name.length + 1)).dropWhile (· == ' '))

def queueInput (s : Session) (input text : List Char) : Session :=
  match readInput (Utf8.encode text) with
  | .error e => s.report input e.message true
  | .ok bytes =>
    let channel := s.machine.channel.feed bytes
    { s with machine := { s.machine with channel } }.report input
      s!"Queued {bytes.length} byte(s), {channel.pending} pending" false

def toggleHelp (s : Session) : Session := { s with showHelp := !s.showHelp }

def toggleTape (s : Session) : Session := { s with showTape := !s.showTape }

def quit (s : Session) : Session := { s with quitting := true }

/-- What happens after a key: the session goes on or ends. -/
inductive Next where
  | stay
  | leave
deriving DecidableEq, Repr

def command (s : Session) (input : List Char) : Session × Next :=
  let (name, argument) := splitCommand input
  match Command.ofName name with
  | .help => (s.toggleHelp, .stay)
  | .clear => (s.clear, .stay)
  | .tape => (s.toggleTape, .stay)
  | .reset => ({ s with machine := .fresh .empty }.report input "Tape reset" false, .stay)
  | .input => (s.queueInput input argument, .stay)
  | .quit => (s.quit, .leave)
  | .unknown => (s.report input s!"Unknown command: {name}" true, .stay)

def submitProgram? (fuel : Nat) (s : Session) (input : List Char) : Option Session :=
  (s.evaluate? fuel input).map fun (output, isError, machine) =>
    { s with machine, lines := s.lines.push input }.report input output isError

/-- Clears the line for the next input. -/
def ready (s : Session) : Session := { s with line := s.line.setText [], index? := none }

/-- Submits a line; an empty one is ignored, and the line is cleared after any other. -/
def submit? (fuel : Nat) (s : Session) : Option (Session × Next) :=
  let raw := s.line.value
  let input := White.trim raw
  match input with
  | [] => some (s, .stay)
  | c :: _ =>
    if c = ':' then
      let (done, next) := s.command (raw.dropWhile fun c => c == ' ' || c == '\t')
      some (done.ready, next)
    else (s.submitProgram? fuel input).map fun done => (done.ready, .stay)

/-- Shows a stored line for editing, with the cursor at its end. -/
def showStored (s : Session) (index? : Option Nat) : Session :=
  let stored := (index?.bind (s.lines[·]?)).getD []
  let line := s.line.setText stored
  { s with index?, line := line.moveTo line.value.length }

/-- Goes to the stored line before; the oldest one stays. -/
def older (s : Session) : Session :=
  if s.lines.isEmpty then s
  else
    match s.index? with
    | none => s.showStored (some (s.lines.size - 1))
    | some i => s.showStored (some (i - 1))

/-- Goes to the stored line after, and from the newest back to an empty line. -/
def newer (s : Session) : Session :=
  match s.index? with
  | none => s
  | some i => s.showStored (if i + 1 < s.lines.size then some (i + 1) else none)

def setText (s : Session) (cs : List Char) : Session := { s with line := s.line.setText cs }

def resize (s : Session) (width height : Int) : Session :=
  { s with size? := some (width, height), line := { s.line with width := width - 10 } }

/-- The session after a key, unless the line cannot follow it or a program does not end. -/
def press? (fuel : Nat) (s : Session) (key : Key) : Option (Session × Next) :=
  match key.name with
  | "ctrl+c" | "ctrl+d" => some (s.quit, .leave)
  | "ctrl+l" => some (s.clear, .stay)
  | "ctrl+t" => some (s.toggleTape, .stay)
  | "ctrl+k" => some (s.toggleHelp, .stay)
  | "up" => some (s.older, .stay)
  | "down" => some (s.newer, .stay)
  | "enter" => s.submit? fuel
  | _ => (s.line.press? key).map fun line => ({ s with line }, .stay)

end Session
end TapeLang.Repl
