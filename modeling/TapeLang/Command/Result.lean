import TapeLang.Files.Tree
import TapeLang.Machine.Engine
import TapeLang.Server.Serve
import TapeLang.Settings.Read
import TapeLang.Command.Basic

/-! What a command needs and what comes of it. -/
namespace TapeLang.Command

/-- Where a command runs. -/
structure Setting where
  tree : FileTree
  here : Path
  input : Bytes
deriving DecidableEq, Repr

inductive Failure where
  | call (e : CallError)
  | settings (e : Settings.ReadError)
  | unreadable (e : AccessError)
  | badQuota (message : String)
  | notCompiled (source : Bytes) (e : ParseError)
  | notFinished (e : RunError)
  | notAnalyzed (source : Bytes) (e : ParseError)
  | issues (count : Nat)
  | noTarget (text : String) (e : AccessError)
  | sourceUnreadable (path : Path) (e : AccessError)
  | notFormatted (path : Path) (source : Bytes) (e : ParseError)
  | unformatted (count : Nat)
  | server (e : Server.ServeError)
deriving DecidableEq, Repr

def parseMessage (source : Bytes) (e : ParseError) : String := e.message (Utf8.decode source)

def Failure.message : Failure → Bytes
  | .settings e => e.message
  | .call e => Bytes.ofString e.message
  | .unreadable e => Bytes.ofString s!"read program: {e.message}"
  | .badQuota message => Bytes.ofString message
  | .notCompiled source e => Bytes.ofString s!"compile failed: {parseMessage source e}"
  | .notFinished e => Bytes.ofString s!"execution failed: {e.message}"
  | .notAnalyzed source e => Bytes.ofString s!"analysis parse failed: {parseMessage source e}"
  | .issues count => Bytes.ofString s!"analysis found {count} issue(s)"
  | .noTarget text e => Bytes.ofString s!"stat {text}: {e.message}"
  | .sourceUnreadable path e => Bytes.ofString s!"read {Path.render path}: {e.message}"
  | .notFormatted path source e =>
    Bytes.ofString s!"format {Path.render path}: {parseMessage source e}"
  | .unformatted count => Bytes.ofString s!"bf fmt: {count} file(s) need formatting"
  | .server e => Bytes.ofString e.message

/-- What is told beside the output proper. -/
inductive Note where
  | usage
  | started (program limits : String)
  | finished (steps : Int) (written pointer : Nat)
deriving DecidableEq, Repr

/-- What differs from one run to the next. -/
structure Stamp where
  time : String
  run : String
  duration : String
deriving DecidableEq, Repr

namespace Note

def usageText : String :=
  "Usage: bf <command> [flags] [args...]\n" ++
  "Commands:\n" ++
  "  run [-check] [-input text] [-config file] [-v] <program>\n" ++
  "  fmt [-w] [-check] <paths...>\n" ++
  "  analyze <program>\n" ++
  "  repl [-config file]\n" ++
  "  lsp\n"

/-- A character that may stand in a value without quotation marks. -/
def isSafe (c : Char) : Bool :=
  if c.toNat < 0x80 then 0x20 < c.toNat && c != '=' && c != '"'
  else c != Utf8.replacement && Printable.isPrintable c

/-- A value in a log line, in quotation marks when it needs them. -/
def value (s : String) : String :=
  if s.isEmpty || !s.toList.all isSafe then Quoted.quoteText (Bytes.ofString s) else s

/-- How every log line begins. -/
def line (stamp : Stamp) (level message : String) : String :=
  s!"time={stamp.time} level={level} msg={value message} run={stamp.run}"

def text (stamp : Stamp) : Note → String
  | .usage => usageText
  | .started program limits =>
    line stamp "DEBUG" "run started" ++ s!" program={value program} limits={value limits}\n"
  | .finished steps written pointer =>
    line stamp "INFO" "run finished" ++
      s!" steps={steps} output_bytes={written} pointer={pointer} duration={stamp.duration}\n"

end Note

structure Result where
  failure? : Option Failure
  output : Bytes
  notes : List Note
  tree : FileTree
deriving DecidableEq, Repr

namespace Result

def idle (s : Setting) : Result := ⟨none, [], [], s.tree⟩

def failed (s : Setting) (f : Failure) : Result := ⟨some f, [], [], s.tree⟩

def printed (s : Setting) (output : Bytes) : Result := ⟨none, output, [], s.tree⟩

end Result
end TapeLang.Command
