import TapeLang.Command.Analyze
import TapeLang.Command.Format
import TapeLang.Command.Run

/-! Every command as one function of where it runs. -/
namespace TapeLang.Command

def serveInput (s : Setting) : Result :=
  let served := Server.serve none .empty s.input
  { Result.printed s served.output with failure? := served.error?.map .server }

/-- An interactive session only begins here: its settings have to be right. -/
def openSession (s : Setting) (config : String) : Result :=
  match Settings.load s.tree s.here config with
  | .error e => .failed s (.settings e)
  | .ok _ => .idle s

/-- Performs a command. Fuel bounds a run without a quota, and `none` says that it ran out. -/
def perform (fuel : Nat) (s : Setting) : Command → Option Result
  | .run program check input? config verbose => runFile fuel s program check input? config verbose
  | .format targets write check => some (formatFiles s targets write check)
  | .analyze program => some (analyzeFile s program)
  | .repl config => some (openSession s config)
  | .serve => some (serveInput s)
  | .help => some { Result.idle s with notes := [.usage] }

/-- Performs what the arguments ask for. Without a command the usage is told. -/
def performArguments (fuel : Nat) (s : Setting) (arguments : List String) : Option Result :=
  match ofArguments arguments with
  | .ok c => c.perform fuel s
  | .error .noCommand => some { Result.failed s (.call .noCommand) with notes := [.usage] }
  | .error e => some (.failed s (.call e))

end TapeLang.Command
