import TapeLang.Command.Flags

/-! The commands and how they are called. -/
namespace TapeLang

inductive Command where
  /-- Runs a program, or only checks that it is one. Input is given or comes from outside. -/
  | run (program : String) (check : Bool) (input? : Option String) (config : String)
    (verbose : Bool)
  /-- Brings programs into canonical layout: prints it, writes it back, or checks for it. -/
  | format (targets : List String) (write check : Bool)
  /-- Warns about code that does nothing useful. -/
  | analyze (program : String)
  /-- An interactive session. -/
  | repl (config : String)
  /-- A language server. -/
  | serve
  | help
deriving DecidableEq, Repr

namespace Command

/-- The paths that a command looks at. -/
def paths : Command → List String
  | .run program _ _ config _ => [config, program]
  | .format targets _ _ => targets
  | .analyze program => [program]
  | .repl config => [config]
  | .serve | .help => []

/-- Whether a command reads the input from outside to its end. -/
def readsInput : Command → Bool
  | .run _ check input? _ _ => !check && input?.isNone
  | _ => false

/-- Why arguments are no command. -/
inductive CallError where
  | noCommand
  | flags (e : Flags.FlagError)
  | noProgram (command : String)
  | noTargets
  | unexpected (argument : String)
deriving DecidableEq, Repr

def CallError.message : CallError → String
  | .noCommand => "invalid command"
  | .flags e => e.message
  | .noProgram command => s!"bf {command}: program path required"
  | .noTargets => "bf fmt: path required"
  | .unexpected argument =>
    s!"bf lsp: unexpected argument {Quoted.quoteText (Bytes.ofString argument)}"

/-- Reads the flags of a command before the rest. -/
def withFlags (known : Flags.Known) (arguments : List String)
    (k : Flags.Given → Except CallError Command) : Except CallError Command :=
  match Flags.read known arguments with
  | .error e => .error (.flags e)
  | .ok given => k given

/-- Arguments after the needed ones are passed over. -/
def ofArguments : List String → Except CallError Command
  | "run" :: arguments =>
    withFlags [("check", .switch), ("input", .text), ("config", .text), ("v", .switch)] arguments
      fun given =>
        match given.rest with
        | [] => .error (.noProgram "run")
        | program :: _ =>
          .ok (.run program (given.isOn "check") (given.text? "input")
            ((given.text? "config").getD "") (given.isOn "v"))
  | "fmt" :: arguments =>
    withFlags [("w", .switch), ("check", .switch)] arguments fun given =>
      if given.rest.isEmpty then .error .noTargets
      else .ok (.format given.rest (given.isOn "w") (given.isOn "check"))
  | "analyze" :: arguments =>
    withFlags [] arguments fun given =>
      match given.rest with
      | [] => .error (.noProgram "analyze")
      | program :: _ => .ok (.analyze program)
  | "repl" :: arguments =>
    withFlags [("config", .text)] arguments fun given =>
      .ok (.repl ((given.text? "config").getD ""))
  | "lsp" :: arguments =>
    match arguments with
    | [] => .ok .serve
    | argument :: _ => .error (.unexpected argument)
  | "help" :: _ | "-h" :: _ | "--help" :: _ => .ok .help
  | _ => .error .noCommand

end Command
end TapeLang
