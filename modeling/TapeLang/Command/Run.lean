import TapeLang.Channel.Stream
import TapeLang.Command.Result
import TapeLang.Settings.Load

/-! Running a program from a file. -/
namespace TapeLang.Command

/-- A program run to its end, with notes when they are wanted. -/
def runResult (s : Setting) (e : Engine) (program : String) (verbose : Bool) (r : Run Stream) :
    Result :=
  let m := r.machine
  let notes :=
    if verbose then
      [.started program e.summary, .finished m.stepWord.toInt m.log.size m.pointer.val]
    else []
  ⟨r.error?.map .notFinished, m.channel.collector.sink.accepted.toList, notes, s.tree⟩

/-- The settings come before the program, and the program before its run. Input that is given
replaces the input from outside. -/
def runFile (fuel : Nat) (s : Setting) (program : String) (check : Bool) (input? : Option String)
    (config : String) (verbose : Bool) : Option Result :=
  match Settings.load s.tree s.here config with
  | .error e => some (.failed s (.settings e))
  | .ok settings =>
    match s.tree.read (.ofText s.here program) with
    | .error e => some (.failed s (.unreadable e))
    | .ok source =>
      match Engine.ofQuota settings.stepQuota, Program.parse source with
      | .error message, _ => some (.failed s (.badQuota message))
      | .ok _, .error e => some (.failed s (.notCompiled source e))
      | .ok e, .ok p =>
        if check then some (.idle s)
        else
          let input := input?.elim s.input Bytes.ofString
          let stream := Stream.fresh (.ofInput input [] [] .endOfInput) (.fresh none)
          (e.run (e.fuel fuel) p stream).map (runResult s e program verbose)

end TapeLang.Command
