import TapeLang.Command.Result
import TapeLang.Lint

/-! Warnings about a program in a file. -/
namespace TapeLang.Command

/-- A warning with its place, on a line of its own. -/
def warningLine (path : Path) (w : Warning) : String :=
  s!"{Path.render path}:{w.pos.line}:{w.pos.column}: {w.issue.message}\n"

/-- The file is named from the root, by the spelling of its path. -/
def analyzeFile (s : Setting) (program : String) : Result :=
  let path := Path.ofText s.here program
  match s.tree.read (.ofPath path) with
  | .error e => .failed s (.unreadable e)
  | .ok source =>
    match Program.parse source with
    | .error e => .failed s (.notAnalyzed source e)
    | .ok p =>
      match p.warnings with
      | [] => .printed s (Bytes.ofString "No issues found\n")
      | warnings =>
        { Result.failed s (.issues warnings.length) with
          output := warnings.flatMap fun w => Bytes.ofString (warningLine path w) }

end TapeLang.Command
