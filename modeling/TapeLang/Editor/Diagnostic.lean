import TapeLang.Editor.Column
import TapeLang.Lint

/-! Problems of a source text as an editor marks them. -/
namespace TapeLang.Editor

inductive Severity where
  | error
  | warning
deriving DecidableEq, Repr

def Severity.code : Severity → Nat
  | .error => 1
  | .warning => 2

/-- A problem, marked from `first` up to before `last` on one line. -/
structure Diagnostic where
  line : Nat
  first : Nat
  last : Nat
  severity : Severity
  message : String
deriving DecidableEq, Repr

/-- Marks the character at `pos` in the rows of a text, or one unit where there is none. -/
def mark (rows : List (List Char)) (pos : Position) (severity : Severity) (message : String) :
    Diagnostic :=
  let line := (pos.line - 1).toNat
  let cs := rows[line]?.getD []
  let column := (pos.column - 1).toNat
  let first := unitsBefore cs column
  let width := if pos.column < 1 then 1 else (cs[column]?.map units).getD 1
  ⟨line, first, first + width, severity, message⟩

/-- The error of a text that is no program, and otherwise the warnings about it. -/
def diagnose (source : Bytes) : List Diagnostic :=
  let rows := rows source
  match Program.parse source with
  | .error e => [mark rows e.pos .error e.detail]
  | .ok p => p.warnings.map fun w => mark rows w.pos .warning w.issue.message

end TapeLang.Editor
