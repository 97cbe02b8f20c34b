import TapeLang.Program.Parse

/-! The canonical layout: runs of instructions share a line, brackets stand on lines of their
own, an empty loop is one line, and a loop's body is indented. -/
namespace TapeLang
namespace Layout

inductive Content where
  | run (instrs : List Instr)
  | emptyLoop
  | opening
  | closing
deriving DecidableEq, Repr

structure Line where
  depth : Nat
  content : Content
deriving DecidableEq, Repr

def Content.chars : Content → List Char
  | .run is => is.map Instr.toChar
  | .emptyLoop => ['[', ']']
  | .opening => ['[']
  | .closing => [']']

/-- Two spaces for each loop around the line. -/
def Line.chars (l : Line) : List Char :=
  List.replicate (2 * l.depth) ' ' ++ l.content.chars ++ ['\n']

/-- Adds the pending run, last instruction first, as a line unless it is empty. -/
def endRun (depth : Nat) (run : List Instr) (acc : List Line) : List Line :=
  if run.isEmpty then acc else ⟨depth, .run run.reverse⟩ :: acc

/-- The lines so far are in `acc`, last first. -/
def linesFrom (depth : Nat) (run : List Instr) (acc : List Line) : Block → List Line
  | .done => endRun depth run acc
  | .act i _ next => linesFrom depth (i :: run) acc next
  | .loop _ .done next => linesFrom depth [] (⟨depth, .emptyLoop⟩ :: endRun depth run acc) next
  | .loop _ body next =>
    let opened := ⟨depth, .opening⟩ :: endRun depth run acc
    linesFrom depth [] (⟨depth, .closing⟩ :: linesFrom (depth + 1) [] opened body) next

def lines (b : Block) : List Line := (linesFrom 0 [] [] b).reverse

def chars (b : Block) : List Char := (lines b).flatMap Line.chars

end Layout

def Program.format (p : Program) : Bytes := Utf8.encode (Layout.chars p.body)

/-- No program has no text. -/
def formatProgram (program? : Option Program) : Bytes := program?.elim [] Program.format

def formatSource (source : Bytes) : Except ParseError Bytes :=
  (Program.parse source).map Program.format

end TapeLang
