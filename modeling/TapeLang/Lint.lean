import TapeLang.Program.Parse

/-! Warnings about programs that are well formed and yet look like mistakes. -/
namespace TapeLang

inductive Issue where
  | blankTape
  | afterLoop
  | endless
  | cancels (first second : Instr)
deriving DecidableEq, Repr

def Issue.message : Issue → String
  | .blankTape => "loop never runs: tape is still zero"
  | .afterLoop => "loop never runs: current cell is zero after the previous loop"
  | .endless => "empty loop never terminates when the current cell is nonzero"
  | .cancels a b =>
    s!"{Quoted.quoteChar b.toChar} cancels the preceding {Quoted.quoteChar a.toChar}"

structure Warning where
  pos : Position
  issue : Issue
deriving DecidableEq, Repr

namespace Lint

/-- Instructions after which a cell may no longer be zero. -/
def changesCells : Instr → Bool
  | .increment | .decrement | .input => true
  | _ => false

/-- Two instructions in a row that undo each other. -/
def cancels : Instr → Instr → Bool
  | .increment, .decrement | .decrement, .increment | .right, .left | .left, .right => true
  | _, _ => false

/-- What is wrong with a loop, the first reason that holds. -/
def loopIssue? (blank : Bool) (previous? : Option Symbol) (body : Block) : Option Issue :=
  if blank then some .blankTape
  else if previous? = some .opening then some .afterLoop
  else if body = .done then some .endless
  else none

def pairIssue? (previous? : Option Symbol) (i : Instr) : Option Issue :=
  match previous? with
  | some (.act j) => if cancels j i then some (.cancels j i) else none
  | _ => none

def note (pos : Position) (issue? : Option Issue) (acc : List Warning) : List Warning :=
  match issue? with
  | some issue => ⟨pos, issue⟩ :: acc
  | none => acc

/-- Here `blank` holds while every cell is known to be zero, which a loop body never is.
`previous?` is the statement before in the same block, an opening bracket for a loop. The
warnings so far are in `acc`, last first. -/
def warningsFrom (blank : Bool) (previous? : Option Symbol) (acc : List Warning) :
    Block → List Warning
  | .done => acc
  | .act i pos next =>
    warningsFrom (blank && !changesCells i) (some (.act i))
      (note pos (pairIssue? previous? i) acc) next
  | .loop pos body next =>
    let noted := note pos (loopIssue? blank previous? body) acc
    warningsFrom blank (some .opening) (warningsFrom false none noted body) next

end Lint

/-- All warnings in source order. -/
def Program.warnings (p : Program) : List Warning :=
  (Lint.warningsFrom true none [] p.body).reverse.mergeSort fun a b => a.pos.offset ≤ b.pos.offset

end TapeLang
