import TapeLang.Source.Token

/-! Programs as trees. -/
namespace TapeLang

/-- A sequence of statements: it ends, or an instruction or a loop comes first. Each statement
has the position of its own symbol, a loop that of its opening bracket. -/
inductive Block where
  | done
  | act (instr : Instr) (pos : Position) (next : Block)
  | loop (pos : Position) (body next : Block)
deriving DecidableEq, Repr, Inhabited

namespace Block

/-- Adds the number of statements to `n`. -/
def countFrom (n : Nat) : Block → Nat
  | .done => n
  | .act _ _ next => countFrom (n + 1) next
  | .loop _ body next => countFrom (countFrom (n + 1) body) next

/-- The number of statements; a loop counts once besides its body. -/
def count (b : Block) : Nat := countFrom 0 b

def lengthFrom (n : Nat) : Block → Nat
  | .done => n
  | .act _ _ next => lengthFrom (n + 1) next
  | .loop _ _ next => lengthFrom (n + 1) next

/-- The number of statements outside loop bodies. -/
def length (b : Block) : Nat := lengthFrom 0 b

def depthFrom (n : Nat) : Block → Nat
  | .done => n
  | .act _ _ next => depthFrom n next
  | .loop _ body next => depthFrom (max n (depthFrom 0 body + 1)) next

def depth (b : Block) : Nat := depthFrom 0 b

def firstPos : Block → Position
  | .done => .start
  | .act _ p _ => p
  | .loop p _ _ => p

/-- A statement of a tree, with the number of loops around it. -/
structure Entry where
  depth : Nat
  symbol : Symbol
  pos : Position
deriving DecidableEq, Repr

def outlineFrom (depth : Nat) (acc : List Entry) : Block → List Entry
  | .done => acc
  | .act i p next => outlineFrom depth (⟨depth, .act i, p⟩ :: acc) next
  | .loop p body next =>
    outlineFrom depth (outlineFrom (depth + 1) (⟨depth, .opening, p⟩ :: acc) body) next

/-- Every statement in source order, a loop before its body. -/
def outline (b : Block) : List Entry := (outlineFrom 0 [] b).reverse

end Block

/-- A statement list and the text it was read from. -/
structure Program where
  body : Block
  source : Bytes
deriving DecidableEq, Repr

def Program.text (p : Program) : List Char := Utf8.decode p.source

end TapeLang
