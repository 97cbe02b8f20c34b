import TapeLang.Source.CodeFrame
import TapeLang.Text.Quoted

/-! The eight symbols of the language and how a text is read as a sequence of them. Spaces,
tabs, carriage returns and line feeds separate symbols; any other character is an error. -/
namespace TapeLang

/-- What a symbol outside brackets does. -/
inductive Instr where
  | right
  | left
  | increment
  | decrement
  | output
  | input
deriving DecidableEq, Repr

inductive Symbol where
  | act (i : Instr)
  | opening
  | closing
deriving DecidableEq, Repr

def Instr.toChar : Instr → Char
  | .right => '>'
  | .left => '<'
  | .increment => '+'
  | .decrement => '-'
  | .output => '.'
  | .input => ','

namespace Symbol

def toChar : Symbol → Char
  | .act i => i.toChar
  | .opening => '['
  | .closing => ']'

def ofChar? : Char → Option Symbol
  | '>' => some (.act .right)
  | '<' => some (.act .left)
  | '+' => some (.act .increment)
  | '-' => some (.act .decrement)
  | '.' => some (.act .output)
  | ',' => some (.act .input)
  | '[' => some .opening
  | ']' => some .closing
  | _ => none

/-- All symbols, in the order in which they are documented. -/
def all : List Symbol :=
  [.act .right, .act .left, .act .increment, .act .decrement, .act .output, .act .input,
    .opening, .closing]

end Symbol

/-- The characters that may stand between symbols. -/
def isBlank (c : Char) : Bool := c == ' ' || c == '\t' || c == '\r' || c == '\n'

structure Token where
  symbol : Symbol
  pos : Position
deriving DecidableEq, Repr

/-- A character that belongs to no token. -/
structure LexError where
  detail : String
  pos : Position
deriving DecidableEq, Repr

namespace LexError

def unexpected (c : Char) (pos : Position) : LexError :=
  ⟨"unexpected character " ++ Quoted.quoteChar c, pos⟩

def headline (e : LexError) : String := s!"lex error at {e.pos.line}:{e.pos.column}: {e.detail}"

/-- The error as shown for the text it was found in. -/
def message (source : List Char) (e : LexError) : String :=
  CodeFrame.below e.headline (CodeFrame.describe source e.pos)

end LexError

namespace Token

/-- The tokens read so far are in `acc`, last first. -/
def scanFrom (pos : Position) (acc : List Token) : List Char → Except LexError (List Token)
  | [] => .ok acc.reverse
  | c :: rest =>
    match Symbol.ofChar? c with
    | some s => scanFrom (pos.advance c) (⟨s, pos⟩ :: acc) rest
    | none =>
      if isBlank c then scanFrom (pos.advance c) acc rest
      else .error (.unexpected c pos)

/-- The tokens of a text, or its first character that is neither a symbol nor a blank. -/
def scan (source : List Char) : Except LexError (List Token) := scanFrom .start [] source

end Token
end TapeLang
