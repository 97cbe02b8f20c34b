import TapeLang.Program.Basic

/-! Reading programs. The whole text is read as tokens first, so a stray character is reported
before any bracket. -/
namespace TapeLang

/-- What is wrong with a text. Errors built by hand may carry other numbers. -/
inductive ParseError.Kind where
  | lexical
  | unexpectedClosing
  | unclosedOpening
  | other (code : Int)
deriving DecidableEq, Repr

namespace ParseError.Kind

def ofCode : Int → Kind
  | 1 => .lexical
  | 2 => .unexpectedClosing
  | 3 => .unclosedOpening
  | n => .other n

def code : Kind → Int
  | .lexical => 1
  | .unexpectedClosing => 2
  | .unclosedOpening => 3
  | .other n => n

def name : Kind → String
  | .lexical => "lexer failure"
  | .unexpectedClosing => "unexpected closing bracket"
  | .unclosedOpening => "unclosed opening bracket"
  | .other n => s!"ParseErrorKind({n})"

end ParseError.Kind

structure ParseError where
  kind : ParseError.Kind
  pos : Position
  lexical? : Option LexError
deriving DecidableEq, Repr

namespace ParseError

def ofLexError (e : LexError) : ParseError := ⟨.lexical, e.pos, some e⟩

def unexpectedClosing (pos : Position) : ParseError := ⟨.unexpectedClosing, pos, none⟩

def unclosedOpening (pos : Position) : ParseError := ⟨.unclosedOpening, pos, none⟩

def lexCause? (e : ParseError) : Option LexError :=
  if e.kind = .lexical then e.lexical? else none

/-- A token error speaks for itself; a bracket error is named with its place. -/
def message (source : List Char) (e : ParseError) : String :=
  match e.lexCause? with
  | some l => l.message source
  | none =>
    CodeFrame.below s!"parse error at {e.pos.line}:{e.pos.column}: {e.kind.name}"
      (CodeFrame.describe source e.pos)

/-- The text of what lies behind the error. -/
def cause? (source : List Char) (e : ParseError) : Option String :=
  match e.kind with
  | .lexical => e.lexical?.map (LexError.message source)
  | .unexpectedClosing | .unclosedOpening => some e.kind.name
  | .other _ => none

/-- The error in a few words, without its place. -/
def detail (e : ParseError) : String :=
  match e.lexCause? with
  | some l => l.detail
  | none => e.kind.name

end ParseError

namespace Block

/-- A statement on its own. -/
inductive Statement where
  | act (instr : Instr) (pos : Position)
  | loop (pos : Position) (body : Block)
deriving DecidableEq, Repr

def cons : Statement → Block → Block
  | .act i p, next => .act i p next
  | .loop p body, next => .loop p body next

def ofReversed (statements : List Statement) : Block :=
  statements.foldl (fun next s => cons s next) .done

/-- An open loop: its bracket and what stands before it, last first. -/
structure Scope where
  opened : Position
  before : List Statement
deriving DecidableEq, Repr

/-- Reads tokens; `current` holds the statements since the innermost open bracket, last
first. -/
def parseFrom (current : List Statement) (scopes : List Scope) :
    List Token → Except ParseError Block
  | [] =>
    match scopes with
    | [] => .ok (ofReversed current)
    | s :: _ => .error (.unclosedOpening s.opened)
  | ⟨.act i, p⟩ :: rest => parseFrom (.act i p :: current) scopes rest
  | ⟨.opening, p⟩ :: rest => parseFrom [] (⟨p, current⟩ :: scopes) rest
  | ⟨.closing, p⟩ :: rest =>
    match scopes with
    | [] => .error (.unexpectedClosing p)
    | s :: scopes => parseFrom (.loop s.opened (ofReversed current) :: s.before) scopes rest

def ofTokens (tokens : List Token) : Except ParseError Block := parseFrom [] [] tokens

end Block

namespace Program

def parse (source : Bytes) : Except ParseError Program :=
  match Token.scan (Utf8.decode source) with
  | .error e => .error (.ofLexError e)
  | .ok tokens => (Block.ofTokens tokens).map (⟨·, source⟩)

end Program
end TapeLang
