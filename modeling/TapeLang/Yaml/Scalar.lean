import TapeLang.Text.Quoted
import TapeLang.Yaml.Cursor

/-! The text of YAML scalars. Where a scalar goes on over several lines, a single line end is
read as a space and further ones as line feeds. -/
namespace TapeLang.Yaml

/-- Blanks or line ends met since the last character: blanks of the same line, last first, or
the number of line ends. -/
structure Gap where
  blanks : List Char
  breaks : Nat
  /-- The first line end was escaped and stands for nothing. -/
  glued : Bool
deriving DecidableEq, Repr

namespace Gap

def none : Gap := ⟨[], 0, false⟩

/-- Blanks at the start of a line do not count. -/
def blank (g : Gap) (c : Char) : Gap :=
  if g.breaks = 0 ∧ !g.glued then { g with blanks := c :: g.blanks } else g

def newline (g : Gap) : Gap := { g with blanks := [], breaks := g.breaks + 1 }

/-- What the gap reads as, last character first. -/
def text (g : Gap) : List Char :=
  if g.glued then List.replicate g.breaks '\n'
  else match g.breaks with
    | 0 => g.blanks
    | 1 => [' ']
    | n + 2 => List.replicate (n + 1) '\n'

end Gap

def isFlowIndicator (c : Char) : Bool :=
  c == ',' || c == '?' || c == '[' || c == ']' || c == '{' || c == '}'

/-- Characters that begin something other than a plain scalar. -/
def isIndicator (c : Char) : Bool :=
  isFlowIndicator c || c == '-' || c == ':' || c == '#' || c == '&' || c == '*' || c == '!' ||
    c == '|' || c == '>' || c == '\'' || c == '"' || c == '%' || c == '@' || c == '`'

def startsPlain (flow : Bool) : List Char → Bool
  | [] => false
  | c :: rest =>
    if c == '-' then !blankNext rest
    else if !flow && (c == '?' || c == ':') then !blankNext rest
    else !isIndicator c

/-- Whether a plain scalar stops before the next character. After a gap it also stops before a
comment, a document marker and, in block context, at a lesser indentation. -/
def endsPlain (flow : Bool) (indent : Nat) (g : Gap) (cur : Cursor) : Bool :=
  match cur.rest with
  | [] => true
  | c :: rest =>
    (c == ':' && blankNext rest) || (flow && isFlowIndicator c) ||
      (g != Gap.none && c == '#') ||
      (g.breaks != 0 && (cur.atMarker || (!flow && cur.column < indent)))

/-- The text of a plain scalar and the cursor behind it and the gap after it. -/
def plainFrom (flow : Bool) (indent : Nat) (acc : List Char) (g : Gap) (line column : Nat) :
    List Char → Option (List Char × Cursor)
  | [] => some (acc.reverse, ⟨[], line, column⟩)
  | c :: rest =>
    if c = '\n' then plainFrom flow indent acc g.newline (line + 1) 0 rest
    else if isSpaceOrTab c then
      if c = '\t' ∧ g.breaks ≠ 0 ∧ column < indent then none
      else plainFrom flow indent acc (g.blank c) line (column + 1) rest
    else if endsPlain flow indent g ⟨c :: rest, line, column⟩ then
      some (acc.reverse, ⟨c :: rest, line, column⟩)
    else plainFrom flow indent (c :: (g.text ++ acc)) .none line (column + 1) rest

def plain? (flow : Bool) (indent : Nat) (cur : Cursor) : Option (List Char × Cursor) :=
  plainFrom flow indent [] .none cur.line cur.column cur.rest

/-- Text in single quotation marks, where a mark is written twice. -/
def singleFrom (acc : List Char) (g : Gap) (line column : Nat) :
    List Char → Option (List Char × Cursor)
  | [] => none
  | '\'' :: '\'' :: rest => singleFrom ('\'' :: (g.text ++ acc)) .none line (column + 2) rest
  | c :: rest =>
    if g.breaks ≠ 0 ∧ Cursor.atMarker ⟨c :: rest, line, column⟩ then none
    else if c = '\'' then some ((g.text ++ acc).reverse, ⟨rest, line, column + 1⟩)
    else if c = '\n' then singleFrom acc g.newline (line + 1) 0 rest
    else if isSpaceOrTab c then singleFrom acc (g.blank c) line (column + 1) rest
    else singleFrom (c :: (g.text ++ acc)) .none line (column + 1) rest

def escaped? : Char → Option Char
  | '0' => some '\x00'
  | 'a' => some '\x07'
  | 'b' => some '\x08'
  | 't' | '\t' => some '\t'
  | 'n' => some '\n'
  | 'v' => some '\x0b'
  | 'f' => some '\x0c'
  | 'r' => some '\r'
  | 'e' => some '\x1b'
  | ' ' => some ' '
  | '"' => some '"'
  | '\'' => some '\''
  | '/' => some '/'
  | '\\' => some '\\'
  | 'N' => some '\u0085'
  | '_' => some '\u00a0'
  | 'L' => some '\u2028'
  | 'P' => some '\u2029'
  | _ => none

def escapeDigits? : Char → Option Nat
  | 'x' => some 2
  | 'u' => some 4
  | 'U' => some 8
  | _ => none

/-- Where reading stands in double quotation marks. -/
inductive DoubleMode where
  | text
  | escape
  | digits (left value : Nat)
deriving DecidableEq, Repr

def doubleFrom (mode : DoubleMode) (acc : List Char) (g : Gap) (line column : Nat) :
    List Char → Option (List Char × Cursor)
  | [] => none
  | c :: rest =>
    match mode with
    | .text =>
      if g.breaks ≠ 0 ∧ Cursor.atMarker ⟨c :: rest, line, column⟩ then none
      else if c = '"' then some ((g.text ++ acc).reverse, ⟨rest, line, column + 1⟩)
      else if c = '\\' then doubleFrom .escape (g.text ++ acc) .none line (column + 1) rest
      else if c = '\n' then doubleFrom .text acc g.newline (line + 1) 0 rest
      else if isSpaceOrTab c then doubleFrom .text acc (g.blank c) line (column + 1) rest
      else doubleFrom .text (c :: (g.text ++ acc)) .none line (column + 1) rest
    | .escape =>
      if c = '\n' then doubleFrom .text acc ⟨[], 0, true⟩ (line + 1) 0 rest
      else match escaped? c, escapeDigits? c with
        | some x, _ => doubleFrom .text (x :: acc) .none line (column + 1) rest
        | none, some n => doubleFrom (.digits n 0) acc .none line (column + 1) rest
        | none, none => none
    | .digits left value =>
      match Quoted.digit? 16 c with
      | none => none
      | some d =>
        let value := value * 16 + d
        if 1 < left then doubleFrom (.digits (left - 1) value) acc .none line (column + 1) rest
        else if value.isValidChar then
          doubleFrom .text (Char.ofNat value :: acc) .none line (column + 1) rest
        else none

/-- Text in quotation marks, whose opening mark comes next. -/
def quoted? (cur : Cursor) : Option (List Char × Cursor) :=
  match cur.rest with
  | '"' :: rest => doubleFrom .text [] .none cur.line (cur.column + 1) rest
  | '\'' :: rest => singleFrom [] .none cur.line (cur.column + 1) rest
  | _ => none

end TapeLang.Yaml
