import TapeLang.Text.Quoted

/-! Flags at the front of an argument list. One or two dashes begin a flag, and a value may
follow its name after an equals sign. Flags end at the first argument that is none, or after
two dashes alone. -/
namespace TapeLang.Flags

/-- What a flag holds. A switch needs no value; the value of a text may be the next argument. -/
inductive Kind where
  | switch
  | text
deriving DecidableEq, Repr

abbrev Known := List (String × Kind)

inductive FlagError where
  | badForm (argument : String)
  | helpWanted
  | unknown (name : String)
  | badSwitch (name value : String)
  | missingValue (name : String)
deriving DecidableEq, Repr

def FlagError.message : FlagError → String
  | .badForm argument => s!"bad flag syntax: {argument}"
  | .helpWanted => "flag: help requested"
  | .unknown name => s!"flag provided but not defined: -{name}"
  | .badSwitch name value =>
    s!"invalid boolean value {Quoted.quoteText (Bytes.ofString value)} for -{name}: parse error"
  | .missingValue name => s!"flag needs an argument: -{name}"

/-- An argument by its form: no flag, the end of all flags, or a flag with its value, if it
has one. -/
inductive Form where
  | plain
  | ending
  | flag (name : String) (value? : Option String)
  | bad
deriving DecidableEq, Repr

/-- A flag without its dashes. The name is not empty and starts with neither a dash nor an
equals sign. -/
def Form.ofName : List Char → Form
  | [] => .bad
  | c :: rest =>
    if c = '-' ∨ c = '=' then .bad
    else
      let name := String.ofList (c :: rest.takeWhile (· != '='))
      match rest.dropWhile (· != '=') with
      | [] => .flag name none
      | _ :: value => .flag name (some (String.ofList value))

def Form.ofArgument (argument : String) : Form :=
  match argument.toList with
  | ['-', '-'] => .ending
  | '-' :: '-' :: name => .ofName name
  | ['-'] => .plain
  | '-' :: name => .ofName name
  | _ => .plain

def switch? (value : String) : Option Bool :=
  if ["1", "t", "T", "true", "TRUE", "True"].contains value then some true
  else if ["0", "f", "F", "false", "FALSE", "False"].contains value then some false
  else none

/-- Flags that were given, last first, and the arguments after them. -/
structure Given where
  switches : List (String × Bool)
  texts : List (String × String)
  rest : List String
deriving DecidableEq, Repr

namespace Given

def none : Given := ⟨[], [], []⟩

/-- A switch is off unless it is given; the last value counts. -/
def isOn (g : Given) (name : String) : Bool := (g.switches.lookup name).getD false

def text? (g : Given) (name : String) : Option String := g.texts.lookup name

end Given

/-- Reads flags; `given` has those before. -/
def readFrom (known : Known) (given : Given) : List String → Except FlagError Given
  | [] => .ok given
  | argument :: rest =>
    match Form.ofArgument argument with
    | .plain => .ok { given with rest := argument :: rest }
    | .ending => .ok { given with rest }
    | .bad => .error (.badForm argument)
    | .flag name value? =>
      match known.lookup name, value? with
      | none, _ => .error (if name = "help" ∨ name = "h" then .helpWanted else .unknown name)
      | some .switch, none =>
        readFrom known { given with switches := (name, true) :: given.switches } rest
      | some .switch, some value =>
        match switch? value with
        | none => .error (.badSwitch name value)
        | some on => readFrom known { given with switches := (name, on) :: given.switches } rest
      | some .text, some value =>
        readFrom known { given with texts := (name, value) :: given.texts } rest
      | some .text, none =>
        match rest with
        | [] => .error (.missingValue name)
        | value :: rest => readFrom known { given with texts := (name, value) :: given.texts } rest

def read (known : Known) (arguments : List String) : Except FlagError Given :=
  readFrom known .none arguments

end TapeLang.Flags
