import TapeLang.Settings.Basic
import TapeLang.Yaml.Resolve

/-! Settings from YAML files. -/
namespace TapeLang.Settings
open Yaml (Meaning Node)

/-- A part of a file that does not fit the settings. -/
structure Problem where
  line : Nat
  text : Bytes
deriving DecidableEq, Repr

/-- What a node is read as. -/
inductive Target where
  | settings
  | session
  | int
  | text
deriving DecidableEq, Repr

def Target.name : Target → String
  | .settings => "main.cliConfig"
  | .session => "main.replConfig"
  | .int => "int"
  | .text => "string"

/-- A value in a message; a long one is cut. -/
def excerpt (text : List Char) : Bytes :=
  let bytes := Utf8.encode text
  let shown := if 10 < bytes.length then bytes.take 7 ++ Bytes.ofString "..." else bytes
  Bytes.ofString " `" ++ shown ++ Bytes.ofString "`"

def misfit (line : Nat) (tag : String) (value : Bytes) (target : Target) : Problem :=
  ⟨line, Bytes.ofString s!"cannot unmarshal {tag}" ++ value ++
    Bytes.ofString s!" into {target.name}"⟩

def unknownField (line : Nat) (name : List Char) (target : Target) : Problem :=
  ⟨line, Bytes.ofString s!"field {String.ofList name} not found in type {target.name}"⟩

def repeatedKey (line first : Nat) (key : List Char) : Problem :=
  let name := Quoted.quoteText (Utf8.encode key)
  ⟨line, Bytes.ofString s!"mapping key {name} already defined at line {first}"⟩

/-- What keys are compared by: collections count as equal when they are of one kind. -/
inductive KeyKind where
  | scalar
  | list
  | mapping
deriving DecidableEq, Repr

structure KeyName where
  line : Nat
  kind : KeyKind
  text : List Char
deriving DecidableEq, Repr

def KeyName.ofNode : Node → KeyName
  | .scalar line text _ => ⟨line, .scalar, text⟩
  | .list line _ => ⟨line, .list, []⟩
  | .mapping line _ => ⟨line, .mapping, []⟩

/-- One problem for each pair of equal keys. -/
def repeats : List KeyName → List Problem
  | [] => []
  | k :: rest =>
    (rest.filterMap fun k' =>
      if k'.kind = k.kind ∧ k'.text = k.text then some (repeatedKey k'.line k.line k.text)
      else none) ++ repeats rest

def repeatsIn (entries : List (Node × Node)) : List Problem :=
  repeats (entries.map fun e => .ofNode e.1)

/-- The meaning of a scalar; text in quotation marks is just text. -/
def meaning (text : List Char) (isPlain : Bool) : Meaning :=
  if isPlain then Yaml.denote text else .text

/-- A node that is no scalar where a scalar is wanted. -/
def collectionProblems (target : Target) : Node → List Problem
  | .scalar .. => []
  | .list line _ => [misfit line "!!seq" [] target]
  | .mapping line entries =>
    match repeatsIn entries with
    | [] => [misfit line "!!map" [] target]
    | problems => problems

/-- The integer of a node, `none` to keep the one there is. -/
def readInt : Node → Option Int × List Problem
  | .scalar line text isPlain =>
    let d := meaning text isPlain
    let wrong := (none, [misfit line d.tag (excerpt text) .int])
    match d with
    | .null => (none, [])
    | .int n => if n < Word.bound then (some n, []) else wrong
    | .float x => if x.toInt?.isSome then (x.toInt?, []) else wrong
    | _ => wrong
  | node => (none, collectionProblems .int node)

/-- The text of a node, whatever scalar it is. -/
def readText : Node → Option (List Char) × List Problem
  | .scalar _ text isPlain =>
    if meaning text isPlain = .null then (none, []) else (some text, [])
  | node => (none, collectionProblems .text node)

/-- Settings and the problems met so far, last first. -/
structure Progress where
  settings : Settings
  problems : List Problem

def Progress.add (p : Progress) (problems : List Problem) : Progress :=
  { p with problems := problems.reverse ++ p.problems }

/-- Reads a mapping entry by entry. Keys that are null are passed over. -/
def readEntries (target : Target)
    (store : String → Node → Progress → Option Progress) (entries : List (Node × Node))
    (p : Progress) : Progress :=
  match repeatsIn entries with
  | [] =>
    entries.foldl (fun p (key, value) =>
      match readText key with
      | (none, problems) => p.add problems
      | (some name, _) =>
        (store (String.ofList name) value p).getD
          (p.add [unknownField (KeyName.ofNode key).line name target])) p
  | problems => p.add problems

/-- Reads a mapping; null keeps what there is. -/
def readMapping (target : Target) (store : String → Node → Progress → Option Progress)
    (node : Node) (p : Progress) : Progress :=
  match node with
  | .mapping _ entries => readEntries target store entries p
  | .list line _ => p.add [misfit line "!!seq" [] target]
  | .scalar line text isPlain =>
    match meaning text isPlain with
    | .null => p
    | d => p.add [misfit line d.tag (excerpt text) target]

def storeInt (value : Node) (set : Settings → Int → Settings) (p : Progress) : Progress :=
  let (n?, problems) := readInt value
  { p with settings := n?.elim p.settings (set p.settings) }.add problems

/-- The fields of the `repl` mapping. -/
def storeSession (name : String) (value : Node) (p : Progress) : Option Progress :=
  match name with
  | "prompt" =>
    let (text?, problems) := readText value
    let settings := text?.elim p.settings fun t => { p.settings with prompt := String.ofList t }
    some ({ p with settings }.add problems)
  | "tape_window" => some (storeInt value (fun s n => { s with tapeWindow := n }) p)
  | _ => none

def storeField (name : String) (value : Node) (p : Progress) : Option Progress :=
  match name with
  | "step_quota" => some (storeInt value (fun s n => { s with stepQuota := n }) p)
  | "repl" => some (readMapping .session storeSession value p)
  | _ => none

inductive ReadError where
  | notOpened (path reason : String)
  | unreadable (path reason : String)
  | empty (path : String)
  | malformed (path : String)
  | misfit (path : String) (problems : List Problem)
  | invalid (path : String) (issues : List String)
deriving DecidableEq, Repr

/-- A problem on a line of its own. -/
def Problem.describe (p : Problem) : Bytes := Bytes.ofString s!"\n  line {p.line}: " ++ p.text

def ReadError.message : ReadError → Bytes
  | .notOpened path reason => Bytes.ofString s!"config: open {path}: {reason}"
  | .unreadable path reason => Bytes.ofString s!"config: parse {path}: yaml: input error: {reason}"
  | .empty path => Bytes.ofString s!"config: {path} is empty"
  | .malformed path => Bytes.ofString s!"config: parse {path}: yaml: not well formed"
  | .misfit path problems =>
    Bytes.ofString s!"config: parse {path}: yaml: unmarshal errors:" ++
      problems.flatMap Problem.describe
  | .invalid path issues =>
    Bytes.ofString (s!"config: {path}: " ++ "; ".intercalate issues)

/-- Settings from the content of a file. What the file leaves out is as usual. -/
def ofFile (path : String) (content : Bytes) : Except ReadError Settings :=
  match Yaml.firstDocument? content with
  | none => .error (.malformed path)
  | some none => .error (.empty path)
  | some (some node) =>
    let p := readMapping .settings storeField node ⟨defaults, []⟩
    match p.problems, p.settings.issues with
    | [], [] => .ok p.settings.withPrompt
    | [], issues => .error (.invalid path issues)
    | problems, _ => .error (.misfit path problems.reverse)

end TapeLang.Settings
