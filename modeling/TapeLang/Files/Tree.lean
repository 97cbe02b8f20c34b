import TapeLang.Files.Path
import TapeLang.Text.Utf8

/-! Trees of files, directories and symbolic links, and what looking into them gives. -/
namespace TapeLang

inductive FileEntry where
  | file (content : Bytes)
  | directory
  | link (target : String)
deriving DecidableEq, Repr

/-- Everything that exists. The directories above an entry need no entries of their own. -/
structure FileTree where
  entries : List (Path × FileEntry)
deriving DecidableEq, Repr

/-- How a file is asked for: the text that messages show, and the names to follow from a
place. -/
structure FileRef where
  text : String
  start : Path
  names : List String
deriving DecidableEq, Repr

namespace FileRef

def ofText (here : Path) (text : String) : FileRef :=
  ⟨text, Path.start here text, Path.names text⟩

def ofPath (p : Path) : FileRef := ⟨Path.render p, [], p⟩

end FileRef

/-- Why a place is not reached or cannot be used. -/
inductive AccessFault where
  | missing
  | notDirectory
  | isDirectory
  | tooManyLinks
  | nameTooLong
  | badName
deriving DecidableEq, Repr

def AccessFault.message : AccessFault → String
  | .missing => "no such file or directory"
  | .notDirectory => "not a directory"
  | .isDirectory => "is a directory"
  | .tooManyLinks => "too many levels of symbolic links"
  | .nameTooLong => "file name too long"
  | .badName => "invalid argument"

/-- What was tried. -/
inductive Access where
  | opening
  | reading
  | inspecting
deriving DecidableEq, Repr

def Access.name : Access → String
  | .opening => "open"
  | .reading => "read"
  | .inspecting => "stat"

structure AccessError where
  access : Access
  text : String
  fault : AccessFault
deriving DecidableEq, Repr

def AccessError.message (e : AccessError) : String :=
  s!"{e.access.name} {e.text}: {e.fault.message}"

namespace FileTree

/-- How many links may be followed on the way to one place. -/
def maxLinks : Nat := 40

def maxName : Nat := 255

/-- The greatest number of bytes in a text that names a place. -/
def maxText : Nat := 4095

def entry? (t : FileTree) (p : Path) : Option FileEntry := t.entries.lookup p

def isDirectory (t : FileTree) (p : Path) : Bool :=
  p.isEmpty || t.entries.any fun (q, e) => p.isPrefixOf q && (q != p || e == .directory)

/-- Where following names leads without following links. -/
inductive Way where
  | arrived (p : Path)
  | blocked (f : AccessFault)
  /-- A link met at `here`, with the names after it. -/
  | linked (here : Path) (target : String) (rest : List String)
deriving DecidableEq, Repr

/-- Follows names up to the first link; a link in the last place counts as one only when it is
to be followed. -/
def advance (t : FileTree) (followLast : Bool) (here : Path) : List String → Way
  | [] => .arrived here
  | name :: rest =>
    if !t.isDirectory here then .blocked .notDirectory
    else if name = "" ∨ name = "." then advance t followLast here rest
    else if name = ".." then advance t followLast here.dropLast rest
    else if maxName < name.utf8ByteSize then .blocked .nameTooLong
    else
      let there := here ++ [name]
      match t.entry? there with
      | some (.link target) =>
        if followLast || !rest.isEmpty then .linked here target rest else .arrived there
      | some _ => advance t followLast there rest
      | none => if t.isDirectory there then advance t followLast there rest else .blocked .missing

/-- Follows names and at most `links` links. -/
def resolve (t : FileTree) (followLast : Bool) (links : Nat) (here : Path) (names : List String) :
    Except AccessFault Path :=
  match t.advance followLast here names with
  | .arrived p => .ok p
  | .blocked f => .error f
  | .linked here target rest =>
    match links with
    | 0 => .error .tooManyLinks
    | links + 1 =>
      resolve t followLast links (Path.start here target) (Path.names target ++ rest)

def locate (t : FileTree) (followLast : Bool) (r : FileRef) : Except AccessFault Path :=
  if r.text.isEmpty then .error .missing
  else if r.text.toList.any (· == '\x00') then .error .badName
  else if maxText < r.text.utf8ByteSize then .error .nameTooLong
  else t.resolve followLast maxLinks r.start r.names

/-- The content of a file. A directory can be opened but not read. -/
def read (t : FileTree) (r : FileRef) : Except AccessError Bytes :=
  match t.locate true r with
  | .error f => .error ⟨.opening, r.text, f⟩
  | .ok p =>
    match t.entry? p with
    | some (.file content) => .ok content
    | _ => .error ⟨.reading, r.text, .isDirectory⟩

/-- Replaces the content of the file at a place. -/
def write (t : FileTree) (p : Path) (content : Bytes) : FileTree :=
  ⟨t.entries.map fun (q, e) => (q, if q = p then .file content else e)⟩

/-- Everything below a place but directories, by the names that lead there. -/
def below (t : FileTree) (p : Path) : List Path :=
  t.entries.filterMap fun (q, e) =>
    if p.isPrefixOf q && e != .directory then some (q.drop p.length) else none

end FileTree
end TapeLang
