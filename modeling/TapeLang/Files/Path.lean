/-! Places in a tree of files. -/
namespace TapeLang

/-- The names on the way from the root. -/
abbrev Path := List String

namespace Path

/-- Cuts at slashes; `name` is the current name, last character first. -/
def namesFrom (name : List Char) : List Char → List String
  | [] => [String.ofList name.reverse]
  | c :: rest =>
    if c = '/' then String.ofList name.reverse :: namesFrom [] rest else namesFrom (c :: name) rest

/-- The names between the slashes of a text, some of which may be empty. -/
def names (text : String) : List String := namesFrom [] text.toList

/-- Where the names of a text start: a leading slash means the root. -/
def start (here : Path) (text : String) : Path :=
  if text.toList.head? = some '/' then [] else here

/-- Follows one name: an empty name and a point stay, two points go back. -/
def follow (p : Path) (name : String) : Path :=
  if name = "" ∨ name = "." then p
  else if name = ".." then p.dropLast
  else p ++ [name]

/-- The place a text names by its spelling alone, whatever the files are. -/
def ofText (here : Path) (text : String) : Path := (names text).foldl follow (start here text)

def render (p : Path) : String := "/" ++ "/".intercalate p

end Path
end TapeLang
