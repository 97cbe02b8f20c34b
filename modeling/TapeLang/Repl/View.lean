import TapeLang.Repl.Panel
import TapeLang.Repl.Session

/-! What a session looks like. -/
namespace TapeLang.Repl.Session
open Panel (styled)

/-- What an empty line shows. -/
def hint : List Char := "type instructions...".toList

/-- The line below the header is at most this long. -/
def maxRule : Int := 60

def header (width : Int) : String :=
  s!" bf REPL  tape {tapeSize} cells\n" ++
    String.ofList (List.replicate (min (width - 2) maxRule).toNat '─') ++ "\n\n"

def entryText (e : Entry) : String :=
  (if e.input.isEmpty then "" else s!"  › {String.ofList e.input}\n") ++
    "  " ++ styled ((if e.isError then "✗ " else "→ ") ++ e.output) ++ "\n\n"

/-- The lines of the window that entries cannot take. -/
def reserved (s : Session) : Int :=
  8 + (if s.showHelp then 10 else 0) + (if s.showTape then 5 else 0)

/-- The newest entries, one for each free line of the window. -/
def visibleEntries (s : Session) (height : Int) : List Entry :=
  s.entries.toList.drop (s.entries.size - (height - s.reserved).toNat)

def footer : String := "ctrl+k help  ctrl+t tape  ctrl+l clear  ctrl+c quit"

/-- The whole window. A window too narrow for an empty line cannot be shown. -/
def view? (s : Session) : Option String :=
  match s.size? with
  | none => some "Loading..."
  | some (width, height) =>
    if s.quitting then some (styled "Goodbye!\n")
    else
      (s.line.view? hint).map fun line =>
        header width ++
        String.join ((s.visibleEntries height).map entryText) ++
        (if s.showTape then Panel.tape s.machine s.tapeWindow ++ "\n" else "") ++
        (if s.showHelp then Panel.help ++ "\n" else "") ++
        styled s.prompt ++ String.ofList line ++ "\n\n" ++ footer

end TapeLang.Repl.Session
