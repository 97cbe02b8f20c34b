import TapeLang.Files.Tree
import TapeLang.Settings.Read
import TapeLang.Text.White

/-! Settings named by a path. -/
namespace TapeLang.Settings

/-- A path of nothing but white space asks for the usual settings. -/
def isBlankPath (path : String) : Bool := path.toList.all White.isWhite

def load (t : FileTree) (here : Path) (path : String) : Except ReadError Settings :=
  if isBlankPath path then .ok defaults
  else
    match t.read (.ofText here path) with
    | .ok content => ofFile path content
    | .error e =>
      if e.access = .reading then .error (.unreadable path e.message)
      else .error (.notOpened path e.message)

end TapeLang.Settings
