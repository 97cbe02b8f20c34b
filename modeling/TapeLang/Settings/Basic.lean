import TapeLang.Machine.Basic

/-! What a user can configure. -/
namespace TapeLang

structure Settings where
  stepQuota : Int
  prompt : String
  tapeWindow : Int
deriving DecidableEq, Repr

namespace Settings

def defaults : Settings := ⟨0, "bf> ", 8⟩

/-- The widest tape window that may be asked for. -/
def maxWindow : Nat := tapeSize / 2

/-- Everything that is wrong with the settings. -/
def issues (s : Settings) : List String :=
  (if s.stepQuota < 0 then ["step_quota must not be negative"] else []) ++
    if s.tapeWindow < 0 ∨ (maxWindow : Int) < s.tapeWindow then
      [s!"repl.tape_window must be between 0 and {maxWindow}"]
    else []

/-- An empty prompt stands for the usual one. -/
def withPrompt (s : Settings) : Settings :=
  if s.prompt.isEmpty then { s with prompt := defaults.prompt } else s

end Settings
end TapeLang
