import Mathlib.Tactic.SplitIfs
import TapeLang.Settings.Load

/-! Settings that are accepted, however the content of their file is read. -/
namespace TapeLang.Settings
variable {s : Settings}

theorem issues_eq_nil_iff : s.issues = [] ↔
    0 ≤ s.stepQuota ∧ 0 ≤ s.tapeWindow ∧ s.tapeWindow ≤ maxWindow := by
  simp only [issues, List.append_eq_nil_iff, ite_eq_right_iff, List.cons_ne_nil, imp_false]
  omega

/-- What all settings have that are accepted. -/
structure Accepted (s : Settings) : Prop where
  quota : 0 ≤ s.stepQuota
  window : 0 ≤ s.tapeWindow ∧ s.tapeWindow ≤ maxWindow
  prompt : s.prompt ≠ ""

theorem accepted_defaults : defaults.Accepted := ⟨by decide, by decide, by decide⟩

theorem accepted_withPrompt (h : s.issues = []) : s.withPrompt.Accepted := by
  obtain ⟨hquota, hwindow⟩ := issues_eq_nil_iff.mp h
  unfold withPrompt
  split
  · exact ⟨hquota, hwindow, accepted_defaults.prompt⟩
  · next hprompt => exact ⟨hquota, hwindow, by simpa [String.isEmpty_iff] using hprompt⟩

/-- Settings that were read are taken over if nothing is wrong with them. -/
def accept (path : String) (s : Settings) : Except ReadError Settings :=
  match s.issues with
  | [] => .ok s.withPrompt
  | issues => .error (.invalid path issues)

/-- What the content of a file says, put over the usual settings. -/
def ofYaml (path : String) (content : Bytes) : Except ReadError Settings :=
  match Yaml.firstDocument? content with
  | none => .error (.malformed path)
  | some none => .error (.empty path)
  | some (some node) =>
    let p := readMapping .settings storeField node ⟨defaults, []⟩
    match p.problems with
    | [] => .ok p.settings
    | problems => .error (.misfit path problems.reverse)

/-- Settings named by a path, with any way to read the content of a file. -/
def loadWith (decode : String → Bytes → Except ReadError Settings) (t : FileTree) (here : Path)
    (path : String) : Except ReadError Settings :=
  if isBlankPath path then .ok defaults
  else
    match t.read (.ofText here path) with
    | .ok content => (decode path content).bind (accept path)
    | .error e =>
      if e.access = .reading then .error (.unreadable path e.message)
      else .error (.notOpened path e.message)

theorem ofFile_eq (path : String) (content : Bytes) :
    ofFile path content = (ofYaml path content).bind (accept path) := by
  unfold ofFile ofYaml
  cases Yaml.firstDocument? content with
  | none => rfl
  | some node? =>
    cases node? with
    | none => rfl
    | some node =>
      dsimp only
      generalize readMapping .settings storeField node ⟨defaults, []⟩ = p
      cases p.problems with
      | nil =>
        change _ = accept path p.settings
        unfold accept
        cases p.settings.issues <;> rfl
      | cons problem problems => rfl

theorem load_eq_loadWith : load = loadWith ofYaml := by
  funext t here path
  unfold load loadWith
  split_ifs
  · rfl
  · cases t.read (.ofText here path) with
    | ok content => exact ofFile_eq path content
    | error e => rfl

theorem accepted_of_accept {path : String} {read : Settings} (h : accept path read = .ok s) :
    s.Accepted := by
  unfold accept at h
  split at h
  · next hissues =>
    cases h
    exact accepted_withPrompt hissues
  · cases h

theorem accepted_of_loadWith {decode : String → Bytes → Except ReadError Settings} {t : FileTree}
    {here : Path} {path : String} (h : loadWith decode t here path = .ok s) : s.Accepted := by
  unfold loadWith at h
  split_ifs at h
  · cases h
    exact accepted_defaults
  · split at h
    · next content _ =>
      cases hdecode : decode path content with
      | error e =>
        rw [hdecode] at h
        cases h
      | ok read =>
        rw [hdecode] at h
        exact accepted_of_accept h
    · split_ifs at h

end TapeLang.Settings
