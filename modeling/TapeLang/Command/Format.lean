import TapeLang.Command.Result
import TapeLang.Program.Layout

/-! Formatting programs in files and directories. -/
namespace TapeLang.Command

/-- How the names of programs end. -/
def sourceEndings : List String := [".bf", ".b"]

def isSource (p : Path) : Bool :=
  p.getLast?.any fun name => sourceEndings.any fun e => e.toList.isSuffixOf name.toList

/-- The programs that a target stands for: itself, or all below it when it is a directory. A
link stands for itself, also inside a directory. -/
def sourcesAt (s : Setting) (target : String) : Except Failure (List Path) :=
  let ref := FileRef.ofText s.here target
  match s.tree.locate true ref with
  | .error f => .error (.noTarget target ⟨.inspecting, target, f⟩)
  | .ok p =>
    let named := Path.ofText s.here target
    let isLink := match s.tree.locate false ref with
      | .ok q => q != p
      | .error _ => false
    let found :=
      if s.tree.isDirectory p && !isLink then (s.tree.below p).map (named ++ ·) else [named]
    .ok (found.filter isSource)

/-- The programs that targets stand for, each once, ordered by their paths' texts. -/
def sources (s : Setting) (targets : List String) : Except Failure (List Path) :=
  (targets.mapM (sourcesAt s)).map fun found =>
    found.flatten.eraseDups.mergeSort fun p q => Path.render p ≤ Path.render q

structure FormatState where
  tree : FileTree
  /-- What was printed, last first. -/
  printed : List Bytes
  changed : Nat
deriving DecidableEq, Repr

/-- One program has been formatted. Only a changed file is written, through links. -/
def FormatState.add (st : FormatState) (write check : Bool) (path : Path)
    (source formatted : Bytes) : FormatState :=
  let isChanged := formatted != source
  let tree :=
    if write && isChanged then
      match st.tree.locate true (.ofPath path) with
      | .ok p => st.tree.write p formatted
      | .error _ => st.tree
    else st.tree
  ⟨tree, if write || check then st.printed else formatted :: st.printed,
    if isChanged then st.changed + 1 else st.changed⟩

/-- Formats programs up to the first that fails. -/
def formatAll (write check : Bool) (st : FormatState) :
    List Path → Option Failure × FormatState
  | [] => (none, st)
  | path :: rest =>
    match st.tree.read (.ofPath path) with
    | .error e => (some (.sourceUnreadable path e), st)
    | .ok source =>
      match formatSource source with
      | .error e => (some (.notFormatted path source e), st)
      | .ok formatted => formatAll write check (st.add write check path source formatted) rest

/-- A check fails when a file has changed or would have to. -/
def formatFiles (s : Setting) (targets : List String) (write check : Bool) : Result :=
  match sources s targets with
  | .error f => .failed s f
  | .ok paths =>
    let (failure?, st) := formatAll write check ⟨s.tree, [], 0⟩ paths
    let unformatted? := if check && 0 < st.changed then some (.unformatted st.changed) else none
    ⟨failure?.or unformatted?, st.printed.reverse.flatten, [], st.tree⟩

end TapeLang.Command
