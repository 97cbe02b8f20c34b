import Std.Time
import TapeLang.Command.Perform
import TapeLang.Repl.View
import TapeLang.Text.Elapsed

/-! The command line. Commands are pure functions of a file tree, so the files a command names
are read before it and written back after it. -/
namespace TapeLang.Main

/-- No run without a quota is stopped earlier. -/
def manySteps : Nat := 0x4000000000000000

/-! Files. -/

/-- Everything at a directory entry and below it. A link to a file comes with its file. -/
partial def gather (entry : IO.FS.DirEntry) : IO (List (Path × FileEntry)) := do
  let name := Path.ofText [] entry.path.toString
  try
    match (← entry.path.symlinkMetadata).type with
    | .dir =>
      let inside ← (← entry.path.readDir).toList.mapM gather
      return (name, .directory) :: inside.flatten
    | .symlink =>
      let real ← IO.FS.realPath entry.path
      let link := (name, .link real.toString)
      if ← real.isDir then return [link, (Path.ofText [] real.toString, .directory)]
      let content ← IO.FS.readBinFile real
      return [link, (Path.ofText [] real.toString, .file content.toList)]
    | _ => return [(name, .file (← IO.FS.readBinFile entry.path).toList)]
  catch _ => return []

/-- The files that paths name. -/
def snapshot (paths : List String) : IO FileTree := do
  let root ← IO.currentDir
  let found ← (paths.filter (!·.isEmpty)).mapM fun path => gather ⟨root, path⟩
  return ⟨(Path.ofText [] root.toString, .directory) :: found.flatten⟩

def store (before after : FileTree) : IO Unit :=
  after.entries.forM fun (p, e) =>
    match e with
    | .file content =>
      if before.entry? p = some e then pure ()
      else IO.FS.writeBinFile (Path.render p) ⟨content.toArray⟩
    | _ => pure ()

/-! Streams. -/

partial def readAll (input : IO.FS.Stream) (acc : ByteArray) : IO ByteArray := do
  let more ← input.read 4096
  if more.isEmpty then return acc else readAll input (acc ++ more)

/-- Up to `n` bytes, fewer only at the end of the input. -/
partial def readUpTo (input : IO.FS.Stream) (n : Nat) (acc : ByteArray) : IO ByteArray := do
  if n ≤ acc.size then return acc
  let more ← input.read (min (n - acc.size) 4096).toUSize
  if more.isEmpty then return acc else readUpTo input n (acc ++ more)

def print (bs : Bytes) : IO Unit := do
  let output ← IO.getStdout
  output.write ⟨bs.toArray⟩
  output.flush

def complain (bs : Bytes) : IO Unit := do
  (← IO.getStderr).write ⟨bs.toArray⟩

/-- The exit code after an error, if any. -/
def conclude (error? : Option Bytes) : IO UInt32 := do
  match error? with
  | none => return 0
  | some message =>
    complain (message ++ [0x0A])
    return 1

/-! Serving. -/

/-- The bytes up to the end of the header lines. -/
partial def readHead (input : IO.FS.Stream) (acc : Bytes) : IO Bytes := do
  let more := (← input.read 1).toList
  let head := acc ++ more
  if more.isEmpty || Server.readHeaders (-1) [] head != .ended then return head
  else readHead input head

/-- Serves frame by frame, so that every answer is sent before the next message. -/
partial def serve (input : IO.FS.Stream) (docs : Server.Docs) : IO UInt32 := do
  let head ← readHead input []
  let length := match Server.readHeaders (-1) [] head with
    | .complete n _ => n.toNat
    | _ => 0
  let payload := (← readUpTo input (min length Server.maxPayload) .empty).toList
  let served := Server.serve none docs (head ++ payload)
  print served.output
  let isLast := head.isEmpty || payload.length < length ||
    (Server.Inbound.read? payload).any fun m => Server.Method.ofName m.method == .exit
  if served.error?.isSome || isLast then
    conclude (served.error?.map fun e => Bytes.ofString e.message)
  else serve input served.docs

/-! Interactive sessions. -/

/-- Submits line by line and shows the window after each. -/
partial def converse (input : IO.FS.Stream) (s : Repl.Session) : IO UInt32 := do
  print (Bytes.ofString (s.view?.getD "" ++ "\n"))
  let line ← input.getLine
  if line.isEmpty || s.quitting then return 0
  let given := s.setText line.trimAsciiEnd.toString.toList
  match given.press? (s.engine.fuel manySteps) ⟨"enter", []⟩ with
  | some (s, .stay) => converse input s
  | _ => return 0

/-- A session for a window of the usual size. -/
def session (input : IO.FS.Stream) (settings : Settings) : IO UInt32 :=
  match Repl.Session.start settings with
  | .error message => conclude (some (Bytes.ofString message))
  | .ok s => converse input (s.resize 80 24)

/-! Running commands. -/

def now : IO String := do
  return (← Std.Time.DateTime.now).format "uuuu-MM-dd'T'HH:mm:ss.SSSXXX"

def runName : IO String := do
  let bytes := (← IO.getRandomBytes 16).toList.map UInt8.toNat
  let marked := bytes.zipIdx.map fun (b, i) =>
    if i = 6 then 0x40 + b % 16 else if i = 8 then 0x80 + b % 64 else b
  let text := marked.flatMap (Quoted.hex 2)
  let part (first size : Nat) : String := String.ofList ((text.drop first).take size)
  return "-".intercalate [part 0 8, part 8 4, part 12 4, part 16 4, part 20 12]

def perform (arguments paths : List String) (readsInput : Bool) : IO UInt32 := do
  let here := Path.ofText [] (← IO.currentDir).toString
  let tree ← snapshot paths
  let input ← if readsInput then readAll (← IO.getStdin) .empty else pure .empty
  let started ← now
  let start ← IO.monoNanosNow
  match Command.performArguments manySteps ⟨tree, here, input.toList⟩ arguments with
  | none => conclude (some (Bytes.ofString "too many steps"))
  | some r =>
    print r.output
    let duration := Elapsed.render ((← IO.monoNanosNow) - start)
    let run ← runName
    let finished ← now
    for note in r.notes do
      let time := match note with
        | .started .. => started
        | _ => finished
      complain (Bytes.ofString (note.text ⟨time, run, duration⟩))
    store tree r.tree
    conclude (r.failure?.map Command.Failure.message)

def start (arguments : List String) : IO UInt32 := do
  match Command.ofArguments arguments with
  | .ok .serve => serve (← IO.getStdin) .empty
  | .ok (.repl config) =>
    let here := Path.ofText [] (← IO.currentDir).toString
    match Settings.load (← snapshot [config]) here config with
    | .error e => conclude (some e.message)
    | .ok settings => session (← IO.getStdin) settings
  | .ok c => perform arguments c.paths c.readsInput
  | .error _ => perform arguments [] false

end TapeLang.Main

def main (arguments : List String) : IO UInt32 := TapeLang.Main.start arguments
