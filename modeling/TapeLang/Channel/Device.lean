import TapeLang.Channel.Buffer
import TapeLang.Channel.Stream

/-! Channels chosen when the program runs. -/
namespace TapeLang

/-- A channel without data: a read finds nothing and a write leads nowhere, unless they fail. -/
structure Faulty where
  readError? : Option IoError
  writeError? : Option IoError
deriving DecidableEq, Repr

instance : Channel Faulty where
  read f := (match f.readError? with
    | some e => .error e
    | none => .ok none, f)
  write _ f := (f.writeError?, f)
  flush f := (none, f)

inductive Device where
  | buffer (b : Buffer)
  | stream (s : Stream)
  | faulty (f : Faulty)
deriving DecidableEq, Repr

namespace Device

def read : Device → Except IoError (Option UInt8) × Device
  | .buffer b => let (x, b) := Channel.read b; (x, .buffer b)
  | .stream s => let (x, s) := Channel.read s; (x, .stream s)
  | .faulty f => let (x, f) := Channel.read f; (x, .faulty f)

def write (x : UInt8) : Device → Option IoError × Device
  | .buffer b => let (e, b) := Channel.write x b; (e, .buffer b)
  | .stream s => let (e, s) := Channel.write x s; (e, .stream s)
  | .faulty f => let (e, f) := Channel.write x f; (e, .faulty f)

def flush : Device → Option IoError × Device
  | .buffer b => let (e, b) := Channel.flush b; (e, .buffer b)
  | .stream s => let (e, s) := Channel.flush s; (e, .stream s)
  | .faulty f => let (e, f) := Channel.flush f; (e, .faulty f)

instance : Channel Device where
  read := read
  write := write
  flush := flush

end Device

def Channel.writeAll {σ : Type} [Channel σ] : Bytes → σ → Option IoError × σ
  | [], s => (none, s)
  | x :: rest, s =>
    match Channel.write x s with
    | (some e, s) => (some e, s)
    | (none, s) => Channel.writeAll rest s

end TapeLang
