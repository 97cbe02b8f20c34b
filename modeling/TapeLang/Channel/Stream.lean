import TapeLang.Channel.Basic
import TapeLang.Text.Utf8

/-! A channel over a source and a sink of bytes. Output is collected and handed on when the
collection is full, before every read, and when flushed. -/
namespace TapeLang

/-- How much is fetched or collected at a time. -/
def bufferSize : Nat := 4096

/-- An error met at a source of bytes. It may wrap another one, with a text of its own. -/
inductive SourceError where
  | endOfInput
  | failure (e : IoError)
  | wrapping (message : String) (inner : SourceError)
deriving DecidableEq, Repr

namespace SourceError

def message : SourceError → String
  | .endOfInput => "EOF"
  | .failure e => e.message
  | .wrapping message _ => message

/-- The end of input, wrapped or not. -/
def isEnd : SourceError → Bool
  | .endOfInput => true
  | .failure _ => false
  | .wrapping _ inner => inner.isEnd

/-- What is told of a byte or of the error in its place: the end of input is no failure. -/
def answer : Except SourceError UInt8 → Except IoError (Option UInt8)
  | .ok x => .ok (some x)
  | .error e => if e.isEnd then .ok none else .error ⟨e.message⟩

end SourceError

/-- A source of bytes: those already fetched, those to come, and at most how many come with each of
the next fetches (zero for no bound, which holds behind the last number too). Behind the last byte
every fetch meets an error, first the `endings` one by one and then `ending` for good. Of every
fetch it remembers how much output had arrived before. -/
structure Supply where
  ready : Bytes
  rest : Bytes
  chunks : List Nat
  endings : List SourceError
  ending : SourceError
  fetches : Array Nat
deriving DecidableEq, Repr

namespace Supply

def ofInput (input : Bytes) (chunks : List Nat) (endings : List SourceError)
    (ending : SourceError) : Supply :=
  ⟨[], input, chunks, endings, ending, #[]⟩

def fetchSize (s : Supply) : Nat :=
  let chunk := s.chunks.headD 0
  if chunk = 0 then bufferSize else min chunk bufferSize

/-- Asks for more when `arrived` bytes of output have arrived. -/
def fetch (arrived : Nat) (s : Supply) : Supply :=
  { s with
    ready := s.rest.take s.fetchSize
    rest := s.rest.drop s.fetchSize
    chunks := s.chunks.tail
    fetches := s.fetches.push arrived }

/-- The next byte of those that are ready, or else the next ending. -/
def next (s : Supply) : Except SourceError UInt8 × Supply :=
  match s.ready with
  | x :: ready => (.ok x, { s with ready })
  | [] => (.error (s.endings.headD s.ending), { s with endings := s.endings.tail })

/-- Fetches when nothing is ready; so an ending is met at every later read. -/
def read (arrived : Nat) (s : Supply) : Except SourceError UInt8 × Supply :=
  if s.ready.isEmpty then (s.fetch arrived).next else s.next

end Supply

/-- A sink that takes bytes up to a limit, if it has one, and remembers the size of every
write it was asked for. -/
structure Sink where
  limit? : Option Nat
  accepted : Array UInt8
  attempts : Array Nat
deriving DecidableEq, Repr

namespace Sink

def full : IoError := ⟨"sink full"⟩

def fresh (limit? : Option Nat) : Sink := ⟨limit?, #[], #[]⟩

/-- A write past the limit stores what fits and fails. -/
def write (s : Sink) (bs : Array UInt8) : Option IoError × Sink :=
  let s := { s with attempts := s.attempts.push bs.size }
  match s.limit? with
  | none => (none, { s with accepted := s.accepted ++ bs })
  | some limit =>
    if s.accepted.size + bs.size ≤ limit then (none, { s with accepted := s.accepted ++ bs })
    else
      let room := limit - s.accepted.size
      (some full, { s with accepted := s.accepted ++ bs.extract 0 room })

end Sink

/-- Bytes collected for a sink. After a failed write nothing more is written and every later
operation fails alike. -/
structure Collector where
  collected : Array UInt8
  failure? : Option IoError
  sink : Sink
deriving DecidableEq, Repr

namespace Collector

def fresh (sink : Sink) : Collector := ⟨#[], none, sink⟩

def flush (c : Collector) : Option IoError × Collector :=
  match c.failure? with
  | some e => (some e, c)
  | none =>
    if c.collected.isEmpty then (none, c)
    else
      let (failure?, sink) := c.sink.write c.collected
      (failure?, { collected := #[], failure?, sink })

/-- A full collection is handed on before the byte is added. -/
def write (x : UInt8) (c : Collector) : Option IoError × Collector :=
  match c.failure? with
  | some e => (some e, c)
  | none =>
    if c.collected.size < bufferSize then (none, { c with collected := c.collected.push x })
    else
      match c.flush with
      | (some e, c) => (some e, c)
      | (none, c) => (none, { c with collected := c.collected.push x })

end Collector

structure Stream where
  supply : Supply
  collector : Collector
deriving DecidableEq, Repr

namespace Stream

def fresh (supply : Supply) (sink : Sink) : Stream := ⟨supply, .fresh sink⟩

/-- Everything collected is handed on first, so that a prompt is seen before its answer. -/
def read (s : Stream) : Except IoError (Option UInt8) × Stream :=
  match s.collector.flush with
  | (some e, collector) => (.error e, { s with collector })
  | (none, collector) =>
    let (x, supply) := s.supply.read collector.sink.accepted.size
    (SourceError.answer x, { supply, collector })

def write (x : UInt8) (s : Stream) : Option IoError × Stream :=
  let (e, collector) := s.collector.write x
  (e, { s with collector })

def flush (s : Stream) : Option IoError × Stream :=
  let (e, collector) := s.collector.flush
  (e, { s with collector })

instance : Channel Stream where
  read := read
  write := write
  flush := flush

end Stream
end TapeLang
