import TapeLang.Channel.Basic
import TapeLang.Server.Handle
import TapeLang.Text.White

/-! Serving a stream of messages. Each is preceded by header lines that end with an empty one
and give the length of what follows. -/
namespace TapeLang.Server

inductive FrameError where
  | badLength (text : Bytes) (e : Decimal.ReadError)
  | noLength
  | cutShort
deriving DecidableEq, Repr

def FrameError.message : FrameError → String
  | .badLength text e =>
    s!"invalid Content-Length: strconv.Atoi: parsing {Quoted.quoteText text}: {e.message}"
  | .noLength => "missing Content-Length header"
  | .cutShort => "unexpected EOF"

/-- The header lines of a frame: the input ends within them, the announced length and the
input after them, or an error. A length below zero counts as none. -/
inductive Headers where
  | ended
  | complete (length : Int) (rest : Bytes)
  | failed (e : FrameError)
deriving DecidableEq, Repr

/-- The text after the name and colon of a length header. -/
def lengthText? (line : Bytes) : Option Bytes :=
  match line.dropWhile (· != 0x3A) with
  | [] => none
  | _ :: value =>
    let name := Utf8.decode (White.trimBytes (line.takeWhile (· != 0x3A)))
    if name.map Json.foldCase == "Content-Length".toList.map Json.foldCase then
      some (White.trimBytes value)
    else none

def isLineEnd (b : UInt8) : Bool := b == 0x0D || b == 0x0A

/-- Reads header lines; `line` is the current one, last byte first. The last length given
holds. -/
def readHeaders (length : Int) (line : Bytes) : Bytes → Headers
  | [] => .ended
  | b :: rest =>
    if b != 0x0A then readHeaders length (b :: line) rest
    else
      match White.dropEnd isLineEnd line.reverse with
      | [] => .complete length rest
      | text =>
        match lengthText? text with
        | none => readHeaders length [] rest
        | some value =>
          match Decimal.read value with
          | .ok n => readHeaders n [] rest
          | .error e => .failed (.badLength value e)

inductive Frame where
  | ended
  | payload (bytes rest : Bytes)
  | failed (e : FrameError)
  | tooLong
deriving DecidableEq, Repr

/-- No payload can be longer. -/
def maxPayload : Nat := 0x1000000000000

def readFrame (input : Bytes) : Frame :=
  match readHeaders (-1) [] input with
  | .ended => .ended
  | .failed e => .failed e
  | .complete length rest =>
    if length < 0 then .failed .noLength
    else if maxPayload < length.toNat then .tooLong
    else if length.toNat ≤ rest.length then
      .payload (rest.take length.toNat) (rest.drop length.toNat)
    else if rest.isEmpty then .ended
    else .failed .cutShort

theorem readHeaders_rest_length {length n : Int} {line input rest : Bytes}
    (h : readHeaders length line input = .complete n rest) : rest.length < input.length := by
  induction input generalizing length line with
  | nil => simp [readHeaders] at h
  | cons b input ih =>
    simp only [readHeaders] at h
    split at h
    · have := ih h; simp; omega
    · split at h
      · cases h; simp
      · split at h
        · have := ih h; simp; omega
        · split at h
          · have := ih h; simp; omega
          · cases h

theorem readFrame_rest_length {input bytes rest : Bytes}
    (h : readFrame input = .payload bytes rest) : rest.length < input.length := by
  simp only [readFrame] at h
  split at h
  · cases h
  · cases h
  · next n tail hc =>
    have := readHeaders_rest_length hc
    split at h
    · cases h
    · split at h
      · cases h
      · split at h
        · cases h; simp only [List.length_drop]; omega
        · split at h <;> cases h

/-- A payload with the header that announces it. -/
def frame (payload : Bytes) : Bytes :=
  Bytes.ofString s!"Content-Length: {payload.length}\r\n\r\n" ++ payload

inductive ServeError where
  | frame (e : FrameError)
  | write (e : IoError)
  | tooLong
deriving DecidableEq, Repr

def ServeError.message : ServeError → String
  | .frame e => e.message
  | .write e => e.message
  | .tooLong => "payload too long"

/-- What was written, the documents at the end and the error, if any. -/
structure Served where
  written : List Bytes
  docs : Docs
  error? : Option ServeError

def Served.output (s : Served) : Bytes := s.written.flatten

/-- Serves until the input ends, a message says to exit or an error occurs. `written` has the
frames written so far, last first; with a `failure?` no write succeeds. -/
def serveFrom (failure? : Option IoError) (written : List Bytes) (docs : Docs) (input : Bytes) :
    Served :=
  match h : readFrame input with
  | .ended => ⟨written.reverse, docs, none⟩
  | .failed e => ⟨written.reverse, docs, some (.frame e)⟩
  | .tooLong => ⟨written.reverse, docs, some .tooLong⟩
  | .payload bytes rest =>
    have := readFrame_rest_length h
    match Inbound.read? bytes with
    | none => serveFrom failure? written docs rest
    | some m =>
      let (out, docs) := handle docs m
      match failure?, out with
      | some e, _ :: _ => ⟨written.reverse, docs, some (.write e)⟩
      | _, _ =>
        let written := (out.map fun o => frame o.payload).reverse ++ written
        if Method.ofName m.method = .exit then ⟨written.reverse, docs, none⟩
        else serveFrom failure? written docs rest
termination_by input.length
decreasing_by all_goals assumption

def serve (failure? : Option IoError) (docs : Docs) (input : Bytes) : Served :=
  serveFrom failure? [] docs input

end TapeLang.Server
