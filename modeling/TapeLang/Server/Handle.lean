import TapeLang.Server.Docs
import TapeLang.Server.Message

/-! What the language server does with one message. -/
namespace TapeLang.Server
open Json (Value)

inductive Method where
  | handshake
  | ready
  | exit
  | shutdown
  | opened
  | changed
  | completion
  | hover
  | unknown
deriving DecidableEq, Repr

def Method.ofName : String → Method
  | "initialize" => .handshake
  | "initialized" => .ready
  | "exit" => .exit
  | "shutdown" => .shutdown
  | "textDocument/didOpen" => .opened
  | "textDocument/didChange" => .changed
  | "textDocument/completion" => .completion
  | "textDocument/hover" => .hover
  | _ => .unknown

def capabilities : Value :=
  .ofFields [("capabilities", .ofFields [
    ("completionProvider", .ofFields [("resolveProvider", .bool false)]),
    ("hoverProvider", .bool true),
    ("textDocumentSync", .ofInt 1)])]

def completionValue (c : Editor.Completion) : Value :=
  .ofFields [("detail", .ofString c.detail), ("kind", .ofInt c.kind), ("label", .ofString c.label)]

def completionList : Value :=
  .ofFields [("isIncomplete", .bool false),
    ("items", .list (Editor.completions.map completionValue))]

def hoverValue (s : Symbol) : Value :=
  .ofFields [("contents", .ofFields [
    ("kind", .ofString "markdown"), ("value", .ofString s.hoverText)])]

def hoverReply (docs : Docs) (id : Value) (m : Inbound) : Outbound :=
  match m.paramsInto? Hovered.fields ⟨.empty, ⟨0, 0⟩⟩ with
  | none => .refusal id (-32602) "invalid hover params"
  | some p =>
    let source := (docs.get? (Utf8.encode p.document.uri)).getD []
    .result (some id)
      ((Editor.symbolAt? source p.place.line p.place.character).map hoverValue)

/-- The document and its new text that a message brings. -/
def update? (m : Inbound) : Option (Bytes × Bytes) :=
  match Method.ofName m.method with
  | .opened => do
    let p ← m.paramsInto? Opened.fields ⟨.empty⟩
    some (Utf8.encode p.document.uri, Utf8.encode p.document.text)
  | .changed => do
    let p ← m.paramsInto? Changed.fields ⟨.empty, .empty⟩
    some (Utf8.encode p.document.uri, Utf8.encode (← p.changes.latest?))
  | _ => none

/-- The answer to a message that changes no document. Only the handshake is answered without
an id. -/
def reply? (docs : Docs) (m : Inbound) : Option Outbound :=
  match Method.ofName m.method, m.id? with
  | .handshake, id? => some (.result id? (some capabilities))
  | .ready, _ | .exit, _ | .opened, _ | .changed, _ => none
  | _, none => none
  | .shutdown, some id => some (.result (some id) none)
  | .completion, some id => some (.result (some id) (some completionList))
  | .hover, some id => some (hoverReply docs id m)
  | .unknown, some id => some (.refusal id (-32601) "method not found")

/-- Handles one message: at most one answer, and the documents afterwards. -/
def handle (docs : Docs) (m : Inbound) : List Outbound × Docs :=
  match update? m with
  | some (uri, text) => ([.publish uri (Editor.diagnose text)], docs.insert uri text)
  | none => ((reply? docs m).toList, docs)

end TapeLang.Server
