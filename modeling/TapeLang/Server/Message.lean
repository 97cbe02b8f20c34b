import TapeLang.Editor.Diagnostic
import TapeLang.Editor.Hover
import TapeLang.Json.Decode

/-! The messages between an editor and the language server. -/
namespace TapeLang.Server
open Json (Member Value)

/-- A message from the editor. The values of `id` and `params` are kept as they are. -/
structure Inbound where
  id? : Option Value
  method : String
  params? : Option Value

namespace Inbound

def empty : Inbound := ⟨none, "", none⟩

def fields : List (Member Inbound) := [
  ⟨"jsonrpc", fun m v => (v.intoChars? []).map fun _ => m⟩,
  ⟨"id", fun m v => match v with
    | .null => some { m with id? := none }
    | v => some { m with id? := some v }⟩,
  ⟨"method", fun m v =>
    (v.intoChars? m.method.toList).map fun cs => { m with method := String.ofList cs }⟩,
  ⟨"params", fun m v => some { m with params? := some v }⟩]

def read? (payload : Bytes) : Option Inbound := (Value.read? payload).bind (·.into? fields empty)

/-- The parameters; without any there is nothing to read. -/
def paramsInto? {α : Type} (m : Inbound) (fields : List (Member α)) (a : α) : Option α :=
  m.params?.bind (·.into? fields a)

end Inbound

/-- A text document as far as parameters name it. -/
structure Document where
  uri : List Char
  text : List Char
deriving DecidableEq, Repr

namespace Document

def empty : Document := ⟨[], []⟩

def uriField : Member Document := ⟨"uri", fun d v => (v.intoChars? d.uri).map ({ d with uri := · })⟩

def textField : Member Document :=
  ⟨"text", fun d v => (v.intoChars? d.text).map ({ d with text := · })⟩

end Document

structure Opened where
  document : Document

def Opened.fields : List (Member Opened) := [
  ⟨"textDocument", fun p v =>
    (v.into? [Document.uriField, Document.textField] p.document).map ({ p with document := · })⟩]

/-- A list of new texts. A list given again is written over the slots of the one before, so a
text it leaves out is the earlier text of that slot. -/
structure Changes where
  slots : List (List Char)
  used : Nat
deriving DecidableEq, Repr

namespace Changes

def empty : Changes := ⟨[], 0⟩

def textField : Member (List Char) := ⟨"text", fun t v => v.intoChars? t⟩

def store? (c : Changes) : Value → Option Changes
  | .null => some empty
  | .list [] => some empty
  | .list items => do
    let texts ← items.zipIdx.mapM fun (v, i) => v.into? [textField] (c.slots.getD i [])
    some ⟨texts ++ c.slots.drop items.length, items.length⟩
  | _ => none

/-- The last text, which is the one that holds. -/
def latest? (c : Changes) : Option (List Char) := (c.slots.take c.used).getLast?

end Changes

structure Changed where
  document : Document
  changes : Changes

def Changed.fields : List (Member Changed) := [
  ⟨"textDocument", fun p v =>
    (v.into? [Document.uriField] p.document).map ({ p with document := · })⟩,
  ⟨"contentChanges", fun p v => (p.changes.store? v).map ({ p with changes := · })⟩]

/-- A place in a document: a line and a column in UTF-16 units. -/
structure Place where
  line : Int
  character : Int
deriving DecidableEq, Repr

def Place.fields : List (Member Place) := [
  ⟨"line", fun p v => (v.intoInt? p.line).map ({ p with line := · })⟩,
  ⟨"character", fun p v => (v.intoInt? p.character).map ({ p with character := · })⟩]

/-- The parameters of a question about a place. -/
structure Hovered where
  document : Document
  place : Place

def Hovered.fields : List (Member Hovered) := [
  ⟨"textDocument", fun p v =>
    (v.into? [Document.uriField] p.document).map ({ p with document := · })⟩,
  ⟨"position", fun p v => (v.into? Place.fields p.place).map ({ p with place := · })⟩]

/-- A message to the editor: the result of a request, its refusal, or the problems of a text. -/
inductive Outbound where
  | result (id? : Option Value) (value? : Option Value)
  | refusal (id : Value) (code : Int) (message : String)
  | publish (uri : Bytes) (diagnostics : List Editor.Diagnostic)

def placeValue (line character : Nat) : Value :=
  .ofFields [("character", .ofInt character), ("line", .ofInt line)]

def diagnosticValue (d : Editor.Diagnostic) : Value :=
  .ofFields [
    ("message", .ofString d.message),
    ("range", .ofFields [("end", placeValue d.line d.last), ("start", placeValue d.line d.first)]),
    ("severity", .ofInt d.severity.code),
    ("source", .ofString "bf-lsp")]

namespace Outbound

/-- The members after the version, empty ones left out. -/
def members : Outbound → List (String × Value)
  | .result id? value? =>
    (id?.map (("id", ·))).toList ++ (value?.map (("result", ·))).toList
  | .refusal id code message =>
    [("id", id), ("error", .ofFields [("code", .ofInt code), ("message", .ofString message)])]
  | .publish uri diagnostics =>
    [("method", .ofString "textDocument/publishDiagnostics"),
      ("params", .ofFields [
        ("diagnostics", .list (diagnostics.map diagnosticValue)),
        ("uri", .ofChars (Utf8.decode uri))])]

def toValue (m : Outbound) : Value := .ofFields (("jsonrpc", .ofString "2.0") :: m.members)

def payload (m : Outbound) : Bytes := m.toValue.render

end Outbound
end TapeLang.Server
