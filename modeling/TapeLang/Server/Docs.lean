import TapeLang.Text.Utf8

/-! The texts an editor has open. -/
namespace TapeLang.Server

/-- Texts by name, in increasing order of names. -/
structure Docs where
  entries : List (Bytes × Bytes)
deriving DecidableEq, Repr

namespace Docs

def empty : Docs := ⟨[]⟩

def get? (d : Docs) (uri : Bytes) : Option Bytes := d.entries.lookup uri

def insertEntry (uri text : Bytes) : List (Bytes × Bytes) → List (Bytes × Bytes)
  | [] => [(uri, text)]
  | (u, t) :: rest =>
    if uri < u then (uri, text) :: (u, t) :: rest
    else if uri = u then (uri, text) :: rest
    else (u, t) :: insertEntry uri text rest

def insert (d : Docs) (uri text : Bytes) : Docs := ⟨insertEntry uri text d.entries⟩

end Docs
end TapeLang.Server
