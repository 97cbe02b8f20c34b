import TapeLang.Editor.Column
import TapeLang.Source.Token

/-! What an editor shows about single symbols. -/
namespace TapeLang

def Symbol.summary : Symbol → String
  | .act .right => "move the pointer one cell right"
  | .act .left => "move the pointer one cell left"
  | .act .increment => "increment the current cell, wrapping 255 to 0"
  | .act .decrement => "decrement the current cell, wrapping 0 to 255"
  | .act .output => "write the current cell as one byte"
  | .act .input => "read one byte into the current cell; unchanged when input is exhausted"
  | .opening => "start a loop that runs while the current cell is nonzero"
  | .closing => "end the innermost loop"

/-- The symbol in code style, with its summary as a paragraph below. -/
def Symbol.hoverText (s : Symbol) : String :=
  s!"`{String.ofList [s.toChar]}`\n\n{s.summary}"

namespace Editor

/-- The symbol under the cursor, or else the one just before it. -/
def symbolAt? (source : Bytes) (line character : Int) : Option Symbol :=
  match line? source line with
  | none => none
  | some cs =>
    let cursor := columnAt cs character
    let here := cs[cursor]?.bind Symbol.ofChar?
    let before := if cursor = 0 then none else cs[cursor - 1]?.bind Symbol.ofChar?
    here <|> before

structure Completion where
  label : String
  kind : Nat
  detail : String
deriving DecidableEq, Repr

def keyword : Nat := 14

def completions : List Completion :=
  Symbol.all.map fun s => ⟨String.ofList [s.toChar], keyword, s.summary⟩

end Editor
end TapeLang
