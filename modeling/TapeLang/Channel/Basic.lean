/-! What a running program reads from and writes to. -/
namespace TapeLang

/-- A failure of the outside world, known by its text. -/
structure IoError where
  message : String
deriving DecidableEq, Repr

/-- Byte input and output with state `σ`. A read gives `none` once the input is exhausted; a
write or a flush gives the error, if any. -/
class Channel (σ : Type) where
  read : σ → Except IoError (Option UInt8) × σ
  write : UInt8 → σ → Option IoError × σ
  flush : σ → Option IoError × σ

end TapeLang
