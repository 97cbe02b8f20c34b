/-! Spans of time as text: hours, minutes and seconds, or a smaller unit below a second. -/
namespace TapeLang.Elapsed

/-- At most that many decimal places of `rest / unit`, up to the last that is not zero. -/
def places (unit : Nat) : (count rest : Nat) → List Char
  | 0, _ => []
  | count + 1, rest =>
    if rest = 0 then []
    else Nat.digitChar (rest * 10 / unit) :: places unit count (rest * 10 % unit)

/-- A number of parts, `unit` of which make one. -/
def fraction (parts unit : Nat) : String :=
  let tail := places unit 9 (parts % unit)
  toString (parts / unit) ++ if tail.isEmpty then "" else String.ofList ('.' :: tail)

def micro : Nat := 1000

def milli : Nat := 1000000

def second : Nat := 1000000000

def render (ns : Nat) : String :=
  if ns = 0 then "0s"
  else if ns < micro then s!"{ns}ns"
  else if ns < milli then fraction ns micro ++ "µs"
  else if ns < second then fraction ns milli ++ "ms"
  else
    let minutes := ns / (60 * second)
    let seconds := fraction (ns % (60 * second)) second ++ "s"
    if minutes = 0 then seconds
    else if minutes < 60 then s!"{minutes}m{seconds}"
    else s!"{minutes / 60}h{minutes % 60}m{seconds}"

end TapeLang.Elapsed
