import OpenCaptions.Number.Scalar
import OpenCaptions.Text.Blank
import OpenCaptions.Text.Split

/-!
Progress of an encode, from the time that the engine's status lines name.
-/
namespace OpenCaptions.Progress

/-- Reads hours, minutes and seconds with a colon between each two. -/
def readClock? (clock : List Char) : Option Float := do
  match clock.splitOn ':' with
  | [h, m, s] =>
    let h ← Number.Numeral.read? h
    let m ← Number.Numeral.read? m
    let s ← Number.Numeral.read? s
    let total := h * 3600 + m * 60 + s
    if total.isFinite && 0 ≤ total then some total else none
  | _ => none

/-- The seconds behind the first `time=` of a line. -/
def time? (line : List Char) : Option Float := do
  let (_, rest) ← Text.splitAtText? "time=".toList line
  readClock? (← (Text.words rest).head?)

/-- The share of a duration in percent; nothing is known of a duration that is not above zero. -/
def percent (elapsed duration : Float) : Nat :=
  if duration.isNaN || duration ≤ 0 then 0 else Number.truncatedNat (elapsed / duration * 100) 100

end OpenCaptions.Progress
