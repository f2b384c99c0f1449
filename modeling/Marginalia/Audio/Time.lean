import Marginalia.Attachment.Anchor
import Marginalia.Decimal.Natural

/-!
Times of a recording: the labels of a timeline and of spans.
-/

namespace Marginalia.Audio

open Attachment (AudioAnchor)

/-- How many seconds lie between two labels of a timeline, by how far it is zoomed in. -/
def labelInterval (pixelsPerSecond : Float) : Float :=
  if pixelsPerSecond ≥ 2500 then 0.01
  else if pixelsPerSecond ≥ 1000 then 0.025
  else if pixelsPerSecond ≥ 250 then 0.1
  else if pixelsPerSecond ≥ 100 then 0.25
  else if pixelsPerSecond ≥ 25 then 1
  else if pixelsPerSecond * 5 ≥ 25 then 5
  else if pixelsPerSecond * 15 ≥ 25 then 15
  else (0.5 / pixelsPerSecond).ceil * 60

/-- The last millisecond that a clock shows, counted from its start. -/
def clockLimit : Nat := 8210266876799999

/-- A count of milliseconds as minutes, seconds and milliseconds; whole hours are left out. -/
def clockText (millis : Nat) : List Char :=
  Decimal.padded 2 (millis / 60000 % 60) ++ ':' :: Decimal.padded 2 (millis / 1000 % 60) ++
    '.' :: Decimal.padded 3 (millis % 1000)

/-- A time rounded to whole milliseconds; one before the start is the start. -/
def milliseconds (seconds : Float) : Nat :=
  let x := if seconds > 0 then seconds else 0
  (x * 1000).round.toUInt64.toNat

/-- A time in seconds as a clock shows it. Times that no clock reaches are shown as the start. -/
def timestamp (seconds : Float) : List Char :=
  let millis := milliseconds seconds
  clockText (if millis ≤ clockLimit then millis else 0)

/-- The label of a span. -/
def flagText (a : AudioAnchor) : String :=
  String.ofList (timestamp (a.start.getD 0) ++ " - ".toList ++ timestamp (a.stop.getD 0))

end Marginalia.Audio
