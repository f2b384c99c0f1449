import Marginalia.Attachment.Event
import Marginalia.Decimal.Shortest

/-!
The waveform of a recording, as far as a player has to do with it; and one that only notes what it
was told, whether it plays and the regions on it. There regions get their names in the order in
which they appear.
-/

namespace Marginalia.Audio

open Attachment (RegionId TimeSpan)

/-- What a waveform is told. -/
inductive Command where
  | load (url : String)
  | setVolume (volume : Float)
  | setRate (rate : Float)
  | play
  | pause
  | addRegion (span : TimeSpan)
  | removeRegion (id : RegionId)
  | playRegion (id : RegionId)
  /-- Allows or forbids to draw regions. -/
  | allowDrawing (allowed : Bool)
deriving Repr

structure Region where
  id : RegionId
  span : TimeSpan
deriving Repr

/-- A waveform that a player can drive. -/
class WaveformPlayer (W : Type) where
  /-- A waveform without a recording. -/
  new : W
  /-- The waveform once it has done what it was told. -/
  tell : W → Command → W
  play : W → W
  pause : W → W
  isPlaying : W → Bool
  /-- Draws a region over a span and gives it a name. -/
  addRegion : W → TimeSpan → RegionId × W
  removeRegion : W → RegionId → W

/-- A waveform that keeps notes. -/
structure Waveform where
  /-- What it was told, the last command first. -/
  commands : List Command
  isPlaying : Bool
  regions : List Region
  /-- The number of the next region. -/
  next : Nat
  numbered : ∀ r ∈ regions, r.id.number < next
deriving Repr

namespace Waveform

def new : Waveform := ⟨[], false, [], 1, by simp⟩

/-- Notes a command that changes nothing that is seen. -/
def tell (w : Waveform) (c : Command) : Waveform := { w with commands := c :: w.commands }

def play (w : Waveform) : Waveform := { w.tell .play with isPlaying := true }

def pause (w : Waveform) : Waveform := { w.tell .pause with isPlaying := false }

def addRegion (w : Waveform) (span : TimeSpan) : RegionId × Waveform :=
  let id : RegionId := ⟨w.next⟩
  (id, { w.tell (.addRegion span) with
    regions := w.regions ++ [⟨id, span⟩]
    next := w.next + 1
    numbered := by
      intro r hr
      rcases List.mem_append.mp hr with hr | hr
      · exact Nat.lt_succ_of_lt (w.numbered r hr)
      · rw [List.mem_singleton.mp hr]
        exact Nat.lt_succ_self _ })

def removeRegion (w : Waveform) (id : RegionId) : Waveform :=
  { w.tell (.removeRegion id) with
    regions := w.regions.filter fun r => r.id ≠ id
    numbered := fun r hr => w.numbered r (List.mem_filter.mp hr).1 }

end Waveform

instance : WaveformPlayer Waveform where
  new := .new
  tell := Waveform.tell
  play := Waveform.play
  pause := Waveform.pause
  isPlaying := Waveform.isPlaying
  addRegion := Waveform.addRegion
  removeRegion := Waveform.removeRegion

/-- How loud and how fast a recording is played, and where it is. -/
structure Settings where
  volume : Float
  speed : Float
  url : String
deriving Repr

namespace Settings

def defaultVolume : Float := 0.5

def defaultSpeed : Float := 1

def default : Settings := ⟨defaultVolume, defaultSpeed, ""⟩

/-- The speeds to choose from. -/
def speedChoices : List Float := [0.1, 0.25, 0.4, 0.5, 0.75, 1, 1.25, 1.5, 2, 5]

/-- A volume brought between silence and full. -/
def clampVolume (v : Float) : Float := if v < 0 then 0 else if v > 1 then 1 else v

/-- Settings to begin with. A volume that is no number and a speed that is none or not above zero
give way to the defaults. -/
def ofLevels (volume speed : Float) : Settings :=
  ⟨if volume.isNaN then defaultVolume else clampVolume volume,
    if Decimal.isFinite speed && speed > 0 then speed else defaultSpeed, ""⟩

end Settings

end Marginalia.Audio
