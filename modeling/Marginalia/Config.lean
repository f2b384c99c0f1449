import Marginalia.Audio.Waveform
import Marginalia.Text.Utf8
import Marginalia.Toml.Parser

/-!
The configuration: how many lines a control reveals, and how attachments open. It is read from the
first of several files that can be read, and that file alone decides.
-/

namespace Marginalia

structure Config where
  /-- How many hidden lines a control reveals. -/
  revealLines : UInt32
  /-- The name of the view in which attachments open. -/
  viewMode : String
  volume : Float
  speed : Float
deriving Repr

namespace Config

open Audio.Settings (defaultVolume defaultSpeed)

def default : Config := ⟨20, "rendered", defaultVolume, defaultSpeed⟩

def uint32? : Toml.Value → Option UInt32
  | .int i => if 0 ≤ i ∧ i < UInt32.size then some (UInt32.ofNat i.toNat) else none
  | _ => none

/-- A real number, which may be written as an integer of a word. -/
def real? : Toml.Value → Option Float
  | .real x => some x
  | .int i =>
    if -Int.ofNat (Nat.pow 2 63) ≤ i ∧ i < UInt64.size then some (Float.ofInt i) else none
  | _ => none

def text? : Toml.Value → Option String
  | .text s => some s
  | _ => none

/-- Reads a value that may be missing. -/
def orDefault {α : Type} (default : α) (read : Toml.Value → Option α) :
    Option Toml.Value → Option α
  | none => some default
  | some v => read v

/-- Volume and speed, as members of a table or as the first two values of an array. A date has no
such members. -/
def levels? : Toml.Value → Option (Float × Float)
  | .table _ ms => do
    let volume ← orDefault defaultVolume real? (ms.lookup "volume")
    let speed ← orDefault defaultSpeed real? (ms.lookup "playback_speed")
    return (volume, speed)
  | .array xs => do
    let volume ← orDefault defaultVolume real? xs[0]?
    let speed ← orDefault defaultSpeed real? xs[1]?
    return (volume, speed)
  | .moment => some (defaultVolume, defaultSpeed)
  | _ => none

/-- The configuration in a document; other members of it mean nothing. -/
def ofMembers? (ms : Toml.Members) : Option Config := do
  let revealLines ← orDefault default.revealLines uint32? (ms.lookup "expand_context_lines")
  let viewMode ← orDefault default.viewMode text? (ms.lookup "default_view_mode")
  let (volume, speed) ← orDefault (defaultVolume, defaultSpeed) levels? (ms.lookup "audio")
  return ⟨revealLines, viewMode, volume, speed⟩

def parse? (s : String) : Option Config := (Toml.parse? s).bind ofMembers?

/-- The first of several paths where a text can be read, with that text. A file that is not UTF-8
is passed over like one that is missing. -/
def firstText? {α : Type} (read : α → Option (List UInt8)) : List α → Option (α × String)
  | [] => none
  | path :: paths =>
    match (read path).bind Text.Utf8.decode? with
    | some cs => some (path, String.ofList cs)
    | none => firstText? read paths

/-- The configuration in the first text that can be read, and the default one where there is none
or it is no configuration. -/
def load {α : Type} (read : α → Option (List UInt8)) (paths : List α) : Config :=
  match firstText? read paths with
  | some (_, s) => (parse? s).getD default
  | none => default

end Config

end Marginalia
