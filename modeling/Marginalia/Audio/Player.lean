import Marginalia.Audio.Waveform

/-!
A player: the controls of a waveform, and the regions of comments on it. At most one region was
drawn and has no comment yet.
-/

namespace Marginalia.Audio

open Attachment (AudioAnchor BlockId Event RegionId TimeSpan)
open WaveformPlayer (tell addRegion removeRegion isPlaying)

structure Player (W : Type := Waveform) where
  waveform : W
  settings : Settings
  /-- Whether the recording can be played. -/
  loaded : Bool
  /-- Whether it is on its way. -/
  loading : Bool
  controlsVisible : Bool
  spectrogramVisible : Bool
  /-- Whether the button to pause stands in place of the one to play. -/
  showsPause : Bool
  /-- The region that was drawn and has no comment yet. -/
  current : Option RegionId
  /-- The regions of blocks of comments. -/
  comments : List (RegionId × BlockId)
deriving Repr

/-- The span of an anchor with both ends. -/
def spanOf? (a : AudioAnchor) : Option TimeSpan := do
  let start ← a.start
  let stop ← a.stop
  return ⟨start, stop⟩

namespace Player

variable {W : Type}

def new [WaveformPlayer W] (s : Settings) : Player W :=
  ⟨WaveformPlayer.new, s, false, false, false, false, false, none, []⟩

/-- Applies the settings and begins to load. -/
def render [WaveformPlayer W] (p : Player W) : Player W :=
  { p with
    waveform := tell (tell (tell p.waveform (.setVolume p.settings.volume))
      (.setRate p.settings.speed)) (.load p.settings.url)
    loading := true }

def regionFor (p : Player W) (b : BlockId) : Option RegionId :=
  (p.comments.find? fun c => c.2 = b).map Prod.fst

/-! ### What the waveform reports -/

def loadStarted (p : Player W) : Player W := { p with loading := true }

/-- The recording can be played, and regions can be drawn from now on. -/
def fileLoaded [WaveformPlayer W] (p : Player W) : List Event × Player W :=
  ([.fileLoaded],
    { p with
      waveform := tell (tell p.waveform (.allowDrawing false)) (.allowDrawing true)
      loaded := true
      loading := false
      controlsVisible := true })

def failed (p : Player W) (reason : String) : List Event × Player W :=
  ([.alert ("An error occurred while loading the audio file:\n" ++ reason)],
    { p with loading := false })

def finished (p : Player W) : Player W := { p with showsPause := false }

/-- A region was drawn. While another one has no comment yet, it is taken away. -/
def regionDrawn [WaveformPlayer W] (p : Player W) (id : RegionId) (span : TimeSpan) :
    List Event × Player W :=
  match p.current with
  | some _ => ([], { p with waveform := removeRegion p.waveform id })
  | none => ([.regionCreated id span], { p with current := some id })

/-- A region was clicked: with shift it is played; else its comment is opened, unless a region
has no comment yet. -/
def regionClicked [WaveformPlayer W] (p : Player W) (id : RegionId) (shift : Bool) :
    List Event × Player W :=
  if shift then ([.playRegion id], { p with waveform := tell p.waveform (.playRegion id) })
  else
    match p.current, p.comments.find? fun c => c.1 = id with
    | none, some (_, b) => ([.openComment b], p)
    | _, _ => ([], p)

/-! ### Comments -/

/-- Gives a block the region that has none yet, or a new one over the span of its anchor. Says
whether it has got one. -/
def addComment [WaveformPlayer W] (p : Player W) (b : BlockId) (a : AudioAnchor) :
    Bool × Player W :=
  match p.current with
  | some id => (true, { p with current := none, comments := p.comments ++ [(id, b)] })
  | none =>
    match spanOf? a with
    | none => (false, p)
    | some span =>
      let (id, w) := addRegion p.waveform span
      (true, { p with waveform := w, comments := p.comments ++ [(id, b)] })

/-- Takes away the region that has no comment yet, or else the one of a block. -/
def removeComment [WaveformPlayer W] (p : Player W) (b : BlockId) : Player W :=
  match p.current with
  | some id => { p with current := none, waveform := removeRegion p.waveform id }
  | none =>
    match p.comments.find? fun c => c.2 = b with
    | none => p
    | some (id, _) =>
      { p with
        comments := p.comments.eraseP fun c => c.2 = b
        waveform := removeRegion p.waveform id }

/-! ### Controls -/

def play [WaveformPlayer W] (p : Player W) : Player W :=
  if isPlaying p.waveform then p
  else { p with waveform := WaveformPlayer.play p.waveform, showsPause := true }

def pause [WaveformPlayer W] (p : Player W) : Player W :=
  if isPlaying p.waveform then
    { p with waveform := WaveformPlayer.pause p.waveform, showsPause := false }
  else p

def setVolume [WaveformPlayer W] (p : Player W) (volume : Float) : Player W :=
  let v := Settings.clampVolume volume
  { p with settings := { p.settings with volume := v }, waveform := tell p.waveform (.setVolume v) }

def setSpeed [WaveformPlayer W] (p : Player W) (speed : Float) : Player W :=
  { p with
    settings := { p.settings with speed := speed }
    waveform := tell p.waveform (.setRate speed) }

end Player

end Marginalia.Audio
