import Marginalia.Attachment.Reviewable

/-!
What the surroundings of a review are asked to do or told about.
-/

namespace Marginalia.Attachment

/-- The name of a region of a waveform. -/
structure RegionId where
  number : Nat
deriving DecidableEq, Repr

/-- A span of time, in seconds. -/
structure TimeSpan where
  start : Float
  stop : Float
deriving Repr

/-- A request for the content of a view, with the options to render it by. -/
structure ContentRequest where
  mode : ViewMode
  options : Fields

inductive Event where
  /-- An audio file can be played. -/
  | fileLoaded
  /-- A region was drawn. -/
  | regionCreated (id : RegionId) (span : TimeSpan)
  | openComment (block : BlockId)
  | playRegion (id : RegionId)
  | alert (message : String)
  /-- A block was made for a region that was drawn. -/
  | commentCreated (block : BlockId)
  /-- A block was taken away with its region. -/
  | commentRemoved (block : BlockId)
  | requestContent (request : ContentRequest)
  /-- New content came in for a view. -/
  | contentChanged (mode : ViewMode) (html : String)
  /-- Another revision is to be shown. -/
  | redirect (url : String)

end Marginalia.Attachment
