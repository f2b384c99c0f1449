import Marginalia.Json.Basic
import Marginalia.Text.Quoted

/-!
Anchors: the place on an attachment that comments belong to. On audio it is a span of time, on
text and XML a range of lines in one of two views.
-/

namespace Marginalia.Attachment

/-- What an attachment holds. -/
inductive Medium where
  | audio
  | text
  | xml
deriving DecidableEq, Repr

def Medium.name : Medium → String
  | .audio => "audio"
  | .text => "text"
  | .xml => "xml"

def Medium.choices : List (String × Medium) := [("audio", .audio), ("text", .text), ("xml", .xml)]

/-- How an attachment with text is shown. -/
inductive ViewMode where
  | rendered
  | source
deriving DecidableEq, Repr

def ViewMode.name : ViewMode → String
  | .rendered => "rendered"
  | .source => "source"

def ViewMode.choices : List (String × ViewMode) := [("rendered", .rendered), ("source", .source)]

/-- The view mode with a name. -/
def ViewMode.parse? (name : String) : Option ViewMode :=
  (ViewMode.choices.find? fun c => c.1 == name).map Prod.snd

/-- What is said about a name that no view mode has. -/
def ViewMode.unknownMessage (name : String) : String := "Unknown view mode: " ++ Text.quoted name

/-- A span of time on one of two revisions, in seconds; either end may be unknown. -/
structure AudioAnchor where
  start : Option Float
  stop : Option Float
  /-- Whether it lies on the earlier revision. -/
  earlier : Bool
deriving Repr

/-- A range of lines in one view. -/
structure TextAnchor where
  first : Option UInt32
  last : Option UInt32
  mode : ViewMode
deriving DecidableEq, Repr

/-- A range of lines of an XML document, as it was laid out. -/
structure XmlAnchor where
  lines : TextAnchor
  /-- Whether text stood on the line of its tags. -/
  sameLine : Bool
deriving DecidableEq, Repr

inductive Anchor where
  | audio (a : AudioAnchor)
  | text (a : TextAnchor)
  | xml (a : XmlAnchor)
deriving Repr

/-- Fields kept with a comment: values without repeated keys, sorted by key. -/
abbrev Fields := List (String × Json)

def AudioAnchor.unset : AudioAnchor := ⟨none, none, true⟩

def TextAnchor.unset : TextAnchor := ⟨none, none, .source⟩

namespace Anchor

def medium : Anchor → Medium
  | .audio _ => .audio
  | .text _ => .text
  | .xml _ => .xml

/-- The anchor of new comments. -/
def unset : Medium → Anchor
  | .audio => .audio .unset
  | .text => .text .unset
  | .xml => .xml ⟨.unset, false⟩

/-- The names of the fields that an anchor is kept in. -/
def fieldNames : Medium → List String
  | .audio => ["start", "end", "attachedToEarlierRevision"]
  | .text => ["beginLineNum", "endLineNum", "viewMode"]
  | .xml => ["renderTextContentOnSameLine", "beginLineNum", "endLineNum", "viewMode"]

def textFields (a : TextAnchor) : Fields :=
  [("beginLineNum", Json.ofOption Json.ofUInt32 a.first),
    ("endLineNum", Json.ofOption Json.ofUInt32 a.last), ("viewMode", .text a.mode.name)]

/-- The fields that an anchor is kept in. -/
def toFields (a : Anchor) : Fields :=
  Json.sortMembers <|
    match a with
    | .audio a =>
      [("start", Json.ofOption .real a.start), ("end", Json.ofOption .real a.stop),
        ("attachedToEarlierRevision", .bool a.earlier)]
    | .text a => textFields a
    | .xml a => ("renderTextContentOnSameLine", .bool a.sameLine) :: textFields a.lines

/-- The anchor as a value that tells its medium. -/
def toJson (a : Anchor) : Json := .object (("kind", .text a.medium.name) :: a.toFields)

end Anchor

end Marginalia.Attachment
