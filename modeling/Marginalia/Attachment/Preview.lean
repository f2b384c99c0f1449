import Marginalia.Attachment.Anchor
import Marginalia.Config
import Marginalia.Files.Path
import Marginalia.Notebook
import Marginalia.Xml.Pretty

/-!
How attachments open, and what a file shows in either view: its text as it is, or XML and notebooks
rendered.
-/

namespace Marginalia.Attachment

/-- How attachments open before anything is changed. -/
structure Opening where
  mode : ViewMode
  audio : Audio.Settings
deriving Repr

namespace Opening

/-- The opening that a configuration asks for; none where it names no view. -/
def ofConfig? (c : Config) : Option Opening :=
  (ViewMode.parse? c.viewMode).map fun mode => ⟨mode, .ofLevels c.volume c.speed⟩

def toJson (o : Opening) : Json :=
  .object [("playback_speed", .real o.audio.speed), ("view_mode", .text o.mode.name),
    ("volume", .real o.audio.volume)]

end Opening

inductive PreviewError where
  | unreadable (path : String)
  /-- XML whose bytes are no text in its encoding. -/
  | encoding (cause : Xml.DecodeError)
  | xml
  /-- A notebook whose bytes are no text. -/
  | bytes (fault : Text.Utf8.Fault)
  | notebook

def PreviewError.message : PreviewError → String
  | .unreadable path => "Failed to read " ++ path
  | .encoding cause => cause.message
  | .xml => "Failed to parse XML"
  | .bytes fault => fault.message
  | .notebook => "Failed to parse notebook"

def xmlLines (sameLine : Bool) (bytes : List UInt8) : Except PreviewError (List String) :=
  match Xml.decode bytes with
  | .error cause => .error (.encoding cause)
  | .ok cs =>
    match Xml.renderLines? sameLine cs with
    | some ls => .ok (ls.map String.ofList)
    | none => .error .xml

def notebookLines (bytes : List UInt8) : Except PreviewError (List String) :=
  match Text.Utf8.read bytes with
  | .error fault => .error (.bytes fault)
  | .ok cs =>
    match Notebook.parse? (String.ofList cs) with
    | some n => .ok n.lines
    | none => .error .notebook

/-- The lines of a text, with U+FFFD for each part of it that is broken. -/
def plainLines (bytes : List UInt8) : List String :=
  (Text.lines (Text.Utf8.decodeLossy bytes)).map String.ofList

/-- The lines that a file shows. The ending of its name, in letters of either case, tells how it
is rendered. -/
def preview (read : String → Option (List UInt8)) (path : String) (mode : ViewMode)
    (sameLine : Bool) : Except PreviewError (List String) :=
  match read path with
  | none => .error (.unreadable path)
  | some bytes =>
    let ending := ((Path.extension? path).getD []).map Text.lower
    match mode with
    | .source => .ok (plainLines bytes)
    | .rendered =>
      if ending = "xml".toList then xmlLines sameLine bytes
      else if ending = "ipynb".toList then notebookLines bytes
      else .ok (plainLines bytes)

end Marginalia.Attachment
