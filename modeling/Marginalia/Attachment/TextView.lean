import Marginalia.Attachment.Event

/-!
The review of an attachment with text: the view it is shown in, and new content for a view.
-/

namespace Marginalia.Attachment

structure TextView where
  reviewable : Reviewable
  mode : ViewMode
  /-- Whether there is a rendered view. -/
  hasRendered : Bool
  /-- Whether the options of rendering take changes. -/
  optionsEnabled : Bool
  /-- The request that has no answer yet. -/
  pending : Option ContentRequest
  /-- The last content of the rendered view. -/
  rendered : Option String
  /-- The last content of the source view. -/
  source : Option String

namespace TextView

def new (r : Reviewable) (hasRendered : Bool) (mode : ViewMode) : TextView :=
  ⟨r, if hasRendered then mode else .source, hasRendered, true, none, none, none⟩

/-- Changes the view, and says whether there is such a view. -/
def setMode (v : TextView) (mode : ViewMode) : Bool × TextView :=
  if mode = .rendered ∧ !v.hasRendered then (false, v) else (true, { v with mode := mode })

def content (v : TextView) : ViewMode → Option String
  | .rendered => v.rendered
  | .source => v.source

def setContent (v : TextView) (html : String) : ViewMode → TextView
  | .rendered => { v with rendered := some html }
  | .source => { v with source := some html }

/-- Asks for new content of a view. Among the options is the view's name, unless `extra` says
something else by that key. -/
def reload (v : TextView) (mode : ViewMode) (extra : Fields) : Event × TextView :=
  let request : ContentRequest :=
    ⟨mode, Json.sortMembers (("type", .text mode.name) :: extra)⟩
  (.requestContent request, { v with optionsEnabled := false, pending := some request })

/-- New content, or a message that there is none, for the request that is pending. -/
def finish (v : TextView) (answer : Except String String) : List Event × TextView :=
  let idle := { v with optionsEnabled := true, pending := none }
  match v.pending, answer with
  | none, _ => ([], idle)
  | some r, .ok html => ([.contentChanged r.mode html], idle.setContent html r.mode)
  | some _, .error message => ([.alert message], idle)

/-- Whether comments with an anchor are seen in the view. -/
def shows (v : TextView) : Anchor → Bool
  | .text a => a.mode = v.mode
  | .xml a => a.lines.mode = v.mode
  | .audio _ => false

end TextView

end Marginalia.Attachment
