import Marginalia.Attachment.TextView
import Marginalia.Xml.Pretty

/-!
The review of an XML attachment: that of its text, and the choice how text is laid out.
-/

namespace Marginalia.Attachment

structure XmlView where
  text : TextView
  /-- Whether text stands on the line of its tags. -/
  sameLine : Bool
  /-- Whether the choice is seen. -/
  visible : Bool

namespace XmlView

def new (r : Reviewable) (hasRendered : Bool) (mode : ViewMode) : XmlView :=
  ⟨.new r hasRendered mode, false, true⟩

def toggleVisible (v : XmlView) : XmlView := { v with visible := !v.visible }

/-- Changes the layout and asks for new content. Nothing happens where the layout is the same or
content is on its way. -/
def setSameLine (v : XmlView) (value : Bool) : Option Event × XmlView :=
  if value = v.sameLine ∨ !v.text.optionsEnabled then (none, v)
  else
    let (e, text) := v.text.reload v.text.mode [("renderTextContentOnSameLine", .bool value)]
    (some e, { v with text := text, sameLine := value })

def finish (v : XmlView) (answer : Except String String) : List Event × XmlView :=
  let (es, text) := v.text.finish answer
  (es, { v with text := text })

/-- The lines of the rendered view of a document. -/
def lines? (v : XmlView) (xml : String) : Option (List String) :=
  (Xml.renderLines? v.sameLine xml.toList).map fun ls => ls.map String.ofList

/-- Whether comments with an anchor are seen in the view and its layout. -/
def shows (v : XmlView) : Anchor → Bool
  | .xml a => a.lines.mode = v.text.mode && a.sameLine = v.sameLine
  | _ => false

end XmlView

end Marginalia.Attachment
