import Marginalia.Diff.Session
import Marginalia.Diff.Wire.Group

/-!
The JSON forms of actions and events, told apart by their `type`.
-/

namespace Marginalia.Diff

open Json (ofUInt32 ofUInt64 ofOption uint64? nullable?)

/-- The inside of an action is read as the inside of a tagged record wherever it comes from. -/
def Action.ofJson? (j : Json) : Option Action := do
  let (tag, body) ← Json.tagged? "type" j
  match tag with
  | "pointer_enter" => (Cell.ofJson? .tagged body).map .pointerEnter
  | "pointer_down" => (Cell.ofJson? .tagged body).map .pointerDown
  | "pointer_up" => (Cell.ofJson? .tagged body).map .pointerUp
  | "pointer_leave" =>
    let r ← Json.record? ["target", "related"] body
    let cell ← r.field? "target" (Cell.ofJson? .tagged)
    let onto ← r.fieldOr? "related" none (nullable? (Cell.ofJson? .tagged))
    return .pointerLeave cell onto
  | "expand" =>
    let r ← Json.record? ["chunk_index", "context"] body
    let chunk ← r.field? "chunk_index" uint64?
    let reveal ← r.field? "context" (Reveal.ofJson? .tagged)
    return .expand chunk reveal
  | "collapse" =>
    let r ← Json.record? ["chunk_index"] body
    let chunk ← r.field? "chunk_index" uint64?
    return .collapse chunk
  | _ => none

/-- A record with the member that tells it apart in front. -/
def withType (name : String) (ms : List (String × Json)) : Json :=
  .object (("type", .text name) :: ms)

def Action.toJson : Action → Json
  | .pointerEnter c => withType "pointer_enter" c.members
  | .pointerLeave c onto =>
    withType "pointer_leave" [("target", c.toJson), ("related", ofOption Cell.toJson onto)]
  | .pointerDown c => withType "pointer_down" c.members
  | .pointerUp c => withType "pointer_up" c.members
  | .expand chunk reveal =>
    withType "expand" [("chunk_index", ofUInt64 chunk), ("context", reveal.toJson)]
  | .collapse chunk => withType "collapse" [("chunk_index", ofUInt64 chunk)]

def Event.toJson : Event → Json
  | .openEditor file span =>
    withType "open_comment_editor" [("context", file.toJson), ("range", span.toJson)]
  | .openExisting row side line =>
    withType "open_existing_comment"
      [("row_index", ofUInt64 row), ("side", side.toJson), ("line", ofUInt32 line)]
  | .requestFragment r => withType "request_fragment" r.members
  | .expansionChanged => withType "chunk_expansion_changed" []

end Marginalia.Diff
