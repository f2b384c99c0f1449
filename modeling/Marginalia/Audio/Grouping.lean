import Marginalia.Attachment.Comment
import Marginalia.Json.Printer

/-!
Comments on a recording put together by their anchors. Comments without the fields of an anchor
are left out.
-/

namespace Marginalia.Audio

open Attachment (Comment)

/-- A field as a part of a key: a text as it is, any other value as JSON. -/
def keyPart : Json → List Char
  | .text s => s.toList
  | j => j.compact.toList

/-- The key of a comment, by the fields of its anchor as they were kept. -/
def key? (c : Comment) : Option String := do
  let start ← Json.lookup "start" c.fields
  let stop ← Json.lookup "end" c.fields
  let earlier ← Json.lookup "attachedToEarlierRevision" c.fields
  return String.ofList (keyPart start ++ 'x' :: keyPart stop ++ '-' :: keyPart earlier)

/-- Comments with one key. -/
structure CommentGroup where
  key : String
  comments : List Comment

/-- A comment added to the group with its key, or to a new group behind the others. -/
def insertComment (key : String) (c : Comment) : List CommentGroup → List CommentGroup
  | [] => [⟨key, [c]⟩]
  | g :: gs =>
    if g.key = key then { g with comments := g.comments ++ [c] } :: gs
    else g :: insertComment key c gs

/-- The groups of comments, in the order in which their keys appear first. -/
def groupComments (cs : List Comment) : List CommentGroup :=
  cs.foldl (fun gs c => match key? c with
    | some key => insertComment key c gs
    | none => gs) []

end Marginalia.Audio
