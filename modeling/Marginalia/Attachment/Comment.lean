import Marginalia.Attachment.Anchor
import Marginalia.Json.Record

/-!
Comments as they are kept, and what every attachment under review has.
-/

namespace Marginalia.Attachment

open Json (text? bool? uint64?)

/-- A comment as it is kept. -/
structure Comment where
  id : UInt64
  text : String
  /-- Whether it is not published yet. -/
  isDraft : Bool
  opensIssue : Bool
  /-- All else, with the fields of its anchor. -/
  fields : Fields

def Comment.fieldNames : List String := ["comment_id", "text", "localdraft", "issue_opened"]

/-- A comment out of an object; its further members are its fields. -/
def Comment.ofJson? (j : Json) : Option Comment :=
  match j with
  | .object ms => do
    let r ← Json.record? Comment.fieldNames j
    let id ← r.field? "comment_id" uint64?
    let text ← r.fieldOr? "text" "" text?
    let isDraft ← r.fieldOr? "localdraft" false bool?
    let opensIssue ← r.fieldOr? "issue_opened" false bool?
    let others := ms.filter fun m => !Comment.fieldNames.contains m.1
    if others.all fun m => m.2.isKeepable 1 then
      return ⟨id, text, isDraft, opensIssue, Json.sortMembers (← Json.settledMembers? others)⟩
    else none
  | _ => none

def Comment.toJson (c : Comment) : Json :=
  .object (("comment_id", Json.ofUInt64 c.id) :: ("text", .text c.text) ::
    ("localdraft", .bool c.isDraft) :: ("issue_opened", .bool c.opensIssue) :: c.fields)

/-- What every attachment under review has. -/
structure Info where
  caption : String
  attachment : UInt64
deriving DecidableEq, Repr

def Info.ofJson? (j : Json) : Option Info := do
  let r ← Json.record? ["caption", "fileAttachmentId"] j
  let caption ← r.fieldOr? "caption" "" text?
  let attachment ← r.field? "fileAttachmentId" uint64?
  return ⟨caption, attachment⟩

def Info.toJson (i : Info) : Json :=
  .object [("caption", .text i.caption), ("fileAttachmentId", Json.ofUInt64 i.attachment)]

end Marginalia.Attachment
