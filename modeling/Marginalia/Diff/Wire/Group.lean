import Marginalia.Diff.Fragment
import Marginalia.Diff.Wire.Cell

/-!
The JSON forms of extents, reveals, rows, groups, fragments and requests. A row's selection is
not part of its form.
-/

namespace Marginalia.Diff

open Json (ofUInt32 ofUInt64 ofOption uint32? uint64? bool? text? nullable? items?)

def Extent.toJson : Extent → Json
  | .whole => .null
  | .hidden => .int 0
  | e => .text e.text

def Reveal.ofJson? (o : Json.Origin) (j : Json) : Option Reveal := do
  let (name, contents) ← Json.variant? j
  match name with
  | "full_chunk" => if o.isEmpty contents then some .whole else none
  | "collapse" => if o.isEmpty contents then some .hide else none
  | "above" => (contents.bind uint32?).map .above
  | "below" => (contents.bind uint32?).map .below
  | "below_to_header" =>
    let r ← o.contents? ["lines", "header"] contents
    let lines ← r.field? "lines" uint32?
    let header ← r.field? "header" text?
    return .toHeader lines header
  | _ => none

def Reveal.toJson : Reveal → Json
  | .whole => .text "full_chunk"
  | .above n => .object [("above", ofUInt32 n)]
  | .below n => .object [("below", ofUInt32 n)]
  | .toHeader n header =>
    .object [("below_to_header", .object [("lines", ofUInt32 n), ("header", .text header)])]
  | .hide => .text "collapse"

def CommentFlags.ofJson? (j : Json) : Option CommentFlags := do
  let r ← Json.record? ["left", "right"] j
  let left ← r.fieldOr? "left" false bool?
  let right ← r.fieldOr? "right" false bool?
  return ⟨left, right⟩

def CommentFlags.toJson (f : CommentFlags) : Json :=
  .object [("left", .bool f.left), ("right", .bool f.right)]

def Row.fieldNames : List String :=
  ["line", "old_line", "new_line", "old_text", "new_text", "comment_flags"]

def Row.ofJson? (j : Json) : Option Row := do
  let r ← Json.record? Row.fieldNames j
  let line ← r.field? "line" uint32?
  let oldLine ← r.fieldOr? "old_line" none (nullable? uint32?)
  let newLine ← r.fieldOr? "new_line" none (nullable? uint32?)
  let oldText ← r.fieldOr? "old_text" none (nullable? text?)
  let newText ← r.fieldOr? "new_text" none (nullable? text?)
  let comments ← r.fieldOr? "comment_flags" .none CommentFlags.ofJson?
  return ⟨line, oldLine, newLine, oldText, newText, comments, false⟩

def Row.toJson (r : Row) : Json :=
  .object [("line", ofUInt32 r.line), ("old_line", ofOption ofUInt32 r.oldLine),
    ("new_line", ofOption ofUInt32 r.newLine), ("old_text", ofOption .text r.oldText),
    ("new_text", ofOption .text r.newText), ("comment_flags", r.comments.toJson)]

def GroupKind.choices : List (String × GroupKind) :=
  [("equal", .equal), ("insert", .insert), ("delete", .delete), ("replace", .replace),
    ("collapsed", .collapsed)]

def Expansion.name : Expansion → String
  | .collapsed => "collapsed"
  | .partly => "partially_expanded"
  | .fully => "fully_expanded"

def Expansion.choices : List (String × Expansion) :=
  [("collapsed", .collapsed), ("partially_expanded", .partly), ("fully_expanded", .fully)]

/-- A control of a placeholder. -/
def Reveal.controlOfJson? (o : Json.Origin) (j : Json) : Option Reveal := do
  let r ← Json.record? ["context"] j
  r.field? "context" (Reveal.ofJson? o)

def Reveal.controlToJson (r : Reveal) : Json := .object [("context", r.toJson)]

def Group.fieldNames : List String :=
  ["chunk_index", "kind", "expansion", "loaded", "rows", "hidden_lines", "header",
    "expand_affordances", "has_collapse_affordance"]

def Group.ofJson? (o : Json.Origin) (j : Json) : Option Group := do
  let r ← Json.record? Group.fieldNames j
  let chunk ← r.field? "chunk_index" uint64?
  let kind ← r.field? "kind" (o.choice? GroupKind.choices)
  let expansion ← r.fieldOr? "expansion" .fully (o.choice? Expansion.choices)
  let loaded ← r.fieldOr? "loaded" false bool?
  let rows ← r.fieldOr? "rows" [] (items? Row.ofJson?)
  let hiddenLines ← r.fieldOr? "hidden_lines" 0 uint32?
  let header ← r.fieldOr? "header" none (nullable? text?)
  let reveals ← r.fieldOr? "expand_affordances" [] (items? (Reveal.controlOfJson? o))
  let collapsible ← r.fieldOr? "has_collapse_affordance" false bool?
  return ⟨chunk, kind, expansion, loaded, rows, hiddenLines, header, reveals, collapsible⟩

def Group.toJson (g : Group) : Json :=
  .object [("chunk_index", ofUInt64 g.chunk), ("kind", .text g.kind.name),
    ("expansion", .text g.expansion.name), ("loaded", .bool g.loaded),
    ("rows", .array (g.rows.map Row.toJson)), ("hidden_lines", ofUInt32 g.hiddenLines),
    ("header", ofOption .text g.header),
    ("expand_affordances", .array (g.reveals.map Reveal.controlToJson)),
    ("has_collapse_affordance", .bool g.collapsible)]

def Fragment.ofJson? (o : Json.Origin) (j : Json) : Option Fragment := do
  let r ← Json.record? ["groups"] j
  let groups ← r.field? "groups" (items? (Group.ofJson? o))
  return ⟨groups⟩

def Fragment.toJson (f : Fragment) : Json :=
  .object [("groups", .array (f.groups.map Group.toJson))]

def Request.members (r : Request) : List (String × Json) :=
  [("requestId", ofUInt64 r.id), ("chunkIndex", ofUInt64 r.chunk),
    ("linesOfContext", r.extent.toJson)]

def Request.toJson (r : Request) : Json := .object r.members

end Marginalia.Diff
