import Marginalia.Diff.Cell
import Marginalia.Json.Record

/-!
The JSON forms of cells, files and spans.
-/

namespace Marginalia.Diff

open Json (ofUInt32 ofUInt64 ofOption uint32? uint64? nullable?)

def Side.name : Side → String
  | .left => "left"
  | .right => "right"

def Side.choices : List (String × Side) := [("left", .left), ("right", .right)]

def Side.ofJson? (o : Json.Origin) (j : Json) : Option Side := o.choice? Side.choices j

def Side.toJson (s : Side) : Json := .text s.name

def CellKind.name : CellKind → String
  | .lineNumber => "line_number"
  | .contents => "contents"
  | .commentFlag => "comment_flag"
  | .ghostFlag => "ghost_flag"

def CellKind.choices : List (String × CellKind) :=
  [("line_number", .lineNumber), ("contents", .contents), ("comment_flag", .commentFlag),
    ("ghost_flag", .ghostFlag)]

def Cell.fieldNames : List String := ["row_index", "side", "kind"]

def Cell.ofJson? (o : Json.Origin) (j : Json) : Option Cell := do
  let r ← Json.record? Cell.fieldNames j
  let row ← r.field? "row_index" uint64?
  let side ← r.field? "side" (Side.ofJson? o)
  let kind ← r.field? "kind" (o.choice? CellKind.choices)
  return ⟨row, side, kind⟩

def Cell.members (c : Cell) : List (String × Json) :=
  [("row_index", ofUInt64 c.row), ("side", c.side.toJson), ("kind", .text c.kind.name)]

def Cell.toJson (c : Cell) : Json := .object c.members

def File.fieldNames : List String :=
  ["file_index", "filediff_id", "revision", "interfilediff_id", "interdiff_revision"]

def File.ofJson? (j : Json) : Option File := do
  let r ← Json.record? File.fieldNames j
  let index ← r.field? "file_index" uint64?
  let diffId ← r.field? "filediff_id" uint64?
  let revision ← r.field? "revision" uint32?
  let baseDiffId ← r.fieldOr? "interfilediff_id" none (nullable? uint64?)
  let baseRevision ← r.fieldOr? "interdiff_revision" none (nullable? uint32?)
  return ⟨index, diffId, revision, baseDiffId, baseRevision⟩

def File.toJson (f : File) : Json :=
  .object [("file_index", ofUInt64 f.index), ("filediff_id", ofUInt64 f.diffId),
    ("revision", ofUInt32 f.revision), ("interfilediff_id", ofOption ofUInt64 f.baseDiffId),
    ("interdiff_revision", ofOption ofUInt32 f.baseRevision)]

def Span.fieldNames : List String := ["begin_row", "end_row", "begin_line", "end_line", "side"]

def Span.ofJson? (o : Json.Origin) (j : Json) : Option Span := do
  let r ← Json.record? Span.fieldNames j
  let firstRow ← r.field? "begin_row" uint64?
  let lastRow ← r.field? "end_row" uint64?
  let firstLine ← r.field? "begin_line" uint32?
  let lastLine ← r.field? "end_line" uint32?
  let side ← r.field? "side" (Side.ofJson? o)
  return ⟨firstRow, lastRow, firstLine, lastLine, side⟩

def Span.toJson (s : Span) : Json :=
  .object [("begin_row", ofUInt64 s.firstRow), ("end_row", ofUInt64 s.lastRow),
    ("begin_line", ofUInt32 s.firstLine), ("end_line", ofUInt32 s.lastLine),
    ("side", s.side.toJson)]

end Marginalia.Diff
