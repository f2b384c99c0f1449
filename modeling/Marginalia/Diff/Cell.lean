/-!
Where a pointer is in a diff table, and what a comment spans there.
-/

namespace Marginalia.Diff

/-- The two line-number columns: the old file's and the new file's. -/
inductive Side where
  | left
  | right
deriving DecidableEq, Repr, Inhabited

/-- The parts of a row that a pointer can be on. -/
inductive CellKind where
  | lineNumber
  | contents
  /-- The mark of a comment that exists. -/
  | commentFlag
  /-- The mark that is only shown under the pointer. -/
  | ghostFlag
deriving DecidableEq, Repr

/-- A pointer position. Rows are counted through the whole table. -/
structure Cell where
  row : UInt64
  side : Side
  kind : CellKind
deriving DecidableEq, Repr

/-- All parts of a row but its contents are in a line-number column. -/
def Cell.inNumberColumn (c : Cell) : Bool := c.kind != .contents

/-- The file that a table shows: its place in the diff, the stored diff and its revision, and the
same of the diff that it is compared with. -/
structure File where
  index : UInt64
  diffId : UInt64
  revision : UInt32
  baseDiffId : Option UInt64
  baseRevision : Option UInt32
deriving DecidableEq, Repr

def File.new (index diffId : UInt64) (revision : UInt32) : File :=
  ⟨index, diffId, revision, none, none⟩

/-- The same file compared with another stored diff. -/
def File.against (f : File) (diffId : UInt64) (revision : UInt32) : File :=
  { f with baseDiffId := some diffId, baseRevision := some revision }

/-- The rows and lines that a new comment is about. -/
structure Span where
  firstRow : UInt64
  lastRow : UInt64
  firstLine : UInt32
  lastLine : UInt32
  side : Side
deriving DecidableEq, Repr

/-- How many lines a span has, counted in words of thirty-two bits. -/
def Span.lineCount (s : Span) : UInt32 := s.lastLine - s.firstLine + 1

def Span.isMultiline (s : Span) : Bool := s.firstLine != s.lastLine

end Marginalia.Diff
