import Marginalia.Diff.Cell
import Marginalia.Diff.Reveal

/-!
Rows of a diff table and the groups they stand in. A group shows the lines of one chunk, or is
the placeholder of lines that are hidden.
-/

namespace Marginalia.Diff

/-- Which sides of a row carry a comment. -/
structure CommentFlags where
  left : Bool
  right : Bool
deriving DecidableEq, Repr, Inhabited

def CommentFlags.none : CommentFlags := ⟨false, false⟩

def CommentFlags.has (f : CommentFlags) : Side → Bool
  | .left => f.left
  | .right => f.right

def CommentFlags.set (f : CommentFlags) (side : Side) (value : Bool) : CommentFlags :=
  match side with
  | .left => { f with left := value }
  | .right => { f with right := value }

/-- A row: its line number in the table, hidden lines counted, and the old and the new line that
it shows. -/
structure Row where
  line : UInt32
  oldLine : Option UInt32
  newLine : Option UInt32
  oldText : Option String
  newText : Option String
  comments : CommentFlags
  selected : Bool
deriving DecidableEq, Repr

def Row.bare (line : UInt32) : Row := ⟨line, none, none, none, none, .none, false⟩

/-- A row with the same text on both sides. -/
def Row.same (line oldLine newLine : UInt32) (text : String) : Row :=
  { Row.bare line with
    oldLine := some oldLine, newLine := some newLine, oldText := some text, newText := some text }

def Row.hasComment (r : Row) (side : Side) : Bool := r.comments.has side

inductive GroupKind where
  | equal
  | insert
  | delete
  | replace
  /-- A placeholder of hidden lines. -/
  | collapsed
deriving DecidableEq, Repr

def GroupKind.name : GroupKind → String
  | .equal => "equal"
  | .insert => "insert"
  | .delete => "delete"
  | .replace => "replace"
  | .collapsed => "collapsed"

/-- How much of a chunk is shown. -/
inductive Expansion where
  | collapsed
  | partly
  | fully
deriving DecidableEq, Repr, Inhabited

/-- Consecutive rows of one chunk, or a placeholder. -/
structure Group where
  chunk : UInt64
  kind : GroupKind
  expansion : Expansion
  /-- Whether the rows came in answer to a request. -/
  loaded : Bool
  rows : List Row
  hiddenLines : UInt32
  header : Option String
  /-- The controls that reveal hidden lines. -/
  reveals : List Reveal
  /-- Whether the group has the control that hides its chunk again. -/
  collapsible : Bool
deriving DecidableEq, Repr

namespace Group

def new (chunk : UInt64) (kind : GroupKind) (rows : List Row) : Group :=
  ⟨chunk, kind, .fully, false, rows, 0, none, [], false⟩

def placeholder (chunk : UInt64) (hiddenLines : UInt32) (reveals : List Reveal) : Group :=
  { new chunk .collapsed [] with
    expansion := .collapsed, hiddenLines := hiddenLines, reveals := reveals }

/-- Rows that came in answer to a request, with the control that hides them. -/
def shown (chunk : UInt64) (rows : List Row) : Group :=
  { new chunk .equal rows with loaded := true, collapsible := true }

/-- Consecutive rows of equal empty lines. The lines end before the last number of a word. -/
def equalRun (chunk : UInt64) (start count : UInt32) : Group :=
  let lines := (start + count).toNat - start.toNat
  new chunk .equal ((List.range lines).map fun i =>
    let n := start + UInt32.ofNat i
    Row.same n n n "")

def withHeader (g : Group) (header : String) : Group := { g with header := some header }

def isPlaceholder (g : Group) : Bool := g.kind == .collapsed

/-- Loaded rows of equal lines: they give way to a fragment inserted beside them. -/
def isMergeable (g : Group) : Bool := g.kind == .equal && g.loaded

def startLine? (g : Group) : Option UInt32 := g.rows.head?.map Row.line

/-- The lines that the group stands for, shown or hidden. -/
def lineCount (g : Group) : UInt32 :=
  if g.isPlaceholder then g.hiddenLines else UInt32.ofNat g.rows.length

end Group

end Marginalia.Diff
