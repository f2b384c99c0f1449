import Marginalia.Diff.Patch.Segment
import Marginalia.Diff.Table

/-!
The tables of a diff, one a file. The unchanged lines between hunks are placeholders, and rows
and hidden lines are numbered through from one.
-/

namespace Marginalia.Diff

/-- The table of one file. -/
structure FileTable where
  path : String
  /-- The old path where the file was renamed. -/
  oldPath : Option String
  table : Table
deriving DecidableEq, Repr

/-- Why a hunk has no place in a table. -/
inductive LineError where
  | outOfRange (number : Nat)
  /-- The lines of the table are numbered past the last number. -/
  | tableOverflow (line : Nat)
  /-- The old lines of a hunk are. -/
  | hunkOverflow (start length : Nat)
deriving DecidableEq, Repr

def LineError.message : LineError → String
  | .outOfRange n => "line number " ++ Decimal.text n ++ " is out of range"
  | .tableOverflow n => "line numbers past " ++ Decimal.text n ++ " overflow"
  | .hunkOverflow s l =>
    "hunk @@ -" ++ Decimal.text s ++ "," ++ Decimal.text l ++
      " @@ runs past the last representable line"

/-- Why a diff has no tables. -/
inductive DiffError where
  | patch (cause : PatchError)
  | line (path : String) (cause : LineError)
deriving DecidableEq, Repr

/-- What is reported; nothing where reading is given up. -/
def PatchError.report? : PatchError → Option String
  | .targetWithoutSource line => some ("Target without source: " ++ String.ofList line)
  | .hunkWithoutFile line => some ("Unexpected hunk found: " ++ String.ofList line)
  | .strayTarget | .numberTooLarge => none

def DiffError.report? : DiffError → Option String
  | .patch cause => cause.report?.map fun m => "Failed to parse diff: " ++ m
  | .line path cause => some ("Failed to parse diff: " ++ path ++ ": " ++ cause.message)

namespace Patch

/-- One more than the last line number. -/
def lineLimit : Nat := UInt32.size

/-- A number as a line number. -/
def line (n : Nat) : Except LineError UInt32 :=
  if n < lineLimit then .ok (UInt32.ofNat n) else .error (.outOfRange n)

def line? : Option Nat → Except LineError (Option UInt32)
  | some n => (line n).map some
  | none => .ok none

/-- A table while its hunks are worked in. -/
structure Builder where
  groups : List Group
  /-- The number of the next row, hidden lines counted. -/
  nextLine : Nat
  /-- The old line after the hunk before. -/
  nextOld : Nat
deriving DecidableEq, Repr

/-- The line number after `count` more lines. -/
def reserve (next count : Nat) : Except LineError Nat :=
  if next + count < lineLimit then .ok (next + count) else .error (.tableOverflow next)

/-- The text of a line without the line ends it may hold. -/
def lineText (l : HunkLine) : String := String.ofList (Text.chomp l.text)

/-- A row of an old and a new line, and the number of the row after it. -/
def row (next : Nat) (old new : Option HunkLine) : Except LineError (Row × Nat) := do
  let oldLine ← line? (old.bind HunkLine.oldNumber)
  let newLine ← line? (new.bind HunkLine.newNumber)
  let after ← reserve next 1
  return (⟨UInt32.ofNat next, oldLine, newLine, old.map lineText, new.map lineText, .none, false⟩,
    after)

def rows (next : Nat) : List (Option HunkLine × Option HunkLine) → Except LineError (List Row × Nat)
  | [] => .ok ([], next)
  | (old, new) :: rest => do
    let (r, next) ← row next old new
    let (rs, next) ← rows next rest
    return (r :: rs, next)

def kindOf : Segment → GroupKind
  | .equal _ => .equal
  | .change [] _ => .insert
  | .change _ [] => .delete
  | .change _ _ => .replace

/-- The controls of a gap. A gap wider than the context offers some lines at either end, and all
lines down to the header that the next hunk names. -/
def reveals (context hidden : UInt32) (header : List Char) : List Reveal :=
  if context < hidden then
    (if 0 < context then [.above context, .whole, .below context] else [.whole]) ++
      (if header = [] then [] else [.toHeader hidden (String.ofList header)])
  else [.whole]

namespace Builder

def start : Builder := ⟨[], 1, 1⟩

/-- The next group; its chunk is its place among the groups. -/
def push (b : Builder) (make : UInt64 → Group) (nextLine : Nat) : Builder :=
  { b with groups := b.groups ++ [make (UInt64.ofNat b.groups.length)], nextLine := nextLine }

/-- The placeholder of a gap. -/
def pushGap (b : Builder) (context hidden : UInt32) (header : List Char) :
    Except LineError Builder := do
  let next ← reserve b.nextLine hidden.toNat
  let named (g : Group) : Group :=
    if header = [] then g else g.withHeader (String.ofList header)
  return b.push (fun chunk => named (.placeholder chunk hidden (reveals context hidden header))) next

def pushSegment (b : Builder) (s : Segment) : Except LineError Builder := do
  let (rs, next) ← rows b.nextLine s.rows
  return b.push (fun chunk => .new chunk (kindOf s) rs) next

/-- A hunk with the gap before it. -/
def pushHunk (context : UInt32) (b : Builder) (h : Hunk) : Except LineError Builder := do
  let start := max (← line h.oldStart).toNat 1
  let hidden := start - b.nextOld
  let b ← if 0 < hidden then b.pushGap context (UInt32.ofNat hidden) (Text.trim h.header) else .ok b
  let length ← line h.oldLength
  let nextOld := start + length.toNat
  if nextOld < lineLimit then
    h.segments.foldlM pushSegment { b with nextOld := nextOld }
  else .error (.hunkOverflow h.oldStart h.oldLength)

end Builder

/-- A file name without white space around it and without the mark of its side. -/
def cleanPath (name : List Char) : List Char :=
  let name := Text.trim name
  match name with
  | 'a' :: '/' :: r => r
  | 'b' :: '/' :: r => r
  | _ => name

def fileTable (context : UInt32) (f : FilePatch) : Except DiffError FileTable :=
  let path := cleanPath f.target
  let source := cleanPath f.source
  let renamed := source ≠ path ∧ source ≠ [] ∧ source ≠ "/dev/null".toList
  match f.hunks.foldlM (Builder.pushHunk context) Builder.start with
  | .ok b =>
    .ok ⟨String.ofList path, if renamed then some (String.ofList source) else none,
      .ofGroups b.groups⟩
  | .error e => .error (.line (String.ofList path) e)

/-- The tables of a diff's files. Gaps offer `context` lines at either end. -/
def tables (text : String) (context : UInt32) : Except DiffError (List FileTable) :=
  match read text.toList with
  | .ok files => files.mapM (fileTable context)
  | .error e => .error (.patch e)

end Patch

end Marginalia.Diff
