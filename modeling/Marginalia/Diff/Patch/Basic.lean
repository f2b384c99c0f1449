import Marginalia.Decimal.Natural
import Marginalia.Text.Line
import Marginalia.Text.Numeral

/-!
Unified diffs: the files they change, the hunks of each file and the lines of each hunk. A text
is read line by line; a hunk takes the lines after its header, whatever they look like, until as
many old and new lines have gone by as its header states.
-/

namespace Marginalia.Diff

/-- The kinds of lines in a hunk. -/
inductive LineKind where
  | context
  | removed
  | added
  /-- A remark about the line before it. -/
  | remark
deriving DecidableEq, Repr

/-- A line of a hunk, with its numbers in the old and in the new file. -/
structure HunkLine where
  kind : LineKind
  text : List Char
  oldNumber : Option Nat
  newNumber : Option Nat
deriving DecidableEq, Repr

structure Hunk where
  oldStart : Nat
  oldLength : Nat
  newStart : Nat
  newLength : Nat
  header : List Char
  lines : List HunkLine
deriving DecidableEq, Repr

/-- The part of a diff that is about one file. -/
structure FilePatch where
  source : List Char
  target : List Char
  hunks : List Hunk
deriving DecidableEq, Repr

/-- Why a text is no diff. -/
inductive PatchError where
  /-- A second target name after one source name. -/
  | targetWithoutSource (line : List Char)
  /-- A hunk before any target name. -/
  | hunkWithoutFile (line : List Char)
  /-- A target name before any source name: reading is given up without a report. -/
  | strayTarget
  /-- A hunk number beyond sixty-four bits: reading is given up without a report. -/
  | numberTooLarge
deriving DecidableEq, Repr

namespace Patch

/-- A file name behind its mark; it ends at a tab. -/
def name? (mark line : List Char) : Option (List Char) := do
  let r ← Text.dropLead? mark line
  let name := r.takeWhile (· ≠ '\t')
  if name = [] then none else some name

/-- A row of digits, and what follows it. -/
def number? (cs : List Char) : Option (List Char × List Char) :=
  let ds := cs.takeWhile Text.isNumeral
  if ds = [] then none else some (ds, cs.dropWhile Text.isNumeral)

/-- A start and a length; a missing length is one. -/
def range? (cs : List Char) : Option (List Char × List Char × List Char) := do
  let (start, r) ← number? cs
  match r with
  | ',' :: r' =>
    match number? r' with
    | some (length, r'') => return (start, length, r'')
    | none => return (start, ['1'], r)
  | _ => return (start, ['1'], r)

/-- The parts of a hunk's header line, numbers still as digits. -/
structure HunkHeader where
  oldStart : List Char
  oldLength : List Char
  newStart : List Char
  newLength : List Char
  header : List Char

def hunkHeader? (line : List Char) : Option HunkHeader := do
  let r ← Text.dropLead? "@@ -".toList line
  let (oldStart, oldLength, r) ← range? r
  let r ← Text.dropLead? " +".toList r
  let (newStart, newLength, r) ← range? r
  let r ← Text.dropLead? " @@".toList r
  let header := match r with
    | ' ' :: r => r
    | r => r
  return ⟨oldStart, oldLength, newStart, newLength, header⟩

/-- The hunk that a header opens, without lines; none where a number is no word. -/
def HunkHeader.open? (h : HunkHeader) : Option Hunk := do
  let limit := UInt64.size
  let oldStart ← Decimal.readBelow? limit h.oldStart
  let oldLength ← Decimal.readBelow? limit h.oldLength
  let newStart ← Decimal.readBelow? limit h.newStart
  let newLength ← Decimal.readBelow? limit h.newLength
  return ⟨oldStart, oldLength, newStart, newLength, h.header, []⟩

/-- A hunk while its lines are read, with the numbers of the next old and new line. The numbers of a
header fit in sixty-four bits; the sums of them, which are the ends of the hunk and the numbers of its
lines, are taken to do so too, and are added without a bound here. -/
structure OpenHunk where
  hunk : Hunk
  nextOld : Nat
  nextNew : Nat
deriving DecidableEq, Repr

def OpenHunk.ofHunk (h : Hunk) : OpenHunk := ⟨h, h.oldStart, h.newStart⟩

/-- Whether all lines that the header states have gone by. -/
def OpenHunk.isComplete (o : OpenHunk) : Bool :=
  o.hunk.oldStart + o.hunk.oldLength ≤ o.nextOld && o.hunk.newStart + o.hunk.newLength ≤ o.nextNew

def OpenHunk.push (o : OpenHunk) (l : HunkLine) : OpenHunk :=
  { o with hunk := { o.hunk with lines := o.hunk.lines ++ [l] } }

/-- A line of the body. A first character that marks no kind belongs to the text of a context
line. -/
def OpenHunk.read (o : OpenHunk) (line : List Char) : OpenHunk :=
  match line with
  | '-' :: t =>
    { o.push ⟨.removed, t, some o.nextOld, none⟩ with nextOld := o.nextOld + 1 }
  | '+' :: t =>
    { o.push ⟨.added, t, none, some o.nextNew⟩ with nextNew := o.nextNew + 1 }
  | '\\' :: t => o.push ⟨.remark, t, none, none⟩
  | ' ' :: t =>
    { o.push ⟨.context, t, some o.nextOld, some o.nextNew⟩ with
      nextOld := o.nextOld + 1, nextNew := o.nextNew + 1 }
  | t =>
    { o.push ⟨.context, t, some o.nextOld, some o.nextNew⟩ with
      nextOld := o.nextOld + 1, nextNew := o.nextNew + 1 }

/-- What has been read of a diff. -/
structure Reader where
  /-- The source name read last; it stays for targets to come. -/
  source : Option (List Char)
  current : Option FilePatch
  files : List FilePatch
  hunk : Option OpenHunk
deriving DecidableEq, Repr

namespace Reader

def start : Reader := ⟨none, none, [], none⟩

/-- The hunk being read goes to the file. -/
def closeHunk (r : Reader) : Reader :=
  match r.hunk with
  | some o =>
    { r with
      hunk := none
      current := r.current.map fun f => { f with hunks := f.hunks ++ [o.hunk] } }
  | none => r

/-- The file being read goes to the files. -/
def closeFile (r : Reader) : Reader :=
  { r with files := r.files ++ r.current.toList, current := none }

/-- A line outside of any hunk. -/
def readOutside (r : Reader) (line : List Char) : Except PatchError Reader :=
  match name? "--- ".toList line with
  | some source => .ok { r.closeFile with source := some source }
  | none =>
    match name? "+++ ".toList line with
    | some target =>
      match r.current, r.source with
      | some _, _ => .error (.targetWithoutSource line)
      | none, some source => .ok { r with current := some ⟨source, target, []⟩ }
      | none, none => .error .strayTarget
    | none =>
      match hunkHeader? line with
      | some h =>
        match r.current with
        | none => .error (.hunkWithoutFile line)
        | some _ =>
          match h.open? with
          | some hunk => .ok { r with hunk := some (.ofHunk hunk) }
          | none => .error .numberTooLarge
      | none => .ok r

/-- The next line of the diff. -/
def step (r : Reader) (line : List Char) : Except PatchError Reader :=
  match r.hunk with
  | some o =>
    let o := o.read line
    let r := { r with hunk := some o }
    .ok (if o.isComplete then r.closeHunk else r)
  | none => r.readOutside line

end Reader

/-- The files of a diff with their hunks. -/
def read (text : List Char) : Except PatchError (List FilePatch) := do
  let r ← (Text.lines text).foldlM Reader.step Reader.start
  return r.closeHunk.closeFile.files

end Patch

end Marginalia.Diff
