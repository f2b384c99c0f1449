import Marginalia.Diff.Table

/-!
Selecting rows by dragging through the line-number columns. During a drag the rows from the one
pressed to the one last reached are selected; otherwise at most the row under the pointer is.
-/

namespace Marginalia.Diff

/-- A drag from the row that was pressed. -/
structure Drag where
  anchor : UInt64
  first : UInt64
  last : UInt64
  firstLine : UInt32
  lastLine : UInt32
  /-- The row that the pointer reached last. -/
  lastSeen : UInt64
  side : Side
deriving DecidableEq, Repr

/-- A drag, if one is going on, and what is under the pointer. The parts of a drag come and go
together; where each is kept by itself, as in `Fields`, operations have to see to that. -/
structure Selector where
  drag : Option Drag
  /-- The row under the pointer while nothing is dragged. -/
  hover : Option UInt64
  /-- Where the mark for a new comment is shown. -/
  ghost : Option (UInt64 × Side)
deriving DecidableEq, Repr

/-- What the release of a drag comes to. -/
inductive Release where
  | create (span : Span)
  | openExisting (row : UInt64) (side : Side) (line : UInt32)
deriving DecidableEq, Repr

def Drag.start (row : UInt64) (line : UInt32) (side : Side) : Drag :=
  ⟨row, row, row, line, line, row, side⟩

def Drag.span (d : Drag) : Span := ⟨d.first, d.last, d.firstLine, d.lastLine, d.side⟩

/-- Selects or leaves out each of the rows from one place to another. -/
def Table.selectBetween (t : Table) (low high : Nat) (wanted : Nat → Bool) : Table :=
  (List.range' low (high + 1 - low)).foldl (fun t i => t.setSelected i (wanted i)) t

/-- A drag that reaches another row. The rows selected before and after share the anchor, so they
differ only between the row last seen and this one. -/
def Drag.extend (d : Drag) (t : Table) (row : UInt64) : Drag × Table :=
  match t.line? d.anchor.toNat, t.line? row.toNat with
  | some anchorLine, some line =>
    let first := min d.anchor row
    let last := max d.anchor row
    let t := t.selectBetween (min d.lastSeen row).toNat (max d.lastSeen row).toNat
      fun i => first.toNat ≤ i && i ≤ last.toNat
    ({ d with
        first := first, last := last, firstLine := min anchorLine line,
        lastLine := max anchorLine line, lastSeen := row }, t)
  | _, _ => (d, t)

namespace Selector

def idle : Selector := ⟨none, none, none⟩

def isDragging (s : Selector) : Bool := s.drag.isSome

/-- The rows and lines selected by a drag. -/
def span? (s : Selector) : Option Span := s.drag.map Drag.span

/-- The first row selected by a drag. -/
def first? (s : Selector) : Option UInt64 := s.drag.map Drag.first

def last? (s : Selector) : Option UInt64 := s.drag.map Drag.last

/-- The lowest line selected by a drag, and zero without one. -/
def firstLine (s : Selector) : UInt32 := (s.drag.map Drag.firstLine).getD 0

def lastLine (s : Selector) : UInt32 := (s.drag.map Drag.lastLine).getD 0

def lastSeen (s : Selector) : UInt64 := (s.drag.map Drag.lastSeen).getD 0

/-- The selection of the row under the pointer is taken back. -/
def leaveHover (s : Selector) (t : Table) : Selector × Table :=
  match s.hover with
  | some row => ({ s with hover := none }, t.setSelected row.toNat false)
  | none => (s, t)

/-- The pointer came onto a cell. -/
def enter (s : Selector) (t : Table) (c : Cell) : Selector × Table :=
  match s.drag with
  | some d =>
    if c.inNumberColumn then
      let (d, t) := d.extend t c.row
      ({ s with drag := some d }, t)
    else (s, t)
  | none =>
    match c.kind with
    | .lineNumber | .commentFlag =>
      match t.row? c.row.toNat with
      | some row =>
        let (s, t) := s.leaveHover t
        let ghost := if row.hasComment c.side then none else some (c.row, c.side)
        ({ s with hover := some c.row, ghost := ghost }, t.setSelected c.row.toNat true)
      | none => (s, t)
    | .contents => { s with ghost := none }.leaveHover t
    | .ghostFlag => (s, t)

/-- The pointer went off a cell, onto another one or out of the table. -/
def leave (s : Selector) (t : Table) (onto : Option Cell) : Selector × Table :=
  if s.isDragging || onto.any Cell.inNumberColumn then (s, t)
  else { s with ghost := none }.leaveHover t

/-- The button was pressed over a cell, which begins a drag at its row. -/
def press (s : Selector) (t : Table) (c : Cell) : Selector × Table :=
  match c.kind with
  | .lineNumber | .commentFlag =>
    match t.line? c.row.toNat with
    | some line =>
      let (s, t) := s.leaveHover t
      ({ s with drag := some (.start c.row line c.side), ghost := none },
        t.setSelected c.row.toNat true)
    | none => (s, t)
  | .contents | .ghostFlag => (s, t)

/-- Whether a release over a cell is meant for a comment that exists. -/
def isExistingComment (t : Table) (c : Cell) : Bool :=
  match c.kind with
  | .commentFlag => true
  | .lineNumber => (t.row? c.row.toNat).any fun r => r.hasComment c.side
  | .contents | .ghostFlag => false

/-- What a release over a cell comes to. -/
def release? (s : Selector) (t : Table) (c : Cell) : Option Release :=
  if isExistingComment t c then
    (t.line? c.row.toNat).map fun line => .openExisting c.row c.side line
  else s.span?.map .create

end Selector

end Marginalia.Diff
