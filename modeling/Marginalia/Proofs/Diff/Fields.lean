import Marginalia.Proofs.Diff.Drag

/-! A selector kept field by field. The rows and lines of a drag have fields of their own here, which
hold something between drags as well: an operation sets the fields that it is about, and a reset has
to put each of them back. After every operation they tell what the selector tells. -/

namespace Marginalia.Diff

/-- All that is kept of a selection, each part by itself. -/
structure Fields where
  first : Option UInt64
  last : Option UInt64
  firstLine : UInt32
  lastLine : UInt32
  lastSeen : UInt64
  anchor : Option UInt64
  side : Side
  hover : Option UInt64
  ghost : Option (UInt64 × Side)
deriving DecidableEq, Repr

namespace Fields

def idle : Fields := ⟨none, none, 0, 0, 0, none, .right, none, none⟩

def isDragging (f : Fields) : Bool := f.anchor.isSome

/-- The rows that are kept: those of a drag, the row under the pointer and the row of the mark. The
row last seen is one of them during a drag only. -/
def remembered (f : Fields) : List UInt64 :=
  f.anchor.toList ++ f.first.toList ++ f.last.toList ++
    (if f.isDragging then [f.lastSeen] else []) ++ f.hover.toList ++ (f.ghost.map Prod.fst).toList

/-- Nothing is kept, and no row is selected. -/
def reset (t : Table) : Fields × Table := (idle, t.clearSelected)

def leaveHover (f : Fields) (t : Table) : Fields × Table :=
  match f.hover with
  | some row => ({ f with hover := none }, t.setSelected row.toNat false)
  | none => (f, t)

def extend (f : Fields) (t : Table) (row : UInt64) : Fields × Table :=
  match f.anchor with
  | none => (f, t)
  | some anchor =>
    match t.line? anchor.toNat, t.line? row.toNat with
    | some anchorLine, some line =>
      let first := min anchor row
      let last := max anchor row
      let t := t.selectBetween (min f.lastSeen row).toNat (max f.lastSeen row).toNat
        fun i => first.toNat ≤ i && i ≤ last.toNat
      ({ f with
          first := some first, last := some last, firstLine := min anchorLine line,
          lastLine := max anchorLine line, lastSeen := row }, t)
    | _, _ => (f, t)

def enter (f : Fields) (t : Table) (c : Cell) : Fields × Table :=
  if f.isDragging then
    if c.inNumberColumn then f.extend t c.row else (f, t)
  else
    match c.kind with
    | .lineNumber | .commentFlag =>
      match t.row? c.row.toNat with
      | some row =>
        let (f, t) := f.leaveHover t
        let ghost := if row.hasComment c.side then none else some (c.row, c.side)
        ({ f with hover := some c.row, ghost := ghost }, t.setSelected c.row.toNat true)
      | none => (f, t)
    | .contents => { f with ghost := none }.leaveHover t
    | .ghostFlag => (f, t)

def leave (f : Fields) (t : Table) (onto : Option Cell) : Fields × Table :=
  if f.isDragging || onto.any Cell.inNumberColumn then (f, t)
  else { f with ghost := none }.leaveHover t

def press (f : Fields) (t : Table) (c : Cell) : Fields × Table :=
  match c.kind with
  | .lineNumber | .commentFlag =>
    match t.line? c.row.toNat with
    | some line =>
      let (f, t) := f.leaveHover t
      ({ f with
          ghost := none, anchor := some c.row, first := some c.row, last := some c.row,
          firstLine := line, lastLine := line, lastSeen := c.row, side := c.side },
        t.setSelected c.row.toNat true)
    | none => (f, t)
  | .contents | .ghostFlag => (f, t)

def span? (f : Fields) : Option Span :=
  match f.first, f.last with
  | some first, some last => some ⟨first, last, f.firstLine, f.lastLine, f.side⟩
  | _, _ => none

def release? (f : Fields) (t : Table) (c : Cell) : Option Release :=
  if Selector.isExistingComment t c then
    (t.line? c.row.toNat).map fun line => .openExisting c.row c.side line
  else f.span?.map .create

/-- The fields and the table after an operation. -/
def perform (p : Fields × Table) : Operation → Fields × Table
  | .act (.pointerEnter c) => p.1.enter p.2 c
  | .act (.pointerLeave _ onto) => p.1.leave p.2 onto
  | .act (.pointerDown c) => p.1.press p.2 c
  | .act (.pointerUp _) => reset p.2
  | .act (.expand _ _) | .act (.collapse _) => p
  | .answer r result =>
    match p.2.applyFragment r result with
    | .ok (t, _) => reset t
    | .error _ => p
  | .comment row side value => (p.1, p.2.setComment row side value)

def run (p : Fields × Table) (ops : List Operation) : Fields × Table := ops.foldl perform p

end Fields

namespace Selector

variable {s : Selector} {d : Drag}

/-- What a selector tells, field by field. -/
def fields (s : Selector) : Fields :=
  match s.drag with
  | none => { Fields.idle with hover := s.hover, ghost := s.ghost }
  | some d =>
    ⟨some d.first, some d.last, d.firstLine, d.lastLine, d.lastSeen, some d.anchor, d.side, s.hover,
      s.ghost⟩

theorem fields_of_idle (hd : s.drag = none) :
    s.fields = { Fields.idle with hover := s.hover, ghost := s.ghost } := by
  rw [fields, hd]

@[simp] theorem hover_fields (s : Selector) : s.fields.hover = s.hover := by
  obtain ⟨_ | d, hover, ghost⟩ := s <;> rfl

@[simp] theorem ghost_fields (s : Selector) : s.fields.ghost = s.ghost := by
  obtain ⟨_ | d, hover, ghost⟩ := s <;> rfl

@[simp] theorem isDragging_fields (s : Selector) : s.fields.isDragging = s.isDragging := by
  obtain ⟨_ | d, hover, ghost⟩ := s <;> rfl

theorem fields_leaveHover (s : Selector) (t : Table) :
    s.fields.leaveHover t = ((s.leaveHover t).1.fields, (s.leaveHover t).2) := by
  obtain ⟨drag, hover, ghost⟩ := s
  cases drag <;> cases hover <;> rfl

theorem fields_extend (d : Drag) (hover : Option UInt64) (ghost : Option (UInt64 × Side)) (t : Table)
    (row : UInt64) :
    (fields ⟨some d, hover, ghost⟩).extend t row =
      (fields ⟨some (d.extend t row).1, hover, ghost⟩, (d.extend t row).2) := by
  have hanchor : (fields ⟨some d, hover, ghost⟩).anchor = some d.anchor := rfl
  rw [Fields.extend, hanchor, Drag.extend]
  dsimp only
  cases t.line? d.anchor.toNat with
  | none => rfl
  | some anchorLine =>
    cases t.line? row.toNat with
    | none => rfl
    | some line => rfl

theorem fields_enter (s : Selector) (t : Table) (c : Cell) :
    s.fields.enter t c = ((s.enter t c).1.fields, (s.enter t c).2) := by
  obtain ⟨drag, hover, ghost⟩ := s
  rw [Fields.enter, isDragging_fields]
  cases drag with
  | some d =>
    have hdragging : isDragging ⟨some d, hover, ghost⟩ = true := rfl
    rw [if_pos hdragging]
    by_cases hc : c.inNumberColumn = true
    · rw [if_pos hc, enter_of_inColumn rfl t hc, fields_extend]
    · rw [if_neg hc, enter_of_offColumn rfl t hc]
  | none =>
    have hidle : isDragging ⟨none, hover, ghost⟩ = false := rfl
    rw [hidle, if_neg Bool.false_ne_true, enter]
    cases c.kind with
    | contents => exact fields_leaveHover ⟨none, hover, none⟩ t
    | ghostFlag => rfl
    | lineNumber | commentFlag =>
      cases t.row? c.row.toNat with
      | none => rfl
      | some row => cases hover <;> rfl

theorem fields_leave (s : Selector) (t : Table) (onto : Option Cell) :
    s.fields.leave t onto = ((s.leave t onto).1.fields, (s.leave t onto).2) := by
  obtain ⟨drag, hover, ghost⟩ := s
  rw [Fields.leave, leave, isDragging_fields]
  cases drag with
  | some d => rfl
  | none =>
    cases onto.any Cell.inNumberColumn with
    | true => rfl
    | false => exact fields_leaveHover ⟨none, hover, none⟩ t

theorem fields_press (s : Selector) (t : Table) (c : Cell) :
    s.fields.press t c = ((s.press t c).1.fields, (s.press t c).2) := by
  obtain ⟨drag, hover, ghost⟩ := s
  unfold Fields.press press
  cases c.kind with
  | contents | ghostFlag => rfl
  | lineNumber | commentFlag =>
    cases t.line? c.row.toNat with
    | none => rfl
    | some line => cases drag <;> cases hover <;> rfl

theorem fields_release? (s : Selector) (t : Table) (c : Cell) :
    s.fields.release? t c = s.release? t c := by
  have hspan : s.fields.span? = s.span? := by
    obtain ⟨drag, hover, ghost⟩ := s
    cases drag <;> rfl
  rw [Fields.release?, release?, hspan]

end Selector

namespace Session

variable {s : Session}

/-- Whatever is done, the fields and the selector tell the same. -/
theorem fields_perform (s : Session) (op : Operation) :
    Fields.perform (s.selector.fields, s.table) op =
      ((s.perform op).selector.fields, (s.perform op).table) := by
  cases op with
  | act a =>
    cases a with
    | pointerEnter c => exact s.selector.fields_enter s.table c
    | pointerLeave c onto => exact s.selector.fields_leave s.table onto
    | pointerDown c => exact s.selector.fields_press s.table c
    | pointerUp c => rfl
    | expand chunk reveal =>
      rw [perform, handle, (s.handle_send _).1, (s.handle_send _).2]
      rfl
    | collapse chunk =>
      rw [perform, handle, (s.handle_send _).1, (s.handle_send _).2]
      rfl
  | comment row side value => rfl
  | answer r result =>
    rw [perform, applyFragment, Fields.perform]
    cases s.table.applyFragment r result with
    | ok p => rfl
    | error e => rfl

theorem fields_run (s : Session) (ops : List Operation) :
    Fields.run (s.selector.fields, s.table) ops =
      ((s.run ops).selector.fields, (s.run ops).table) := by
  induction ops generalizing s with
  | nil => rfl
  | cons op ops ih =>
    rw [run_cons, ← ih, ← fields_perform]
    rfl

end Session

end Marginalia.Diff
