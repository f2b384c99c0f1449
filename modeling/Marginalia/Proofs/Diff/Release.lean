import Marginalia.Proofs.Diff.Drag

/-! What a release of the button comes to. The history of the session tells it: the last press
since the button was released or an answer was worked in, and the row that the pointer came to last
after that press. -/

namespace Marginalia.Diff

/-- The row to which the pointer comes in a line-number column, if the table has it. -/
def Cell.reach? (t : Table) (c : Cell) : Option UInt64 :=
  if c.inNumberColumn = true ∧ t.hasRow c.row.toNat = true then some c.row else none

/-- An operation of a run, and the session that it met. -/
structure Moment where
  session : Session
  op : Operation

namespace Moment

/-- The button was released, or an answer was worked in. -/
def isEnd (m : Moment) : Bool :=
  match m.op with
  | .act (.pointerUp _) => true
  | .answer r result => (m.session.applyFragment r result).isOk
  | _ => false

/-- The cell of a press, if it is over a row that the table has. -/
def pressed? (m : Moment) : Option Cell :=
  match m.op with
  | .act (.pointerDown c) => if Selector.Takes m.session.table c then some c else none
  | _ => none

def reached? (m : Moment) : Option UInt64 :=
  match m.op with
  | .act (.pointerEnter c) => c.reach? m.session.table
  | _ => none

/-- What a moment makes of the cell pressed and the row reached before it. -/
def next (m : Moment) (held : Option (Cell × UInt64)) : Option (Cell × UInt64) :=
  if m.isEnd then none
  else
    match m.pressed? with
    | some c => some (c, c.row)
    | none => held.map fun p => (p.1, m.reached?.getD p.2)

end Moment

/-- A drag from a cell to a row, over the lines that the table has there. -/
structure Drag.Spans (d : Drag) (t : Table) (c : Cell) (row : UInt64) : Prop where
  anchor : d.anchor = c.row
  side : d.side = c.side
  first : d.first = min c.row row
  last : d.last = max c.row row
  lines : ∃ a b, t.line? c.row.toNat = some a ∧ t.line? row.toNat = some b ∧
    d.firstLine = min a b ∧ d.lastLine = max a b

namespace Drag

variable {d : Drag} {t t' : Table} {c : Cell} {row row' : UInt64}

theorem Spans.reflagged (h : d.Spans t c row) (hr : t.Reflagged t') : d.Spans t' c row := by
  obtain ⟨a, b, ha, hb, hlines⟩ := h.lines
  exact ⟨h.anchor, h.side, h.first, h.last, a, b, (hr.line?_eq _).trans ha,
    (hr.line?_eq _).trans hb, hlines⟩

theorem spans_start {line : UInt32} (h : t.line? c.row.toNat = some line) :
    (start c.row line c.side).Spans t c c.row :=
  ⟨rfl, rfl, (ite_self _).symm, (ite_self _).symm, line, line, h, h, (ite_self _).symm,
    (ite_self _).symm⟩

/-- Wherever a drag was before, it goes from its press to the row that it reaches now. -/
theorem Spans.extend (h : d.Spans t c row) (hr : t.hasRow row'.toNat = true) :
    (d.extend t row').1.Spans (d.extend t row').2 c row' := by
  have hre := d.reflagged_extend t row'
  obtain ⟨a, b, ha, -⟩ := h.lines
  have hanchor : t.hasRow d.anchor.toNat = true := by
    rw [h.anchor, ← Table.line?_isSome, ha]
    rfl
  obtain ⟨a', b', ha', hb', he⟩ := extend_of_hasRow hanchor hr
  rw [h.anchor] at ha' he
  have hspans : (d.extend t row').1.Spans t c row' := by
    rw [he]
    exact ⟨rfl, h.side, rfl, rfl, a', b', ha', hb', rfl, rfl⟩
  exact hspans.reflagged hre

end Drag

namespace Selector

variable {s : Selector} {t t' : Table} {c : Cell} {held : Option (Cell × UInt64)}

/-- The drag of a selector is the one that the cell pressed and the row reached make. -/
def Follows (s : Selector) (t : Table) : Option (Cell × UInt64) → Prop
  | none => s.drag = none
  | some (c, row) => ∃ d, s.drag = some d ∧ d.Spans t c row

/-- Flags of rows and what is shown under the pointer have no part in a drag. -/
theorem Follows.reflagged {s' : Selector} (h : s.Follows t held) (hd : s'.drag = s.drag)
    (hr : t.Reflagged t') : s'.Follows t' held := by
  cases held with
  | none => exact hd.trans h
  | some p =>
    obtain ⟨d, hs, hspans⟩ := h
    exact ⟨d, hd.trans hs, hspans.reflagged hr⟩

theorem Follows.enter (h : s.Follows t held) (c : Cell) :
    (s.enter t c).1.Follows (s.enter t c).2
      (held.map fun p => (p.1, (c.reach? t).getD p.2)) := by
  cases held with
  | none => exact drag_enter_idle h t c
  | some p =>
    obtain ⟨d, hd, hspans⟩ := h
    by_cases hc : c.inNumberColumn = true
    · rw [enter_of_inColumn hd t hc]
      cases hr : t.hasRow c.row.toNat with
      | true =>
        have hreach : c.reach? t = some c.row := if_pos ⟨hc, hr⟩
        simp only [hreach]
        exact ⟨_, rfl, hspans.extend hr⟩
      | false =>
        have hreach : c.reach? t = none := if_neg fun h => by simp [hr] at h
        rw [Drag.extend_of_not_hasRow hr, hreach]
        exact ⟨d, rfl, hspans⟩
    · have hreach : c.reach? t = none := if_neg fun h => hc h.1
      rw [enter_of_offColumn hd t hc, hreach]
      exact ⟨d, hd, hspans⟩

theorem follows_press (s : Selector) (hc : Takes t c) :
    (s.press t c).1.Follows (s.press t c).2 (some (c, c.row)) := by
  obtain ⟨line, hl, he⟩ := s.press_of_takes hc
  have hre := s.reflagged_press t c
  rw [he] at hre ⊢
  exact ⟨_, rfl, (Drag.spans_start hl).reflagged hre⟩

end Selector

namespace Session

variable {s : Session} {held : Option (Cell × UInt64)}

/-- The operations of a run, each with the session that it met. -/
def moments (s : Session) : List Operation → List Moment
  | [] => []
  | op :: ops => ⟨s, op⟩ :: (s.perform op).moments ops

/-- The cell that is held down after a run and the row reached from it. Of all that happened since
the last end of a drag, the last press counts, and the last row reached after it. -/
def held? (s : Session) (ops : List Operation) : Option (Cell × UInt64) :=
  let recent := (s.moments ops).reverse.takeWhile fun m => !m.isEnd
  (recent.findSome? Moment.pressed?).map fun c =>
    (c, ((recent.takeWhile fun m => m.pressed?.isNone).findSome? Moment.reached?).getD c.row)

theorem moments_concat (s : Session) (ops : List Operation) (op : Operation) :
    s.moments (ops ++ [op]) = s.moments ops ++ [⟨s.run ops, op⟩] := by
  induction ops generalizing s with
  | nil => rfl
  | cons op' ops ih => simp [moments, ih]

theorem held?_concat (s : Session) (ops : List Operation) (op : Operation) :
    s.held? (ops ++ [op]) = Moment.next ⟨s.run ops, op⟩ (s.held? ops) := by
  generalize hm : Moment.mk (s.run ops) op = m
  simp only [held?, moments_concat, hm, List.reverse_append, List.reverse_singleton,
    List.singleton_append, Moment.next]
  cases hend : m.isEnd with
  | true => simp [hend]
  | false =>
    cases hp : m.pressed? with
    | some c => simp [hend, hp]
    | none =>
      cases hr : m.reached? <;> simp [hend, hp, hr, Function.comp_def]

theorem selector_applyFragment {r : Request} {result : FetchResult} {p : Session × List Event}
    (h : s.applyFragment r result = .ok p) : p.1.selector = .idle := by
  unfold applyFragment at h
  split at h
  · obtain rfl := Except.ok.inj h
    rfl
  · simp at h

theorem follows_perform (h : s.selector.Follows s.table held) (op : Operation) :
    (s.perform op).selector.Follows (s.perform op).table (Moment.next ⟨s, op⟩ held) := by
  have kept : held.map (fun p => (p.1, p.2)) = held := by simp
  cases op with
  | act a =>
    cases a with
    | pointerEnter c =>
      simpa [Moment.next, Moment.isEnd, Moment.pressed?, Moment.reached?, perform, handle,
        pointTo] using h.enter c
    | pointerLeave c onto =>
      simp only [Moment.next, Moment.isEnd, Moment.pressed?, Moment.reached?, Option.getD_none, kept]
      exact h.reflagged (s.selector.drag_leave s.table onto)
        (s.selector.reflagged_leave s.table onto)
    | pointerDown c =>
      by_cases hc : Selector.Takes s.table c
      · simpa [Moment.next, Moment.isEnd, Moment.pressed?, hc, perform, handle, pointTo] using
          s.selector.follows_press hc
      · simpa [Moment.next, Moment.isEnd, Moment.pressed?, Moment.reached?, hc, perform, handle,
          pointTo, Selector.press_of_not_takes _ hc] using h
    | pointerUp c => rfl
    | expand chunk reveal =>
      rw [perform, handle, (s.handle_send _).1, (s.handle_send _).2]
      simpa [Moment.next, Moment.isEnd, Moment.pressed?, Moment.reached?] using h
    | collapse chunk =>
      rw [perform, handle, (s.handle_send _).1, (s.handle_send _).2]
      simpa [Moment.next, Moment.isEnd, Moment.pressed?, Moment.reached?] using h
  | comment row side value =>
    simp only [Moment.next, Moment.isEnd, Moment.pressed?, Moment.reached?, Option.getD_none, kept]
    exact h.reflagged rfl (s.table.reflagged_setComment row side value)
  | answer r result =>
    cases hres : s.applyFragment r result with
    | ok p =>
      simp only [Moment.next, Moment.isEnd, perform, hres, Except.isOk, Except.toBool, if_true]
      rw [selector_applyFragment hres]
      rfl
    | error e =>
      simpa [Moment.next, Moment.isEnd, Moment.pressed?, Moment.reached?, hres, perform,
        Except.isOk, Except.toBool] using h

theorem follows_run (hs : s.selector.drag = none) (ops : List Operation) :
    (s.run ops).selector.Follows (s.run ops).table (s.held? ops) := by
  induction ops using List.reverseRecOn with
  | nil => exact hs
  | append_singleton ops op ih =>
    rw [run_concat, held?_concat]
    exact follows_perform ih op

/-- A release over a cell is meant for a comment: its mark, or the line number of a row that has a
comment on that side. -/
def PointsAtComment (t : Table) (c : Cell) : Prop :=
  c.kind = .commentFlag ∨
    c.kind = .lineNumber ∧ ∃ r, t.row? c.row.toNat = some r ∧ r.hasComment c.side = true

theorem isExistingComment_iff {t : Table} {c : Cell} :
    Selector.isExistingComment t c = true ↔ PointsAtComment t c := by
  unfold Selector.isExistingComment PointsAtComment
  cases c.kind with
  | lineNumber => simp [Option.any_eq_true]
  | commentFlag => simp
  | contents => simp
  | ghostFlag => simp

/-- What the release of the button over a cell comes to, where a cell is held down and a row was
reached from it, or nothing is. -/
structure Released (s : Session) (held : Option (Cell × UInt64)) (c : Cell) (s' : Session)
    (events : List Event) : Prop where
  existing : PointsAtComment s.table c →
    events = ((s.table.line? c.row.toNat).map (.openExisting c.row c.side)).toList
  created : ¬ PointsAtComment s.table c → ∀ p row, held = some (p, row) →
    ∃ a b, s.table.line? p.row.toNat = some a ∧ s.table.line? row.toNat = some b ∧
      events = [.openEditor s.file ⟨min p.row row, max p.row row, min a b, max a b, p.side⟩]
  nothing : ¬ PointsAtComment s.table c → held = none → events = []
  idle : s'.selector = .idle
  unselected : ∀ r ∈ s'.table.rows, r.selected = false

theorem released_of_follows (h : s.selector.Follows s.table held) (c : Cell) :
    s.Released held c (s.handle (.pointerUp c)).1 (s.handle (.pointerUp c)).2 := by
  refine ⟨fun hc => ?_, fun hc p row hp => ?_, fun hc hn => ?_, rfl, fun r hr => ?_⟩
  · rw [← isExistingComment_iff] at hc
    simp only [handle, Selector.release?, hc, if_true]
    cases s.table.line? c.row.toNat <;> rfl
  · subst hp
    obtain ⟨d, hd, hspans⟩ := h
    obtain ⟨a, b, ha, hb, hfirst, hlast⟩ := hspans.lines
    rw [← isExistingComment_iff] at hc
    refine ⟨a, b, ha, hb, ?_⟩
    simp only [handle, Selector.release?, hc, Selector.span?, hd, Drag.span, Option.map_some]
    simp [releaseEvents, hspans.first, hspans.last, hspans.side, hfirst, hlast]
  · subst hn
    rw [← isExistingComment_iff] at hc
    have hd : s.selector.drag = none := h
    simp [handle, Selector.release?, hc, Selector.span?, hd, releaseEvents]
  · have hrows : (s.handle (.pointerUp c)).1.table.rows =
        s.table.rows.map fun r => { r with selected := false } :=
      s.table.clearSelected_groups_rows
    rw [hrows] at hr
    obtain ⟨r', -, rfl⟩ := List.mem_map.mp hr
    rfl

/-- From a session without a drag, whatever happens, a release comes to what the cell held down and
the row reached from it say. Nothing is dragged or selected after it. -/
theorem released_run (hs : s.selector.drag = none) (ops : List Operation) (c : Cell) :
    (s.run ops).Released (s.held? ops) c ((s.run ops).handle (.pointerUp c)).1
      ((s.run ops).handle (.pointerUp c)).2 :=
  released_of_follows (follows_run hs ops) c

/-- A second press takes the place of the first one, a refused answer ends nothing, and the row
reached last is above the press. -/
theorem released_second_press :
    let s := Session.new (.new 0 0 0) (.ofGroups [.equalRun 0 1 5])
    let ops : List Operation :=
      [.act (.pointerDown ⟨0, .left, .lineNumber⟩), .act (.pointerEnter ⟨2, .left, .lineNumber⟩),
        .comment 4 .right true, .act (.pointerDown ⟨3, .right, .lineNumber⟩),
        .answer ⟨1, 0, .whole⟩ (.ok ⟨[.equalRun 0 1 5]⟩),
        .act (.pointerEnter ⟨1, .left, .ghostFlag⟩), .act (.pointerEnter ⟨9, .left, .lineNumber⟩)]
    s.selector.drag = none ∧
      ((s.run ops).handle (.pointerUp ⟨0, .left, .contents⟩)).2 =
        [.openEditor (.new 0 0 0) ⟨1, 3, 2, 4, .right⟩] := by
  intro s ops
  have hs : s.selector.drag = none := rfl
  refine ⟨hs, ?_⟩
  have h := released_run hs ops ⟨0, .left, .contents⟩
  have hc : ¬ PointsAtComment (s.run ops).table ⟨0, .left, .contents⟩ := by
    simp [PointsAtComment]
  have hheld : s.held? ops = some (⟨3, .right, .lineNumber⟩, 1) := by decide
  obtain ⟨a, b, ha, hb, he⟩ := h.created hc _ _ hheld
  obtain rfl : 4 = a := Option.some.inj (ha.symm.trans (by decide)).symm
  obtain rfl : 2 = b := Option.some.inj (hb.symm.trans (by decide)).symm
  rw [he]
  decide

end Session

end Marginalia.Diff
