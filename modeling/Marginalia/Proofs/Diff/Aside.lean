import Marginalia.Proofs.Diff.Highlight

/-! Cells off the line numbers: the contents of a row, and the mark that is shown under the pointer.
Neither of them begins a drag or brings a mark up. The contents never move a drag either. The mark
stands in the line-number column, so that during a drag it is reached as the line number beside it
is; it leaves the drag as it was only where its row was seen last, or is not in the table. -/

namespace Marginalia.Diff

/-- The contents of a row, or the mark that is only shown under the pointer. -/
def Cell.OffNumbers (c : Cell) : Prop := c.kind = .contents ∨ c.kind = .ghostFlag

theorem Cell.OffNumbers.not_takes {c : Cell} (h : c.OffNumbers) (t : Table) :
    ¬ Selector.Takes t c := by
  rintro ⟨hk, -⟩
  rcases h with hc | hc <;> simp [hc] at hk

theorem Cell.OffNumbers.press {c : Cell} (h : c.OffNumbers) (s : Session) :
    s.handle (.pointerDown c) = (s, []) := by
  rw [Session.handle, Selector.press_of_not_takes _ (h.not_takes _)]
  rfl

namespace Drag

variable {d : Drag} {t : Table} {c : Cell} {row : UInt64}

/-- The row that a drag goes to is the one last seen. -/
theorem Spans.eq_lastSeen (hs : d.Spans t c row) (hd : d.Within t) : row = d.lastSeen := by
  have hmin := congrArg UInt64.toNat (hs.first.symm.trans hd.first)
  have hmax := congrArg UInt64.toNat (hs.last.symm.trans hd.last)
  rw [toNat_min, toNat_min, hs.anchor] at hmin
  rw [toNat_max, toNat_max, hs.anchor] at hmax
  apply UInt64.toNat_inj.mp
  omega

/-- A drag that comes to the row last seen once more stays as it is, and so does the table. -/
theorem extend_lastSeen (h : t.Indexed) (hd : d.Drawn t) (hs : d.Spans t c row) :
    d.extend t d.lastSeen = (d, t) := by
  have hrow := hd.covers.lastSeen
  -- the ends of a drag and their lines depend on its press and the row last seen alone
  have hdrag : (d.extend t d.lastSeen).1 = d := by
    obtain rfl := hs.eq_lastSeen hd.within
    obtain ⟨a, b, ha, hb, hfirst, hlast⟩ := hs.lines
    obtain ⟨a', b', ha', hb', he⟩ := extend_of_hasRow hd.covers.anchor hrow
    rw [hs.anchor] at ha'
    obtain rfl : a = a' := Option.some.inj (ha.symm.trans ha')
    obtain rfl : b = b' := Option.some.inj (hb.symm.trans hb')
    rw [he, ← hd.within.first, ← hd.within.last, ← hfirst, ← hlast]
  have htable : (d.extend t d.lastSeen).2 = t := by
    have hone := t.reflagged_flagBetween d.anchor d.lastSeen false
    apply (d.reflagged_extend t d.lastSeen).ext_row? h (.refl t)
    intro i
    rw [extend_eq_flagBetween h hd.covers hrow, Table.row?_flagBetween (hone.indexed h),
      Table.row?_flagBetween h]
    cases hi : t.row? i with
    | none => rfl
    | some r =>
      by_cases hb : Between d.anchor d.lastSeen i
      · have hflag := Table.selected_of_mem (hd.covers i hb) hi
        cases r
        simp_all
      · simp [hb]
  exact Prod.ext hdrag htable

/-- A drag leaves itself and the table as they were if it comes to the row last seen or to no row of
the table, and only then. -/
theorem extend_eq_iff (h : t.Indexed) (hd : d.Drawn t) (hs : d.Spans t c row) (row' : UInt64) :
    (d.extend t row').1 = d ∧ (d.extend t row').2 = t ↔
      ¬ (t.hasRow row'.toNat = true ∧ row' ≠ d.lastSeen) := by
  constructor
  · rintro ⟨hdrag, -⟩ ⟨hr, hne⟩
    obtain ⟨a, b, -, -, he⟩ := extend_of_hasRow hd.covers.anchor hr
    rw [he] at hdrag
    exact hne (congrArg lastSeen hdrag)
  · intro hnot
    by_cases hr : t.hasRow row'.toNat = true
    · have hrow : row' = d.lastSeen := by
        by_contra hne
        exact hnot ⟨hr, hne⟩
      rw [hrow, extend_lastSeen h hd hs]
      exact ⟨rfl, rfl⟩
    · rw [extend_of_not_hasRow (by simpa using hr)]
      exact ⟨rfl, rfl⟩

end Drag

namespace Session

variable {s : Session} {c : Cell}

/-- The drag is as it was, if there was one, and during it so are the flags of all rows. -/
structure KeepsDrag (s s' : Session) : Prop where
  drag : s'.selector.drag = s.selector.drag
  table : s.selector.isDragging = true → s'.table = s.table

/-- A drag comes to the mark in the line-number column of a row other than the one last seen. -/
def ReachesMark (s : Session) (c : Cell) : Prop :=
  c.kind = .ghostFlag ∧ s.table.hasRow c.row.toNat = true ∧
    ∃ d, s.selector.drag = some d ∧ c.row ≠ d.lastSeen

/-- What the pointer does to a session on a cell, where it begins nothing. A press does nothing at
all. The pointer that comes onto the cell leaves a drag as it is unless it comes to a mark on
another row, which counts as the line number there. -/
structure StandsAside (s : Session) (c : Cell) : Prop where
  press : s.handle (.pointerDown c) = (s, [])
  starts : (s.handle (.pointerEnter c)).1.selector.isDragging = s.selector.isDragging
  marks : ∀ mark, (s.handle (.pointerEnter c)).1.selector.ghost = some mark →
    s.selector.ghost = some mark
  keeps : s.KeepsDrag (s.handle (.pointerEnter c)).1 ↔ ¬ s.ReachesMark c
  reaches : s.ReachesMark c →
    s.handle (.pointerEnter c) = s.handle (.pointerEnter { c with kind := .lineNumber })

theorem standsAside_idle (hc : c.OffNumbers) (hd : s.selector.drag = none) : s.StandsAside c := by
  have hnot : ¬ s.ReachesMark c := by
    rintro ⟨-, -, d, hd', -⟩
    simp [hd] at hd'
  have hdrag : (s.handle (.pointerEnter c)).1.selector.drag = none :=
    Selector.drag_enter_idle hd s.table c
  have hidle : s.selector.isDragging = false := by simp [Selector.isDragging, hd]
  refine ⟨hc.press s, ?_, ?_, ?_, fun hr => absurd hr hnot⟩
  · rw [hidle, Selector.isDragging, hdrag]
    rfl
  · intro mark hm
    rcases hc with hk | hk
    · simp [handle, pointTo, Selector.enter, hd, hk, Selector.leaveHover_fst] at hm
    · simpa [handle, pointTo, Selector.enter, hd, hk] using hm
  · refine iff_of_true ⟨hdrag.trans hd.symm, fun h => ?_⟩ hnot
    simp [hidle] at h

/-- The contents of a row have no part in a drag. -/
theorem standsAside_contents (hc : c.kind = .contents) {d : Drag}
    (hd : s.selector.drag = some d) : s.StandsAside c := by
  have hoff : ¬ c.inNumberColumn = true := by simp [Cell.inNumberColumn, hc]
  have he : s.handle (.pointerEnter c) = (s, []) := by
    rw [handle, Selector.enter_of_offColumn hd s.table hoff]
    rfl
  have hnot : ¬ s.ReachesMark c := by
    rintro ⟨hk, -⟩
    simp [hc] at hk
  refine ⟨Cell.OffNumbers.press (.inl hc) s, by rw [he], fun mark hm => ?_, ?_,
    fun hr => absurd hr hnot⟩
  · rwa [he] at hm
  · rw [he]
    exact iff_of_true ⟨rfl, fun _ => rfl⟩ hnot

/-- A drag that comes to the mark does what it does at the line number beside it, which is nothing
where that row was seen last. -/
theorem standsAside_mark (hc : c.kind = .ghostFlag) (hi : s.table.Indexed) {d : Drag}
    (hd : s.selector.drag = some d) (hx : d.Drawn s.table) {p : Cell} {row : UInt64}
    (hs : d.Spans s.table p row) : s.StandsAside c := by
  have hselecting : s.selector.isDragging = true := by simp [Selector.isDragging, hd]
  have hin : c.inNumberColumn = true := by simp [Cell.inNumberColumn, hc]
  have he : s.handle (.pointerEnter c) =
      (s.pointTo ({ s.selector with drag := some (d.extend s.table c.row).1 },
        (d.extend s.table c.row).2), []) := by
    rw [handle, Selector.enter_of_inColumn hd s.table hin]
  have hkeeps : s.KeepsDrag (s.handle (.pointerEnter c)).1 ↔
      (d.extend s.table c.row).1 = d ∧ (d.extend s.table c.row).2 = s.table := by
    rw [he]
    constructor
    · rintro ⟨hdrag, htable⟩
      exact ⟨Option.some.inj (hdrag.trans hd), htable hselecting⟩
    · rintro ⟨hdrag, htable⟩
      exact ⟨(congrArg some hdrag).trans hd.symm, fun _ => htable⟩
  have hreaches : s.ReachesMark c ↔
      s.table.hasRow c.row.toNat = true ∧ c.row ≠ d.lastSeen := by
    constructor
    · rintro ⟨-, hr, d', hd', hne⟩
      obtain rfl := Option.some.inj (hd.symm.trans hd')
      exact ⟨hr, hne⟩
    · rintro ⟨hr, hne⟩
      exact ⟨hc, hr, d, hd, hne⟩
  refine ⟨Cell.OffNumbers.press (.inr hc) s, ?_, fun mark hm => ?_, ?_, fun _ => ?_⟩
  · rw [he, hselecting]
    rfl
  · rwa [he] at hm
  · rw [hkeeps, hreaches, Drag.extend_eq_iff hi hx hs]
  · rw [he, handle, Selector.enter_of_inColumn hd s.table rfl]

/-- Whatever happens in a session that began without a drag: neither the contents of a row nor the
mark under the pointer begins a drag or brings a mark up, and the one thing that moves a drag there
is the mark in the line-number column of a row of the table other than the one last seen. -/
theorem standsAside_run (hs : s.selector.drag = none) (hi : s.table.Indexed)
    (ops : List Operation) (hc : c.OffNumbers) : (s.run ops).StandsAside c := by
  have hdrawn := drawn_run hs hi ops
  have hfollows := follows_run hs ops
  have hindexed := indexed_run hi ops
  cases hp : s.held? ops with
  | none =>
    rw [hp] at hfollows
    exact standsAside_idle hc hfollows
  | some p =>
    rw [hp] at hfollows
    obtain ⟨d, hd, hspans⟩ := hfollows
    rcases hc with hk | hk
    · exact standsAside_contents hk hd
    · exact standsAside_mark hk hindexed hd (hdrawn d hd) hspans

/-- A drag back up to the row of its press and beyond it, with the mark under the pointer, and then
onto the contents of a row that was left. -/
theorem standsAside_above_press :
    let s := Session.new (.new 0 0 0) (.ofGroups [.equalRun 0 1 5])
    let ops : List Operation :=
      [.act (.pointerEnter ⟨2, .right, .lineNumber⟩), .act (.pointerDown ⟨2, .right, .lineNumber⟩),
        .act (.pointerEnter ⟨4, .right, .lineNumber⟩)]
    let mark : Cell := ⟨0, .left, .ghostFlag⟩
    let contents : Cell := ⟨3, .left, .contents⟩
    s.selector.drag = none ∧ s.table.Indexed ∧ mark.OffNumbers ∧ contents.OffNumbers ∧
      (s.run ops).ReachesMark mark ∧ (s.run ops).StandsAside mark ∧
      (s.run ops).StandsAside contents := by
  intro s ops mark contents
  have hi : s.table.Indexed := rfl
  refine ⟨rfl, hi, .inr rfl, .inl rfl, ⟨rfl, by decide, ⟨2, 2, 4, 3, 5, 4, .right⟩, by decide⟩,
    standsAside_run rfl hi ops (.inr rfl), standsAside_run rfl hi ops (.inl rfl)⟩

/-- During a drag from the first row, the pointer comes to the mark two rows below: all three rows
are selected. -/
theorem not_keepsDrag_mark :
    let s := (Session.new (.new 0 0 0) (.ofGroups [.equalRun 0 1 3])).run
      [.act (.pointerDown ⟨0, .right, .lineNumber⟩)]
    let c : Cell := ⟨2, .right, .ghostFlag⟩
    c.OffNumbers ∧ ¬ s.KeepsDrag (s.handle (.pointerEnter c)).1 ∧
      s.table.selectedRows = [0] ∧
      (s.handle (.pointerEnter c)).1.selector.drag = some ⟨0, 0, 2, 1, 3, 2, .right⟩ ∧
      (s.handle (.pointerEnter c)).1.table.selectedRows = [0, 1, 2] := by
  refine ⟨.inr rfl, fun h => ?_, by decide, by decide, by decide⟩
  exact absurd h.drag (by decide)

end Session

end Marginalia.Diff
