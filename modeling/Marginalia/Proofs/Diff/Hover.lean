import Marginalia.Proofs.Diff.Fields

/-! What a selector remembers between two events. Outside of drags it is the row under the pointer
alone, which is the one row selected, and the mark for a new comment is shown nowhere else; no field
of a drag that is over is left. During a drag neither the row nor the mark is there. All rows that a
selector remembers are rows of its table. -/

namespace Marginalia.Diff

namespace Table

variable {t : Table}

theorem nodup_selectedRows (t : Table) : t.selectedRows.Nodup := List.nodup_range.filter _

/-- Where one row at most is selected, the list of selected rows is told by what it holds. -/
theorem selectedRows_eq_toList {o : Option Nat} (h : ∀ i, i ∈ t.selectedRows ↔ o = some i) :
    t.selectedRows = o.toList := by
  cases o with
  | none =>
    apply List.eq_nil_iff_forall_not_mem.mpr
    intro i hi
    simpa using (h i).mp hi
  | some a =>
    apply List.perm_singleton.mp
    rw [List.perm_ext_iff_of_nodup t.nodup_selectedRows (by simp)]
    intro i
    rw [h i, List.mem_singleton, Option.some.injEq, eq_comm]

end Table

/-- The rows of a drag. -/
def Drag.remembered (d : Drag) : List UInt64 := [d.anchor, d.first, d.last, d.lastSeen]

theorem Drag.Within.hasRow {d : Drag} {t : Table} (h : d.Within t) :
    ∀ row ∈ d.remembered, t.hasRow row.toNat = true := by
  have hfirst : d.first = d.anchor ∨ d.first = d.lastSeen := by
    rw [h.first]
    exact ite_eq_or_eq _ _ _
  have hlast : d.last = d.anchor ∨ d.last = d.lastSeen := by
    rw [h.last]
    exact (ite_eq_or_eq _ _ _).symm
  intro row hrow
  simp only [remembered, List.mem_cons, List.not_mem_nil, or_false] at hrow
  rcases hrow with rfl | rfl | rfl | rfl
  · exact h.anchor
  · rcases hfirst with he | he
    · rw [he]
      exact h.anchor
    · rw [he]
      exact h.lastSeen
  · rcases hlast with he | he
    · rw [he]
      exact h.anchor
    · rw [he]
      exact h.lastSeen
  · exact h.lastSeen

namespace Selector

variable {s s' : Selector} {t t' : Table} {c : Cell}

/-- A row that is remembered is one of a drag, the one under the pointer or the one of the mark. -/
theorem mem_remembered_fields {row : UInt64} (h : row ∈ s.fields.remembered) :
    (∃ d, s.drag = some d ∧ row ∈ d.remembered) ∨ s.hover = some row ∨
      ∃ side, s.ghost = some (row, side) := by
  rw [Fields.remembered, hover_fields, ghost_fields, List.mem_append, List.mem_append] at h
  rcases h with (hrow | hrow) | hrow
  · left
    cases hd : s.drag with
    | none => simp [fields_of_idle hd, Fields.idle, Fields.isDragging] at hrow
    | some d => exact ⟨d, rfl, by simpa [fields, hd, Fields.isDragging, Drag.remembered] using hrow⟩
  · exact Or.inr (Or.inl (by simpa using hrow))
  · exact Or.inr (Or.inr (by simpa using hrow))

/-- The row under the pointer is one of the table, and the mark for a new comment is at that row. -/
structure Pointed (s : Selector) (t : Table) : Prop where
  hover : ∀ row, s.hover = some row → t.hasRow row.toNat = true
  ghost : ∀ row side, s.ghost = some (row, side) → s.hover = some row

theorem Pointed.none (hh : s.hover = none) (hg : s.ghost = none) : s.Pointed t :=
  ⟨fun row hrow => by simp [hh] at hrow, fun row side hrow => by simp [hg] at hrow⟩

/-- What is under the pointer stays while nothing but flags of rows changes. -/
theorem Pointed.reflagged (h : s.Pointed t) (hi : t.Indexed) (hr : t.Reflagged t')
    (hh : s'.hover = s.hover) (hg : s'.ghost = s.ghost) : s'.Pointed t' := by
  refine ⟨fun row hrow => ?_, fun row side hrow => ?_⟩
  · rw [hh] at hrow
    exact (hr.hasRow hi _).trans (h.hover row hrow)
  · rw [hg] at hrow
    rw [hh]
    exact h.ghost row side hrow

theorem pointed_leaveHover (s : Selector) (t : Table) :
    ({ s with ghost := Option.none }.leaveHover t).1.Pointed
      ({ s with ghost := Option.none }.leaveHover t).2 := by
  apply Pointed.none
  · rw [leaveHover_fst]
  · rw [leaveHover_fst]

/-- A mark that is shown once the pointer came onto a cell was there before, or is under it. -/
theorem ghost_enter (hd : s.drag = Option.none) {row : UInt64} {side : Side}
    (hg : (s.enter t c).1.ghost = some (row, side)) :
    (s.enter t c).1 = s ∨ (s.enter t c).1.hover = some row := by
  unfold enter at hg ⊢
  simp only [hd] at hg ⊢
  cases hk : c.kind with
  | contents => simp [hk, leaveHover_fst] at hg
  | ghostFlag => exact Or.inl rfl
  | lineNumber | commentFlag =>
    cases hr : t.row? c.row.toNat with
    | none => exact Or.inl rfl
    | some r =>
      right
      simp only [hk, hr, Option.some.injEq] at hg ⊢
      split at hg
      · simp at hg
      · simpa using congrArg (Option.map Prod.fst) hg

theorem Pointed.enter (h : s.Pointed t) (hi : t.Indexed) (c : Cell) :
    (s.enter t c).1.Pointed (s.enter t c).2 := by
  have hre := s.reflagged_enter t c
  cases hd : s.drag with
  | some d =>
    obtain he | he := enter_dragging hd t c <;> rw [he] at hre ⊢ <;>
      exact h.reflagged hi hre rfl rfl
  | none =>
    refine ⟨fun row hrow => ?_, fun row side hrow => ?_⟩
    · rw [hre.hasRow hi]
      obtain he | he | ⟨hr, ghost, he⟩ := enter_idle (t := t) (c := c) hd
      · rw [he] at hrow
        exact h.hover row hrow
      · simp [he, leaveHover_fst] at hrow
      · rw [he] at hrow
        obtain rfl := Option.some.inj hrow
        exact hr
    · obtain he | hhover := ghost_enter hd hrow
      · rw [he] at hrow ⊢
        exact h.ghost row side hrow
      · exact hhover

theorem Pointed.leave (h : s.Pointed t) (onto : Option Cell) :
    (s.leave t onto).1.Pointed (s.leave t onto).2 := by
  obtain he | ⟨-, he⟩ := s.leave_cases t onto
  · rwa [he]
  · rw [he]
    exact pointed_leaveHover s t

theorem Pointed.press (h : s.Pointed t) (c : Cell) :
    (s.press t c).1.Pointed (s.press t c).2 := by
  by_cases hc : Takes t c
  · obtain ⟨line, -, he⟩ := s.press_of_takes hc
    rw [he]
    exact .none rfl rfl
  · rwa [press_of_not_takes s hc]

end Selector

namespace Session

variable {s : Session}

theorem pointed_perform (hi : s.table.Indexed) (h : s.selector.Pointed s.table)
    (op : Operation) : (s.perform op).selector.Pointed (s.perform op).table := by
  cases op with
  | act a =>
    cases a with
    | pointerEnter c => exact h.enter hi c
    | pointerLeave c onto => exact h.leave onto
    | pointerDown c => exact h.press c
    | pointerUp c => exact .none rfl rfl
    | expand chunk reveal =>
      rw [perform, handle, (s.handle_send _).1, (s.handle_send _).2]
      exact h
    | collapse chunk =>
      rw [perform, handle, (s.handle_send _).1, (s.handle_send _).2]
      exact h
  | comment row side value =>
    exact h.reflagged hi (s.table.reflagged_setComment row side value) rfl rfl
  | answer r result =>
    obtain he | ⟨f, A, g, C, -, -, -, he⟩ := s.perform_answer_cases r result
    · rwa [he]
    · rw [he]
      exact .none rfl rfl

theorem pointed_run (hs : s.selector = .idle) (hi : s.table.Indexed) (ops : List Operation) :
    (s.run ops).selector.Pointed (s.run ops).table := by
  apply run_keeps_of_indexed (I := fun s => s.selector.Pointed s.table)
    (fun s op hi h => pointed_perform hi h op) hi
  rw [hs]
  exact .none rfl rfl

/-- What is selected, shown and remembered between two events, where `f` is what is kept of the
selection field by field. -/
structure Tidy (s : Session) (f : Fields) : Prop where
  kept : s.selector.fields = f
  noRows : f.isDragging = false → f.first = none ∧ f.last = none ∧ f.lastSeen = 0
  noLines : f.isDragging = false → f.firstLine = 0 ∧ f.lastLine = 0
  hovered : f.isDragging = false →
    s.table.selectedRows = (f.hover.map UInt64.toNat).toList
  marked : f.isDragging = false → ∀ row side, f.ghost = some (row, side) → f.hover = some row
  dragging : f.isDragging = true → f.hover = none ∧ f.ghost = none
  remembered : ∀ row ∈ f.remembered, s.table.hasRow row.toNat = true

theorem tidy_of_over {pressed : Option UInt64} (h : s.selector.Over s.table pressed)
    (hp : s.selector.Pointed s.table) : s.Tidy s.selector.fields := by
  have hidle : s.selector.fields.isDragging = false → s.selector.drag = none := by
    intro hd
    simpa [Selector.isDragging] using hd
  refine ⟨rfl, fun hd => ?_, fun hd => ?_, fun hd => ?_, fun _ => ?_, fun hd => ?_,
    fun row hrow => ?_⟩
  · rw [Selector.fields_of_idle (hidle hd)]
    exact ⟨rfl, rfl, rfl⟩
  · rw [Selector.fields_of_idle (hidle hd)]
    exact ⟨rfl, rfl⟩
  · rw [Selector.hover_fields]
    exact Table.selectedRows_eq_toList (h.idle (hidle hd))
  · rw [Selector.hover_fields, Selector.ghost_fields]
    exact hp.ghost
  · rw [Selector.hover_fields, Selector.ghost_fields]
    rw [Selector.isDragging_fields] at hd
    obtain ⟨d, hd⟩ := Option.isSome_iff_exists.mp hd
    have hhover := (h.dragging d hd).1
    refine ⟨hhover, ?_⟩
    -- a mark would be at the row under the pointer
    cases hg : s.selector.ghost with
    | none => rfl
    | some mark => simp [hp.ghost mark.1 mark.2 hg] at hhover
  · rcases Selector.mem_remembered_fields hrow with ⟨d, hd, hrow⟩ | hrow | ⟨side, hg⟩
    · exact (h.dragging d hd).2.2.hasRow row hrow
    · exact hp.hover row hrow
    · exact hp.hover row (hp.ghost row side hg)

/-- From a table with nothing selected, whatever happens, with a field for each part that is kept of
the selection: outside of drags nothing of an earlier drag is left and the row under the pointer alone
is selected, during a drag nothing is shown under the pointer, and all rows that are remembered are
rows of the table as it is now. -/
theorem tidy_run (hs : s.selector = .idle) (hi : s.table.Indexed)
    (hn : s.table.selectedRows = []) (ops : List Operation) :
    (s.run ops).Tidy (Fields.run (.idle, s.table) ops).1 := by
  have hfields : Fields.run (.idle, s.table) ops =
      ((s.run ops).selector.fields, (s.run ops).table) := by
    rw [← s.fields_run, hs]
    rfl
  rw [hfields]
  exact tidy_of_over (s.over_run hs hi hn ops) (pointed_run hs hi ops)

/-- An answer takes rows away during a drag that has left a row under the pointer, and the pointer
comes onto a row that carries a comment and then onto one that does not. -/
theorem tidy_run_fewer_rows :
    let s := Session.new (.new 0 0 0) (.ofGroups [.equalRun 0 1 3, .shown 4 [.bare 4, .bare 5]])
    let ops : List Operation :=
      [.act (.pointerEnter ⟨4, .left, .lineNumber⟩), .act (.pointerDown ⟨3, .left, .commentFlag⟩),
        .act (.pointerEnter ⟨1, .right, .lineNumber⟩),
        .answer ⟨1, 4, .hidden⟩ (.ok ⟨[.placeholder 4 2 [.whole]]⟩), .comment 0 .left true,
        .act (.pointerEnter ⟨4, .left, .lineNumber⟩), .act (.pointerEnter ⟨0, .left, .lineNumber⟩),
        .act (.pointerEnter ⟨2, .left, .lineNumber⟩)]
    let f : Fields := ⟨none, none, 0, 0, 0, none, .right, some 2, some (2, .left)⟩
    s.selector = .idle ∧ s.table.Indexed ∧ s.table.selectedRows = [] ∧
      (Fields.run (.idle, s.table) ops).1 = f ∧ (s.run ops).Tidy f := by
  intro s ops f
  have hn : s.table.selectedRows = [] := by decide
  have hf : (Fields.run (.idle, s.table) ops).1 = f := by decide
  refine ⟨rfl, rfl, hn, hf, ?_⟩
  rw [← hf]
  exact tidy_run rfl (Table.indexed_ofGroups _) hn ops

end Session

end Marginalia.Diff
