import Mathlib.Data.List.Basic
import Marginalia.Proofs.Diff.Run

/-! Drags. A drag keeps the row it was pressed at and the row it reached last, and selects the rows
between them from move to move. The selection is exact in all states of a run unless a press comes
during a drag that has selected other rows: those rows stay selected. -/

namespace Marginalia.Diff

theorem toNat_min (a b : UInt64) : (min a b).toNat = min a.toNat b.toNat := by
  have h : min a b = if a ≤ b then a else b := rfl
  rw [h]
  split <;> rename_i hab <;> rw [UInt64.le_iff_toNat_le] at hab <;> omega

theorem toNat_max (a b : UInt64) : (max a b).toNat = max a.toNat b.toNat := by
  have h : max a b = if a ≤ b then b else a := rfl
  rw [h]
  split <;> rename_i hab <;> rw [UInt64.le_iff_toNat_le] at hab <;> omega

theorem Table.hasRow_of_le {t : Table} {i j : Nat} (h : t.Indexed) (hj : t.hasRow j = true)
    (hij : i ≤ j) : t.hasRow i = true := by
  rw [hasRow_iff h] at hj ⊢
  omega

/-- A drag whose rows the table has. -/
structure Drag.Within (d : Drag) (t : Table) : Prop where
  anchor : t.hasRow d.anchor.toNat = true
  lastSeen : t.hasRow d.lastSeen.toNat = true
  first : d.first = min d.anchor d.lastSeen
  last : d.last = max d.anchor d.lastSeen

/-- The selected rows are those from the first to the last row of the drag. -/
def Drag.Exact (d : Drag) (t : Table) : Prop :=
  ∀ i, i ∈ t.selectedRows ↔ d.first.toNat ≤ i ∧ i ≤ d.last.toNat

namespace Drag

variable {d : Drag} {t : Table} {row : UInt64}

theorem extend_of_hasRow (ha : t.hasRow d.anchor.toNat = true) (hr : t.hasRow row.toNat = true) :
    ∃ anchorLine line, t.line? d.anchor.toNat = some anchorLine ∧ t.line? row.toNat = some line ∧
      d.extend t row =
        ({ d with
            first := min d.anchor row, last := max d.anchor row,
            firstLine := min anchorLine line, lastLine := max anchorLine line, lastSeen := row },
          t.selectBetween (min d.lastSeen row).toNat (max d.lastSeen row).toNat fun i =>
            (min d.anchor row).toNat ≤ i && i ≤ (max d.anchor row).toNat) := by
  rw [← Table.line?_isSome] at ha hr
  obtain ⟨anchorLine, ha⟩ := Option.isSome_iff_exists.mp ha
  obtain ⟨line, hr⟩ := Option.isSome_iff_exists.mp hr
  exact ⟨anchorLine, line, ha, hr, by simp only [extend, ha, hr]⟩

theorem extend_of_not_hasRow (hr : t.hasRow row.toNat = false) : d.extend t row = (d, t) := by
  rw [← Table.line?_isSome] at hr
  have hn : t.line? row.toNat = none := by simpa using hr
  simp [extend, hn]

/-- A move changes the selection between the row last reached and the new one alone. -/
theorem mem_selectedRows_extend (h : t.Indexed) (ha : t.hasRow d.anchor.toNat = true)
    (hl : t.hasRow d.lastSeen.toNat = true) (hr : t.hasRow row.toNat = true) (i : Nat) :
    i ∈ (d.extend t row).2.selectedRows ↔
      if min d.lastSeen.toNat row.toNat ≤ i ∧ i ≤ max d.lastSeen.toNat row.toNat then
        min d.anchor.toNat row.toNat ≤ i ∧ i ≤ max d.anchor.toNat row.toNat
      else i ∈ t.selectedRows := by
  obtain ⟨anchorLine, line, -, -, he⟩ := extend_of_hasRow ha hr
  rw [he, Table.mem_selectedRows_selectBetween h, toNat_min, toNat_max, toNat_min, toNat_max]
  split
  · rename_i hi
    have hrow : t.hasRow i = true := by
      rcases Nat.le_total d.lastSeen.toNat row.toNat with hlr | hlr
      · exact Table.hasRow_of_le h hr (by omega)
      · exact Table.hasRow_of_le h hl (by omega)
    simp [hrow]
  · rfl

theorem Within.extend (hd : d.Within t) (h : t.Indexed) (row : UInt64) :
    (d.extend t row).1.Within (d.extend t row).2 := by
  cases hr : t.hasRow row.toNat with
  | false =>
    rw [extend_of_not_hasRow hr]
    exact hd
  | true =>
    obtain ⟨anchorLine, line, -, -, he⟩ := extend_of_hasRow hd.anchor hr
    rw [he]
    exact ⟨(Table.hasRow_selectBetween h _ _ _ _).trans hd.anchor,
      (Table.hasRow_selectBetween h _ _ _ _).trans hr, rfl, rfl⟩

/-- However the pointer moves along, back or across the row of the press, the selection follows. -/
theorem Exact.extend (hx : d.Exact t) (hd : d.Within t) (h : t.Indexed) (row : UInt64) :
    (d.extend t row).1.Exact (d.extend t row).2 := by
  cases hr : t.hasRow row.toNat with
  | false =>
    rw [extend_of_not_hasRow hr]
    exact hx
  | true =>
    intro i
    rw [mem_selectedRows_extend h hd.anchor hd.lastSeen hr, hx i, hd.first, hd.last]
    obtain ⟨anchorLine, line, -, -, he⟩ := extend_of_hasRow hd.anchor hr
    rw [he]
    simp only [toNat_min, toNat_max]
    split <;> omega

theorem exact_start {line : UInt32} {side : Side} :
    (start row line side).Exact t ↔ ∀ i, i ∈ t.selectedRows ↔ i = row.toNat := by
  apply forall_congr'
  intro i
  have heq : row.toNat ≤ i ∧ i ≤ row.toNat ↔ i = row.toNat := by omega
  rw [start, heq]

theorem anchor_extend (d : Drag) (t : Table) (row : UInt64) :
    (d.extend t row).1.anchor = d.anchor := by
  unfold Drag.extend
  split <;> rfl

end Drag

/-- A selector over a table that it keeps marked: outside of drags the row under the pointer is the
one selected row, and a drag is from the row pressed last, over rows that the table has. -/
structure Selector.Over (s : Selector) (t : Table) (pressed : Option UInt64) : Prop where
  indexed : t.Indexed
  idle : s.drag = none → ∀ i, i ∈ t.selectedRows ↔ s.hover.map UInt64.toNat = some i
  dragging : ∀ d, s.drag = some d → s.hover = none ∧ pressed = some d.anchor ∧ d.Within t

namespace Selector

variable {s : Selector} {t : Table} {c : Cell} {pressed : Option UInt64}

theorem leaveHover_fst (s : Selector) (t : Table) :
    (s.leaveHover t).1 = { s with hover := none } := by
  unfold leaveHover
  split
  · rfl
  · rename_i hn
    rw [← hn]

theorem mem_selectedRows_leaveHover (s : Selector) (h : t.Indexed) (i : Nat) :
    i ∈ (s.leaveHover t).2.selectedRows ↔
      i ∈ t.selectedRows ∧ s.hover.map UInt64.toNat ≠ some i := by
  unfold leaveHover
  cases s.hover with
  | none => simp
  | some row =>
    simp only [Table.mem_selectedRows_setSelected h, Option.map_some, ne_eq, Option.some.injEq]
    by_cases hi : i = row.toNat
    · simp [hi]
    · simp [hi, Ne.symm hi]

/-- The cells over which a press begins a drag. -/
def Takes (t : Table) (c : Cell) : Prop :=
  (c.kind = .lineNumber ∨ c.kind = .commentFlag) ∧ t.hasRow c.row.toNat = true

instance (t : Table) (c : Cell) : Decidable (Takes t c) := by
  unfold Takes
  infer_instance

theorem press_of_takes (s : Selector) (h : Takes t c) :
    ∃ line, t.line? c.row.toNat = some line ∧
      s.press t c =
        (⟨some (.start c.row line c.side), none, none⟩,
          (s.leaveHover t).2.setSelected c.row.toNat true) := by
  obtain ⟨hk, hr⟩ := h
  rw [← Table.line?_isSome] at hr
  obtain ⟨line, hr⟩ := Option.isSome_iff_exists.mp hr
  refine ⟨line, hr, ?_⟩
  rcases hk with hk | hk <;> simp [press, hk, hr, leaveHover_fst]

theorem press_of_not_takes (s : Selector) (h : ¬ Takes t c) : s.press t c = (s, t) := by
  unfold press
  cases hk : c.kind with
  | contents => rfl
  | ghostFlag => rfl
  | lineNumber | commentFlag =>
    have hn : t.line? c.row.toNat = none := by
      simpa [Takes, hk, ← Table.line?_isSome] using h
    simp [hn]

/-- What the pointer can do outside of drags when it comes onto a cell. -/
theorem enter_idle (hd : s.drag = none) :
    s.enter t c = (s, t) ∨ s.enter t c = { s with ghost := none }.leaveHover t ∨
      t.hasRow c.row.toNat = true ∧ ∃ ghost,
        s.enter t c =
          (⟨none, some c.row, ghost⟩, (s.leaveHover t).2.setSelected c.row.toNat true) := by
  unfold enter
  simp only [hd]
  cases hk : c.kind with
  | contents => exact Or.inr (Or.inl rfl)
  | ghostFlag => exact Or.inl rfl
  | lineNumber | commentFlag =>
    cases hr : t.row? c.row.toNat with
    | none => exact Or.inl rfl
    | some row =>
      refine Or.inr (Or.inr ⟨by simp [Table.hasRow, hr],
        if row.hasComment c.side then none else some (c.row, c.side), ?_⟩)
      simp only [leaveHover_fst, hd]

/-- A drag is moved by all cells in the line-number columns, and by these alone. -/
theorem enter_of_inColumn {d : Drag} (hd : s.drag = some d) (t : Table)
    (hc : c.inNumberColumn = true) :
    s.enter t c = ({ s with drag := some (d.extend t c.row).1 }, (d.extend t c.row).2) := by
  simp only [enter, hd, hc, if_true]

theorem enter_of_offColumn {d : Drag} (hd : s.drag = some d) (t : Table)
    (hc : ¬ c.inNumberColumn = true) : s.enter t c = (s, t) := by
  simp only [enter, hd, if_neg hc]

theorem enter_dragging {d : Drag} (hd : s.drag = some d) (t : Table) (c : Cell) :
    s.enter t c = (s, t) ∨
      s.enter t c = ({ s with drag := some (d.extend t c.row).1 }, (d.extend t c.row).2) := by
  by_cases hc : c.inNumberColumn = true
  · exact Or.inr (enter_of_inColumn hd t hc)
  · exact Or.inl (enter_of_offColumn hd t hc)

theorem leave_cases (s : Selector) (t : Table) (onto : Option Cell) :
    s.leave t onto = (s, t) ∨
      s.drag = none ∧ s.leave t onto = { s with ghost := none }.leaveHover t := by
  unfold leave
  split
  · exact Or.inl rfl
  · rename_i h
    refine Or.inr ⟨?_, rfl⟩
    simp only [isDragging, Bool.or_eq_true, not_or] at h
    simpa using h.1

theorem drag_leaveHover (s : Selector) (t : Table) : (s.leaveHover t).1.drag = s.drag := by
  rw [leaveHover_fst]

theorem drag_enter_idle (hd : s.drag = none) (t : Table) (c : Cell) :
    (s.enter t c).1.drag = none := by
  obtain he | he | ⟨-, ghost, he⟩ := enter_idle (t := t) (c := c) hd
  · rw [he, hd]
  · rw [he, drag_leaveHover, hd]
  · rw [he]

theorem drag_leave (s : Selector) (t : Table) (onto : Option Cell) :
    (s.leave t onto).1.drag = s.drag := by
  obtain he | ⟨-, he⟩ := s.leave_cases t onto
  · rw [he]
  · rw [he, drag_leaveHover]

namespace Over

theorem leaveHover (h : s.Over t pressed) (hd : s.drag = none) (ghost : Option (UInt64 × Side)) :
    ({ s with ghost := ghost }.leaveHover t).1.Over ({ s with ghost := ghost }.leaveHover t).2
      pressed := by
  have hi : ({ s with ghost := ghost }.leaveHover t).2.Indexed :=
    (reflagged_leaveHover _ t).indexed h.indexed
  refine ⟨hi, fun _ i => ?_, fun d hd' => ?_⟩
  · rw [mem_selectedRows_leaveHover _ h.indexed, h.idle hd i, leaveHover_fst]
    simp
  · rw [leaveHover_fst] at hd'
    simp [hd] at hd'

/-- Where no drag is, the row under the pointer gives way and another one is selected alone. -/
theorem mem_selectedRows_move (h : s.Over t pressed) (hd : s.drag = none) {row : UInt64}
    (hr : t.hasRow row.toNat = true) (i : Nat) :
    i ∈ ((s.leaveHover t).2.setSelected row.toNat true).selectedRows ↔ i = row.toNat := by
  have hre := s.reflagged_leaveHover t
  rw [Table.mem_selectedRows_setSelected (hre.indexed h.indexed), hre.hasRow h.indexed, hr,
    mem_selectedRows_leaveHover _ h.indexed, h.idle hd]
  split <;> simp_all

theorem enter (h : s.Over t pressed) (c : Cell) :
    (s.enter t c).1.Over (s.enter t c).2 pressed := by
  cases hd : s.drag with
  | none =>
    obtain he | he | ⟨hr, ghost, he⟩ := enter_idle (t := t) (c := c) hd
    · rwa [he]
    · rw [he]
      exact h.leaveHover hd none
    · have hre := (s.reflagged_leaveHover t).trans
        (Table.reflagged_setSelected _ c.row.toNat true)
      rw [he]
      refine ⟨hre.indexed h.indexed, fun _ i => ?_, fun d hd' => by simp at hd'⟩
      rw [h.mem_selectedRows_move hd hr]
      simp [eq_comm]
  | some d =>
    obtain he | he := enter_dragging hd t c
    · rwa [he]
    · obtain ⟨hh, hp, hw⟩ := h.dragging d hd
      rw [he]
      refine ⟨(d.reflagged_extend t c.row).indexed h.indexed, fun hd' => by simp at hd', ?_⟩
      rintro d' hd'
      obtain rfl := Option.some.inj hd'
      exact ⟨hh, by rw [d.anchor_extend, hp], hw.extend h.indexed c.row⟩

theorem leave (h : s.Over t pressed) (onto : Option Cell) :
    (s.leave t onto).1.Over (s.leave t onto).2 pressed := by
  obtain he | ⟨hd, he⟩ := s.leave_cases t onto
  · rwa [he]
  · rw [he]
    exact h.leaveHover hd none

theorem press (h : s.Over t pressed) (hc : Takes t c) :
    (s.press t c).1.Over (s.press t c).2 (some c.row) := by
  obtain ⟨line, -, he⟩ := s.press_of_takes hc
  have hre := (s.reflagged_leaveHover t).trans (Table.reflagged_setSelected _ c.row.toNat true)
  have hr := (hre.hasRow h.indexed c.row.toNat).trans hc.2
  rw [he]
  refine ⟨hre.indexed h.indexed, fun hd' => by simp at hd', ?_⟩
  rintro d' hd'
  obtain rfl := Option.some.inj hd'
  refine ⟨rfl, rfl, hr, hr, ?_, ?_⟩ <;> apply UInt64.toNat_inj.mp
  · rw [toNat_min]
    exact (Nat.min_self _).symm
  · rw [toNat_max]
    exact (Nat.max_self _).symm

theorem cleared (h : t.Indexed) : Over .idle t.clearSelected pressed :=
  ⟨Table.indexed_clearSelected h,
    fun _ i => by simp [Table.selectedRows_clearSelected h, Selector.idle],
    fun d hd => by simp [Selector.idle] at hd⟩

/-- During a drag, a press adds its row to those selected and takes none back. -/
theorem mem_selectedRows_press (h : s.Over t pressed) {d : Drag} (hd : s.drag = some d)
    (hc : Takes t c) (i : Nat) :
    i ∈ (s.press t c).2.selectedRows ↔ i = c.row.toNat ∨ i ∈ t.selectedRows := by
  obtain ⟨line, -, he⟩ := s.press_of_takes hc
  have hre := s.reflagged_leaveHover t
  rw [he, Table.mem_selectedRows_setSelected (hre.indexed h.indexed), hre.hasRow h.indexed, hc.2,
    mem_selectedRows_leaveHover _ h.indexed, (h.dragging d hd).1]
  split <;> simp_all

end Over

end Selector

namespace Session

variable {s : Session} {pressed : Option UInt64}

/-- The row of a press that begins a drag. -/
def pressed? (s : Session) : Operation → Option UInt64
  | .act (.pointerDown c) => if Selector.Takes s.table c then some c.row else none
  | _ => none

/-- The row of the last press in a run that began a drag. -/
def lastPressed? (s : Session) : List Operation → Option UInt64
  | [] => none
  | op :: ops => ((s.perform op).lastPressed? ops).or (s.pressed? op)

theorem lastPressed?_concat (s : Session) (ops : List Operation) (op : Operation) :
    s.lastPressed? (ops ++ [op]) = ((s.run ops).pressed? op).or (s.lastPressed? ops) := by
  induction ops generalizing s with
  | nil => simp [lastPressed?]
  | cons op' ops ih => simp [lastPressed?, ih, Option.or_assoc]

theorem pressed?_eq_some {op : Operation} {row : UInt64} (h : s.pressed? op = some row) :
    ∃ c, op = .act (.pointerDown c) ∧ Selector.Takes s.table c ∧ c.row = row := by
  unfold pressed? at h
  split at h
  · rename_i c
    split at h
    · rename_i hc
      exact ⟨c, rfl, hc, Option.some.inj h⟩
    · simp at h
  · simp at h

/-- How a drag that is there after an operation came to be: it was begun by the operation, was moved
by it, or goes on as it was over the same rows with the same ones selected. -/
inductive DragStep (s : Session) : Operation → Drag → Prop
  | begun {c : Cell} {line : UInt32} : Selector.Takes s.table c →
      DragStep s (.act (.pointerDown c)) (.start c.row line c.side)
  | moved {op : Operation} {d : Drag} {row : UInt64} : s.selector.drag = some d →
      (s.perform op).table = (d.extend s.table row).2 → DragStep s op (d.extend s.table row).1
  | kept {op : Operation} {d : Drag} : s.selector.drag = some d → s.table.Reflagged (s.perform op).table →
      (∀ i, i ∈ (s.perform op).table.selectedRows ↔ i ∈ s.table.selectedRows) → DragStep s op d

section DragStep

variable {op : Operation} {d : Drag} {c : Cell}

theorem DragStep.of_table_eq (hd : s.selector.drag = some d)
    (ht : (s.perform op).table = s.table) : s.DragStep op d := by
  refine .kept hd ?_ fun i => ?_
  · rw [ht]
    exact .refl _
  · rw [ht]

theorem dragStep_enter (hd : (s.perform (.act (.pointerEnter c))).selector.drag = some d) :
    s.DragStep (.act (.pointerEnter c)) d := by
  change (s.selector.enter s.table c).1.drag = some d at hd
  cases hd' : s.selector.drag with
  | none => simp [Selector.drag_enter_idle hd'] at hd
  | some d' =>
    obtain he | he := Selector.enter_dragging hd' s.table c
    · rw [he] at hd
      exact .of_table_eq hd (congrArg Prod.snd he)
    · rw [he] at hd
      obtain rfl := Option.some.inj hd
      exact .moved hd' (congrArg Prod.snd he)

theorem dragStep_leave {onto : Option Cell}
    (hd : (s.perform (.act (.pointerLeave c onto))).selector.drag = some d) :
    s.DragStep (.act (.pointerLeave c onto)) d := by
  change (s.selector.leave s.table onto).1.drag = some d at hd
  rw [Selector.drag_leave] at hd
  obtain he | ⟨hd', -⟩ := s.selector.leave_cases s.table onto
  · exact .of_table_eq hd (congrArg Prod.snd he)
  · simp [hd'] at hd

theorem dragStep_down (hd : (s.perform (.act (.pointerDown c))).selector.drag = some d) :
    s.DragStep (.act (.pointerDown c)) d := by
  change (s.selector.press s.table c).1.drag = some d at hd
  by_cases hc : Selector.Takes s.table c
  · obtain ⟨line, -, he⟩ := s.selector.press_of_takes hc
    rw [he] at hd
    obtain rfl := Option.some.inj hd
    exact .begun hc
  · have he := Selector.press_of_not_takes s.selector hc
    rw [he] at hd
    exact .of_table_eq hd (congrArg Prod.snd he)

theorem dragStep_perform (hi : s.table.Indexed) (hd : (s.perform op).selector.drag = some d) :
    s.DragStep op d := by
  cases op with
  | act a =>
    cases a with
    | pointerEnter c => exact dragStep_enter hd
    | pointerLeave c onto => exact dragStep_leave hd
    | pointerDown c => exact dragStep_down hd
    | pointerUp c => simp [perform, handle, resetSelection, Selector.idle] at hd
    | expand chunk reveal =>
      rw [perform, handle, (s.handle_send _).2] at hd
      exact .of_table_eq hd (s.handle_send _).1
    | collapse chunk =>
      rw [perform, handle, (s.handle_send _).2] at hd
      exact .of_table_eq hd (s.handle_send _).1
  | comment row side value =>
    exact .kept hd (s.table.reflagged_setComment row side value)
      fun _ => Table.mem_selectedRows_setComment hi row side value
  | answer r result =>
    obtain he | ⟨f, A, g, C, -, -, -, he⟩ := s.perform_answer_cases r result
    · rw [he] at hd
      exact .of_table_eq hd (congrArg Session.table he)
    · simp [he, answered, Selector.idle] at hd

end DragStep

theorem over_perform (h : s.selector.Over s.table pressed) (op : Operation) :
    (s.perform op).selector.Over (s.perform op).table ((s.pressed? op).or pressed) := by
  cases op with
  | act a =>
    cases a with
    | pointerEnter c => exact h.enter c
    | pointerLeave c onto => exact h.leave onto
    | pointerDown c =>
      by_cases hc : Selector.Takes s.table c
      · simpa [pressed?, hc, perform, handle, pointTo] using h.press hc
      · simpa [pressed?, hc, perform, handle, pointTo, Selector.press_of_not_takes _ hc] using h
    | pointerUp c => exact Selector.Over.cleared h.indexed
    | expand chunk reveal =>
      rw [perform, handle, (s.handle_send _).1, (s.handle_send _).2]
      exact h
    | collapse chunk =>
      rw [perform, handle, (s.handle_send _).1, (s.handle_send _).2]
      exact h
  | comment row side value =>
    have hre := s.table.reflagged_setComment row side value
    refine ⟨hre.indexed h.indexed, fun hd i => ?_, fun d hd => ?_⟩
    · exact (Table.mem_selectedRows_setComment h.indexed row side value).trans (h.idle hd i)
    · obtain ⟨hh, hp, hw⟩ := h.dragging d hd
      exact ⟨hh, hp, (hre.hasRow h.indexed _).trans hw.anchor,
        (hre.hasRow h.indexed _).trans hw.lastSeen, hw.first, hw.last⟩
  | answer r result =>
    obtain he | ⟨f, A, g, C, -, -, -, he⟩ := s.perform_answer_cases r result
    · rwa [he]
    · rw [he, answered, ← Table.clearSelected_ofGroups]
      exact Selector.Over.cleared (Table.indexed_ofGroups _)

theorem over_run (hs : s.selector = .idle) (hi : s.table.Indexed)
    (hn : s.table.selectedRows = []) (ops : List Operation) :
    (s.run ops).selector.Over (s.run ops).table (s.lastPressed? ops) := by
  induction ops using List.reverseRecOn with
  | nil =>
    refine ⟨hi, fun _ i => ?_, fun d hd => ?_⟩
    · simp [hs, hn, Selector.idle]
    · simp [hs, Selector.idle] at hd
  | append_singleton ops op ih =>
    rw [run_concat, lastPressed?_concat]
    exact over_perform ih op

/-- A press that begins a drag while one is going on that has selected other rows. -/
def PressesElsewhere (s : Session) (op : Operation) : Prop :=
  ∃ row d, s.pressed? op = some row ∧ s.selector.drag = some d ∧ ¬(d.first = row ∧ d.last = row)

/-- Nothing but a press elsewhere makes the selection differ from the drag. -/
theorem exact_perform (h : s.selector.Over s.table pressed)
    (hx : ∀ d, s.selector.drag = some d → d.Exact s.table) {op : Operation}
    (hp : ¬ s.PressesElsewhere op) :
    ∀ d, (s.perform op).selector.drag = some d → d.Exact (s.perform op).table := by
  intro d hd
  cases dragStep_perform h.indexed hd with
  | @begun c line hc =>
    rw [Drag.exact_start]
    intro i
    cases hd' : s.selector.drag with
    | none =>
      obtain ⟨line', -, he⟩ := s.selector.press_of_takes hc
      have ht : (s.perform (.act (.pointerDown c))).table = _ := congrArg Prod.snd he
      rw [ht, h.mem_selectedRows_move hd' hc.2]
    | some d' =>
      -- the drag before had selected the row of this press alone
      have hsame : d'.first = c.row ∧ d'.last = c.row := by
        by_contra hne
        exact hp ⟨c.row, d', by simp [pressed?, hc], hd', hne⟩
      apply (h.mem_selectedRows_press hd' hc i).trans
      rw [hx d' hd', hsame.1, hsame.2]
      omega
  | @moved op d' row hd' ht =>
    rw [ht]
    exact (hx d' hd').extend (h.dragging d' hd').2.2 h.indexed row
  | kept hd' _ hsel =>
    intro i
    exact (hsel i).trans (hx d hd' i)

/-- A press elsewhere leaves the rows of the drag before selected. -/
theorem not_exact_of_pressesElsewhere (h : s.selector.Over s.table pressed)
    (hx : ∀ d, s.selector.drag = some d → d.Exact s.table) {op : Operation}
    (hp : s.PressesElsewhere op) :
    ∃ d, (s.perform op).selector.drag = some d ∧ ¬ d.Exact (s.perform op).table := by
  obtain ⟨row, d, hr, hd, hne⟩ := hp
  obtain ⟨c, rfl, hc, rfl⟩ := pressed?_eq_some hr
  obtain ⟨line, -, he⟩ := s.selector.press_of_takes hc
  refine ⟨.start c.row line c.side, by rw [perform, handle, pointTo, he], fun hx' => hne ?_⟩
  have hw := (h.dragging d hd).2.2
  have hle : d.first.toNat ≤ d.last.toNat := by
    rw [hw.first, hw.last, toNat_min, toNat_max]
    omega
  -- the first and the last row of the drag before are still selected
  have hrow : ∀ i, d.first.toNat ≤ i → i ≤ d.last.toNat → i = c.row.toNat := by
    intro i hi hi'
    apply (Drag.exact_start.mp hx' i).mp
    exact (h.mem_selectedRows_press hd hc i).mpr (Or.inr ((hx d hd i).mpr ⟨hi, hi'⟩))
  exact ⟨UInt64.toNat_inj.mp (hrow _ le_rfl hle), UInt64.toNat_inj.mp (hrow _ hle le_rfl)⟩

/-- During a drag, the selected rows are those between the row of the last press and the row reached
last, which are the first and the last row of the drag. -/
def SelectsDrag (s : Session) (pressed : Option UInt64) : Prop :=
  ∀ d, s.selector.drag = some d → ∃ row, pressed = some row ∧
    d.first = min row d.lastSeen ∧ d.last = max row d.lastSeen ∧
    ∀ i, i ∈ s.table.selectedRows ↔ d.first.toNat ≤ i ∧ i ≤ d.last.toNat

theorem selectsDrag_iff (h : s.selector.Over s.table pressed) :
    s.SelectsDrag pressed ↔ ∀ d, s.selector.drag = some d → d.Exact s.table := by
  constructor
  · intro hx d hd
    obtain ⟨row, -, -, -, hsel⟩ := hx d hd
    exact hsel
  · intro hx d hd
    obtain ⟨-, hp, hw⟩ := h.dragging d hd
    exact ⟨d.anchor, hp, hw.first, hw.last, hx d hd⟩

/-- From a table with nothing selected, the selection agrees with the drag in all states of a run
if and only if no press of the run comes during a drag that has selected other rows. -/
theorem selectsDrag_run_iff (hs : s.selector = .idle) (hi : s.table.Indexed)
    (hn : s.table.selectedRows = []) (ops : List Operation) :
    (∀ pre, pre <+: ops → (s.run pre).SelectsDrag (s.lastPressed? pre)) ↔
      ∀ pre op, pre ++ [op] <+: ops → ¬ (s.run pre).PressesElsewhere op := by
  have kept := s.over_run hs hi hn
  constructor
  · intro h pre op hpre hp
    have hx := (selectsDrag_iff (kept pre)).mp (h pre ((List.prefix_append _ _).trans hpre))
    have hx' := (selectsDrag_iff (kept _)).mp (h _ hpre)
    obtain ⟨d, hd, hnot⟩ := not_exact_of_pressesElsewhere (kept pre) hx hp
    rw [run_concat] at hx'
    exact hnot (hx' d hd)
  · intro h pre hpre
    rw [selectsDrag_iff (kept pre)]
    induction pre using List.reverseRecOn with
    | nil =>
      intro d hd
      simp [hs, Selector.idle] at hd
    | append_singleton pre op ih =>
      rw [run_concat]
      exact exact_perform (kept pre) (ih ((List.prefix_append _ _).trans hpre)) (h pre op hpre)

/-- A drag down the table and back across the row of its press. -/
theorem selectsDrag_across_press :
    let s := Session.new (.new 0 0 0) (.ofGroups [.equalRun 0 1 5])
    let ops : List Operation :=
      [.act (.pointerDown ⟨2, .right, .lineNumber⟩), .act (.pointerEnter ⟨4, .right, .lineNumber⟩),
        .act (.pointerEnter ⟨0, .left, .ghostFlag⟩)]
    s.selector = .idle ∧ s.table.Indexed ∧ s.table.selectedRows = [] ∧
      ∀ pre, pre <+: ops → (s.run pre).SelectsDrag (s.lastPressed? pre) := by
  refine ⟨rfl, rfl, by decide,
    (selectsDrag_run_iff rfl (Table.indexed_ofGroups _) (by decide) _).mpr ?_⟩
  rintro pre op hpre ⟨row, d, hr, hd, -⟩
  obtain ⟨c, rfl, -, -⟩ := pressed?_eq_some hr
  rcases pre with _ | ⟨a, _ | ⟨b, _ | ⟨e, pre⟩⟩⟩
  · simp [Session.new, Selector.idle] at hd
  · simp at hpre
  · simp at hpre
  · simp at hpre

/-- A drag whose release goes unseen, and a press further down: the rows of that drag stay
selected. -/
theorem not_selectsDrag_unseen_release :
    let s := Session.new (.new 0 0 0) (.ofGroups [.equalRun 0 1 5])
    let ops : List Operation :=
      [.act (.pointerDown ⟨0, .right, .lineNumber⟩), .act (.pointerEnter ⟨2, .right, .lineNumber⟩),
        .act (.pointerDown ⟨4, .right, .lineNumber⟩)]
    (s.run ops).table.selectedRows = [0, 1, 2, 4] ∧
      ¬ (s.run ops).SelectsDrag (s.lastPressed? ops) := by
  refine ⟨by decide, fun h => ?_⟩
  obtain ⟨row, -, -, -, hsel⟩ := h (.start 4 5 .right) (by decide)
  have hlow := (hsel 0).mp (by decide)
  exact absurd hlow.1 (by decide)

end Session

end Marginalia.Diff
