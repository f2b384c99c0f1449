import Marginalia.Diff.Selector

/-! Rows are addressed through the index of places. While the index fits the groups, the row at a
place is that of the concatenated rows, and an operation on rows acts there alone. -/

namespace Marginalia.Diff

/-- A change in one place is not seen through a function that the change leaves alone. -/
theorem map_modify {α β : Type} {f : α → α} {φ : α → β} (h : ∀ a, φ (f a) = φ a) (l : List α)
    (n : Nat) : (l.modify n f).map φ = l.map φ := by
  apply List.ext_getElem?
  intro i
  simp only [List.getElem?_map, List.getElem?_modify]
  split <;> simp [Function.comp_def, h]

theorem rowIndex_cons (g : Group) (gs : List Group) :
    rowIndex (g :: gs) =
      (List.range g.rows.length).map (fun j => (0, j)) ++
        (rowIndex gs).map fun p => (p.1 + 1, p.2) := by
  simp only [rowIndex, List.zipIdx_cons, List.flatMap_cons, Nat.zero_add, List.zipIdx_succ,
    List.flatMap_map, List.map_flatMap, List.map_map]
  rfl

/-- The index depends on how many rows each group has, and on nothing else. -/
theorem rowIndex_congr {gs hs : List Group}
    (h : (gs.map fun g => g.rows.length) = hs.map fun g => g.rows.length) :
    rowIndex gs = rowIndex hs := by
  induction gs generalizing hs with
  | nil =>
    obtain rfl : hs = [] := by simpa using h.symm
    rfl
  | cons g gs ih =>
    cases hs with
    | nil => simp at h
    | cons k hs =>
      simp only [List.map_cons, List.cons.injEq] at h
      rw [rowIndex_cons, rowIndex_cons, h.1, ih h.2]

theorem rowIndex_modify {f : Group → Group} (hf : ∀ g, (f g).rows.length = g.rows.length)
    (gs : List Group) (n : Nat) : rowIndex (gs.modify n f) = rowIndex gs :=
  rowIndex_congr (map_modify hf gs n)

/-- The row at a place of the index is the row as far down the table. -/
theorem row_at_place (gs : List Group) (i : Nat) :
    ((rowIndex gs)[i]?.bind fun p => gs[p.1]?.bind fun g => g.rows[p.2]?) =
      (gs.flatMap Group.rows)[i]? := by
  induction gs generalizing i with
  | nil => rfl
  | cons g gs ih =>
    rw [rowIndex_cons, List.flatMap_cons]
    by_cases hi : i < g.rows.length
    · rw [List.getElem?_append_left (by simpa using hi), List.getElem?_append_left hi]
      simp [hi]
    · rw [List.getElem?_append_right (by simpa using hi), List.getElem?_append_right (by omega),
        ← ih]
      simp only [List.length_map, List.length_range, List.getElem?_map, Option.bind_map]
      rfl

/-- The change of the row at a place changes the row as far down the table. -/
theorem rows_modify_place (gs : List Group) (f : Row → Row) {i : Nat} {p : Nat × Nat}
    (hp : (rowIndex gs)[i]? = some p) :
    (gs.modify p.1 fun g => { g with rows := g.rows.modify p.2 f }).flatMap Group.rows =
      (gs.flatMap Group.rows).modify i f := by
  induction gs generalizing i p with
  | nil => simp [rowIndex] at hp
  | cons g gs ih =>
    rw [rowIndex_cons] at hp
    by_cases hi : i < g.rows.length
    · rw [List.getElem?_append_left (by simpa using hi)] at hp
      obtain rfl : (0, i) = p := by simpa [hi] using hp
      apply List.ext_getElem?
      intro j
      simp only [List.modify_zero_cons, List.flatMap_cons, List.getElem?_append,
        List.length_modify, List.getElem?_modify]
      by_cases hj : j < g.rows.length
      · simp [hj]
      · have hne : i ≠ j := by omega
        simp [hj, hne]
    · rw [List.getElem?_append_right (by simpa using hi)] at hp
      simp only [List.length_map, List.length_range, List.getElem?_map,
        Option.map_eq_some_iff] at hp
      obtain ⟨q, hq, rfl⟩ := hp
      simp only [List.modify_succ_cons, List.flatMap_cons, ih hq]
      apply List.ext_getElem?
      intro j
      by_cases hj : j < g.rows.length
      · have hne : i ≠ j := by omega
        simp [List.getElem?_append_left hj, hne]
      · simp only [List.getElem?_modify]
        rw [List.getElem?_append_right (by omega), List.getElem?_append_right (by omega),
          List.getElem?_modify]
        have he : i - g.rows.length = j - g.rows.length ↔ i = j := by omega
        simp only [he]

namespace Table

variable {t : Table} {i j : Nat}

/-- The index of places is the one that the groups have. -/
def Indexed (t : Table) : Prop := t.index = rowIndex t.groups

theorem indexed_ofGroups (gs : List Group) : (ofGroups gs).Indexed := rfl

theorem row?_eq (h : t.Indexed) (i : Nat) : t.row? i = t.rows[i]? := by
  rw [rows, ← row_at_place, ← h]
  rfl

theorem hasRow_iff (h : t.Indexed) : t.hasRow i = true ↔ i < t.rows.length := by
  rw [hasRow, row?_eq h]
  simp

theorem line?_isSome : (t.line? i).isSome = t.hasRow i := by
  rw [line?, hasRow, Option.isSome_map]

theorem indexed_modifyRow (h : t.Indexed) (i : Nat) (f : Row → Row) :
    (t.modifyRow i f).Indexed := by
  unfold modifyRow
  split
  · rw [Indexed, rowIndex_modify (by simp)]
    exact h
  · exact h

theorem rows_modifyRow (h : t.Indexed) (i : Nat) (f : Row → Row) :
    (t.modifyRow i f).rows = t.rows.modify i f := by
  unfold modifyRow
  split
  · rename_i g r hp
    rw [h] at hp
    exact rows_modify_place t.groups f hp
  · rename_i hp
    have hrow : t.rows[i]? = none := by
      rw [← row?_eq h, row?, hp]
      rfl
    exact (List.modify_eq_self (by simpa using hrow)).symm

theorem row?_modifyRow (h : t.Indexed) (i : Nat) (f : Row → Row) (j : Nat) :
    (t.modifyRow i f).row? j = if i = j then (t.row? j).map f else t.row? j := by
  rw [row?_eq (indexed_modifyRow h i f), rows_modifyRow h, List.getElem?_modify, row?_eq h]
  split <;> simp

/-- A change of rows takes no row away and adds none. -/
theorem hasRow_modifyRow (h : t.Indexed) (i : Nat) (f : Row → Row) (j : Nat) :
    (t.modifyRow i f).hasRow j = t.hasRow j := by
  rw [hasRow, row?_modifyRow h]
  split <;> simp [hasRow]

theorem mem_selectedRows : i ∈ t.selectedRows ↔ (t.row? i).any Row.selected = true := by
  simp only [selectedRows, List.mem_filter, List.mem_range, and_iff_right_iff_imp]
  intro h
  rcases Nat.lt_or_ge i t.rowCount with hi | hi
  · exact hi
  · simp [row?, List.getElem?_eq_none hi] at h

theorem indexed_setSelected (h : t.Indexed) (i : Nat) (v : Bool) : (t.setSelected i v).Indexed :=
  indexed_modifyRow h i _

theorem hasRow_setSelected (h : t.Indexed) (i : Nat) (v : Bool) (j : Nat) :
    (t.setSelected i v).hasRow j = t.hasRow j :=
  hasRow_modifyRow h i _ j

/-- Only the row at the place changes its selection, and only if there is one. -/
theorem mem_selectedRows_setSelected (h : t.Indexed) (v : Bool) :
    j ∈ (t.setSelected i v).selectedRows ↔
      if j = i then v = true ∧ t.hasRow i = true else j ∈ t.selectedRows := by
  rw [mem_selectedRows, mem_selectedRows, setSelected, row?_modifyRow h]
  by_cases hj : j = i
  · subst hj
    cases hr : t.row? j <;> simp [hr, hasRow]
  · rw [if_neg hj, if_neg (Ne.symm hj)]

/-- The selection of several rows, one after another. -/
theorem selectEach_spec (is : List Nat) (w : Nat → Bool) (h : t.Indexed) :
    let t' := is.foldl (fun t i => t.setSelected i (w i)) t
    t'.Indexed ∧ (∀ j, t'.hasRow j = t.hasRow j) ∧
      ∀ j, j ∈ t'.selectedRows ↔
        if j ∈ is then w j = true ∧ t.hasRow j = true else j ∈ t.selectedRows := by
  induction is generalizing t with
  | nil => exact ⟨h, fun _ => rfl, fun j => by simp⟩
  | cons i is ih =>
    obtain ⟨hx, hr, hs⟩ := ih (indexed_setSelected h i (w i))
    refine ⟨hx, fun j => (hr j).trans (hasRow_setSelected h i _ j), fun j => ?_⟩
    rw [List.foldl_cons, hs j, hasRow_setSelected h, mem_selectedRows_setSelected h]
    by_cases hj : j = i
    · subst hj
      by_cases hm : j ∈ is <;> simp [hm]
    · by_cases hm : j ∈ is <;> simp [hm, hj]

theorem hasRow_selectBetween (h : t.Indexed) (low high : Nat) (w : Nat → Bool) (j : Nat) :
    (t.selectBetween low high w).hasRow j = t.hasRow j :=
  (selectEach_spec _ w h).2.1 j

theorem mem_selectedRows_selectBetween (h : t.Indexed) {low high : Nat} (w : Nat → Bool) :
    j ∈ (t.selectBetween low high w).selectedRows ↔
      if low ≤ j ∧ j ≤ high then w j = true ∧ t.hasRow j = true else j ∈ t.selectedRows := by
  rw [selectBetween, (selectEach_spec _ w h).2.2 j]
  have hm : j ∈ List.range' low (high + 1 - low) ↔ low ≤ j ∧ j ≤ high := by
    rw [List.mem_range'_1]
    omega
  simp only [hm]

/-- A comment that comes or goes leaves the selection alone. -/
theorem mem_selectedRows_setComment (h : t.Indexed) (i : Nat) (side : Side) (v : Bool) :
    j ∈ (t.setComment i side v).selectedRows ↔ j ∈ t.selectedRows := by
  rw [mem_selectedRows, mem_selectedRows, setComment, row?_modifyRow h]
  split
  · cases t.row? j <;> simp
  · rfl

theorem clearSelected_groups_rows (t : Table) :
    t.clearSelected.rows = t.rows.map fun r => { r with selected := false } := by
  simp [rows, clearSelected, List.flatMap_map, List.map_flatMap]

theorem indexed_clearSelected (h : t.Indexed) : t.clearSelected.Indexed := by
  rw [Indexed, clearSelected, h]
  exact rowIndex_congr (by simp)

theorem selectedRows_clearSelected (h : t.Indexed) : t.clearSelected.selectedRows = [] := by
  apply List.eq_nil_iff_forall_not_mem.mpr
  intro i hi
  rw [mem_selectedRows, row?_eq (indexed_clearSelected h), clearSelected_groups_rows,
    List.getElem?_map] at hi
  cases hr : t.rows[i]? <;> simp [hr] at hi

end Table

end Marginalia.Diff
