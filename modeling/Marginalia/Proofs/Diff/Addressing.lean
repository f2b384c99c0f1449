import Marginalia.Proofs.Diff.Run

/-! Row addresses. The index of places and the list of controls are kept beside the groups and
rebuilt by hand. Whatever happens to a table they say what the groups say, so a place names one row
and a change at a place meets that row alone. -/

namespace Marginalia.Diff

/-- How many rows stand in the groups before a position. -/
def rowsBefore (gs : List Group) (g : Nat) : Nat := ((gs.take g).flatMap Group.rows).length

theorem rowsBefore_zero (gs : List Group) : rowsBefore gs 0 = 0 := rfl

theorem rowsBefore_cons (k : Group) (gs : List Group) (g : Nat) :
    rowsBefore (k :: gs) (g + 1) = k.rows.length + rowsBefore gs g := by
  simp [rowsBefore]

theorem length_rowIndex (gs : List Group) :
    (rowIndex gs).length = (gs.flatMap Group.rows).length := by
  induction gs with
  | nil => rfl
  | cons g gs ih => simp [rowIndex_cons, ih]

/-- A place of the index is in the group whose rows reach from before the place to behind it. -/
theorem group_at_place (gs : List Group) (i g : Nat) :
    (rowIndex gs)[i]?.map Prod.fst = some g ↔
      rowsBefore gs g ≤ i ∧ i < rowsBefore gs (g + 1) := by
  induction gs generalizing i g with
  | nil => simp [rowIndex, rowsBefore]
  | cons k gs ih =>
    rw [rowIndex_cons, rowsBefore_cons]
    by_cases hi : i < k.rows.length
    · rw [List.getElem?_append_left (by simpa using hi)]
      cases g with
      | zero => simp [hi, rowsBefore_zero]
      | succ g =>
        have hbefore : ¬ rowsBefore (k :: gs) (g + 1) ≤ i := by
          rw [rowsBefore_cons]
          omega
        simp [hi, hbefore]
    · rw [List.getElem?_append_right (by simpa using hi)]
      simp only [List.length_map, List.length_range, List.getElem?_map, Option.map_map]
      have hrest := ih (i - k.rows.length)
      cases g with
      | zero =>
        have hbehind : ¬ i < k.rows.length + rowsBefore gs 0 := by
          rw [rowsBefore_zero]
          omega
        simp [hbehind, Function.comp_def]
      | succ g =>
        have hshift : (rowIndex gs)[i - k.rows.length]?.map
            (Prod.fst ∘ fun p : Nat × Nat => (p.1 + 1, p.2)) = some (g + 1) ↔
            (rowIndex gs)[i - k.rows.length]?.map Prod.fst = some g := by
          cases (rowIndex gs)[i - k.rows.length]? <;> simp
        rw [hshift, hrest g, rowsBefore_cons]
        omega

namespace Table

variable {t : Table}

/-- Places name the rows of the groups, one after another, and a change of a flag at a place is a
change of the row there and of nothing else. -/
structure Addressed (t : Table) : Prop where
  count : t.rowCount = t.rows.length
  row : ∀ i, t.row? i = t.rows[i]?
  group : ∀ i g, t.groupOfRow? i = some g ↔
    rowsBefore t.groups g ≤ i ∧ i < rowsBefore t.groups (g + 1)
  select : ∀ i v, t.Reflagged (t.setSelected i v) ∧
    (t.setSelected i v).rows = t.rows.modify i fun r => { r with selected := v }
  comment : ∀ i side v, t.Reflagged (t.setComment i side v) ∧
    (t.setComment i side v).rows =
      t.rows.modify i fun r => { r with comments := r.comments.set side v }

theorem Indexed.addressed (h : t.Indexed) : t.Addressed where
  count := by rw [rowCount, h, length_rowIndex, rows]
  row := row?_eq h
  group i g := by rw [groupOfRow?, h, group_at_place]
  select i v := ⟨t.reflagged_setSelected i v, rows_modifyRow h i _⟩
  comment i side v := ⟨t.reflagged_setComment i side v, rows_modifyRow h i _⟩

/-- What can be done to a table that no session holds. -/
inductive Edit where
  | splice (position : Nat) (gs : List Group)
  | removeGroup (position : Nat)
  | select (row : Nat) (value : Bool)
  | unselectAll
  | comment (row : Nat) (side : Side) (value : Bool)

def edit (t : Table) : Edit → Table
  | .splice position gs => t.splice position gs
  | .removeGroup position => t.removeGroup position
  | .select row value => t.setSelected row value
  | .unselectAll => t.clearSelected
  | .comment row side value => t.setComment row side value

def editAll (t : Table) (es : List Edit) : Table := es.foldl edit t

theorem indexed_edit (h : t.Indexed) (e : Edit) : (t.edit e).Indexed := by
  cases e with
  | splice position gs => rfl
  | removeGroup position => rfl
  | select row value => exact indexed_setSelected h row value
  | unselectAll => exact indexed_clearSelected h
  | comment row side value => exact indexed_modifyRow h row _

theorem indexed_editAll (h : t.Indexed) (es : List Edit) : (t.editAll es).Indexed := by
  induction es generalizing t with
  | nil => exact h
  | cons e es ih => exact ih (indexed_edit h e)

end Table

namespace Session

variable {s : Session}

/-- The index fits the groups, and the controls are those that the groups have. -/
structure UpToDate (s : Session) : Prop where
  indexed : s.table.Indexed
  buttons : s.table.buttons = collapsibleChunks s.table.unflagged

theorem upToDate_new (file : File) (gs : List Group) :
    (new file (.ofGroups gs)).UpToDate :=
  ⟨Table.indexed_ofGroups gs, (collapsibleChunks_blank gs).symm⟩

theorem upToDate_perform (h : s.UpToDate) (op : Operation) : (s.perform op).UpToDate :=
  ⟨indexed_perform h.indexed op, buttons_perform h.buttons op⟩

theorem upToDate_run (h : s.UpToDate) (ops : List Operation) : (s.run ops).UpToDate := by
  induction ops generalizing s with
  | nil => exact h
  | cons op ops ih => exact ih (upToDate_perform h op)

end Session

/-- From any groups on, a table is addressed exactly, however it is edited by itself or in a
session; and the session shows the controls that its groups have, in table order. A group that is
spliced in needs no valid position: the index is rebuilt wherever it goes. -/
theorem addressed_reachable (gs : List Group) :
    (∀ es, ((Table.ofGroups gs).editAll es).Addressed) ∧
      ∀ file ops, let t := ((Session.new file (.ofGroups gs)).run ops).table
        t.Addressed ∧ t.buttons = collapsibleChunks t.groups := by
  refine ⟨fun es => ?_, fun file ops => ?_⟩
  · have h := Table.indexed_editAll (Table.indexed_ofGroups gs) es
    exact h.addressed
  · have h := Session.upToDate_run (Session.upToDate_new file gs) ops
    refine ⟨h.indexed.addressed, ?_⟩
    rw [h.buttons, Table.unflagged, collapsibleChunks_blank]

end Marginalia.Diff
