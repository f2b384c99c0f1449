import Marginalia.Proofs.Diff.Answer

/-! Runs of a session: pointer actions, requests, answers in whatever order they come, and
comments. Only an answer changes more of the table than the flags of its rows. -/

namespace Marginalia.Diff

/-- What can happen to a session. -/
inductive Operation where
  | act (action : Action)
  /-- An answer comes in; the request may be an old one, or one that was never made. -/
  | answer (request : Request) (result : FetchResult)
  /-- A comment was stored at a row or deleted there. -/
  | comment (row : Nat) (side : Side) (value : Bool)

/-- A row without its flags. -/
def Row.blank (r : Row) : Row := { r with comments := .none, selected := false }

/-- A group without the flags of its rows. -/
def Group.blank (g : Group) : Group := { g with rows := g.rows.map Row.blank }

theorem Group.blank_unselect (g : Group) : g.unselect.blank = g.blank := by
  simp [Group.blank, Group.unselect, Function.comp_def, Row.blank]

/-- The groups of a table without the flags of their rows. -/
def Table.unflagged (t : Table) : List Group := t.groups.map Group.blank

theorem collapsibleChunks_blank (gs : List Group) :
    collapsibleChunks (gs.map Group.blank) = collapsibleChunks gs := by
  simp [collapsibleChunks, List.filter_map, Function.comp_def, Group.blank]

theorem keepFirst_blank (seen : Bool) (gs : List Group) :
    keepFirst seen (gs.map Group.blank) = (keepFirst seen gs).map Group.blank := by
  induction gs generalizing seen with
  | nil => rfl
  | cons g gs ih =>
    have hc : g.blank.collapsible = g.collapsible := rfl
    simp only [List.map_cons, keepFirst, hc, ih]
    split <;> rfl

theorem settled_blank (e : Extent) (gs : List Group) :
    settled e (gs.map Group.blank) = (settled e gs).map Group.blank := by
  have hm : Group.markPartly ∘ Group.blank = Group.blank ∘ Group.markPartly := by
    funext g
    have hp : g.blank.isPlaceholder = g.isPlaceholder := rfl
    simp only [Function.comp_apply, Group.markPartly, hp]
    split <;> rfl
  cases e <;> simp [settled, keepFirst_blank, hm]

theorem map_settled_blank {α : Type} {f : Group → α}
    (hc : ∀ g v, f { g with collapsible := v } = f g)
    (he : ∀ g v, f { g with expansion := v } = f g) (hb : ∀ g : Group, f g.blank = f g) (e : Extent)
    (gs : List Group) : (settled e (gs.map Group.blank)).map f = gs.map f := by
  rw [map_settled hc he, List.map_map]
  exact List.map_congr_left fun g _ => hb g

theorem countP_settled_blank (e : Extent) (gs : List Group) :
    (settled e (gs.map Group.blank)).countP Group.isPlaceholder =
      gs.countP Group.isPlaceholder := by
  have hm := map_settled_blank (f := Group.isPlaceholder) (fun _ _ => rfl) (fun _ _ => rfl)
    (fun _ => rfl) e gs
  have hc := congrArg (List.countP fun b => b) hm
  rwa [List.countP_map, List.countP_map] at hc

theorem mem_settled_blank {g : Group} {e : Extent} {gs : List Group}
    (h : g ∈ settled e (gs.map Group.blank)) :
    ∃ k ∈ gs, ∃ v x, g = { k.blank with collapsible := v, expansion := x } ∧
      (v = true → k.collapsible = true) := by
  obtain ⟨k, hk, v, x, he, hv⟩ := mem_settled h
  obtain ⟨k', hk', rfl⟩ := List.mem_map.mp hk
  exact ⟨k', hk', v, x, he, hv⟩

/-- A table that differs from another in the flags of rows at most. -/
structure Table.Reflagged (t t' : Table) : Prop where
  groups : t'.unflagged = t.unflagged
  index : t'.index = t.index
  buttons : t'.buttons = t.buttons

namespace Table

variable {t t' t'' : Table}

theorem Reflagged.refl (t : Table) : t.Reflagged t := ⟨rfl, rfl, rfl⟩

theorem Reflagged.trans (h : t.Reflagged t') (h' : t'.Reflagged t'') : t.Reflagged t'' :=
  ⟨h'.groups.trans h.groups, h'.index.trans h.index, h'.buttons.trans h.buttons⟩

theorem Reflagged.indexed (h : t.Reflagged t') (ht : t.Indexed) : t'.Indexed := by
  have hl := congrArg (List.map fun g : Group => g.rows.length) h.groups
  simp only [unflagged, List.map_map, Group.blank, Function.comp_def, List.length_map] at hl
  rw [Indexed, h.index, ht]
  exact rowIndex_congr hl.symm

theorem Reflagged.hasRow (h : t.Reflagged t') (ht : t.Indexed) (i : Nat) :
    t'.hasRow i = t.hasRow i := by
  have hl := congrArg (fun gs : List Group => (gs.flatMap Group.rows).length) h.groups
  simp only [unflagged, List.flatMap_map, Group.blank, List.length_flatMap, List.length_map] at hl
  rw [Bool.eq_iff_iff, hasRow_iff (h.indexed ht), hasRow_iff ht, rows, rows, List.length_flatMap,
    List.length_flatMap, hl]

/-- The row at a place, its flags left aside, is told by the index and the groups without flags. -/
theorem row?_blank (t : Table) (i : Nat) :
    (t.row? i).map Row.blank =
      t.index[i]?.bind fun p => t.unflagged[p.1]?.bind fun g => g.rows[p.2]? := by
  change (t.index[i]?.bind fun p => t.groups[p.1]?.bind fun g => g.rows[p.2]?).map Row.blank = _
  cases t.index[i]? with
  | none => rfl
  | some p =>
    simp only [Option.bind_some, unflagged, List.getElem?_map]
    cases t.groups[p.1]? with
    | none => rfl
    | some g => simp [Group.blank]

/-- Flags do not move lines, whether or not the index fits the groups. -/
theorem Reflagged.line?_eq (h : t.Reflagged t') (i : Nat) : t'.line? i = t.line? i := by
  have hl (t : Table) : t.line? i = ((t.row? i).map Row.blank).map Row.line := by
    rw [Option.map_map]
    rfl
  rw [hl, hl, row?_blank, row?_blank, h.index, h.groups]

theorem reflagged_modifyRow (t : Table) (i : Nat) {f : Row → Row}
    (hf : ∀ r, (f r).blank = r.blank) : t.Reflagged (t.modifyRow i f) := by
  unfold modifyRow
  split
  · refine ⟨map_modify (fun g => ?_) _ _, rfl, rfl⟩
    simp only [Group.blank, map_modify hf]
  · exact .refl t

theorem reflagged_setSelected (t : Table) (i : Nat) (v : Bool) :
    t.Reflagged (t.setSelected i v) :=
  reflagged_modifyRow t i fun _ => rfl

theorem reflagged_setComment (t : Table) (i : Nat) (side : Side) (v : Bool) :
    t.Reflagged (t.setComment i side v) :=
  reflagged_modifyRow t i fun _ => rfl

theorem reflagged_selectBetween (t : Table) (low high : Nat) (w : Nat → Bool) :
    t.Reflagged (t.selectBetween low high w) := by
  unfold selectBetween
  generalize List.range' low (high + 1 - low) = is
  induction is generalizing t with
  | nil => exact .refl t
  | cons i is ih => exact (reflagged_setSelected t i (w i)).trans (ih _)

theorem reflagged_clearSelected (t : Table) : t.Reflagged t.clearSelected := by
  refine ⟨?_, rfl, rfl⟩
  simp [unflagged, clearSelected, Group.blank, Function.comp_def, Row.blank]

end Table

theorem Drag.reflagged_extend (d : Drag) (t : Table) (row : UInt64) :
    t.Reflagged (d.extend t row).2 := by
  unfold extend
  split
  · exact t.reflagged_selectBetween _ _ _
  · exact .refl t

namespace Selector

theorem reflagged_leaveHover (s : Selector) (t : Table) : t.Reflagged (s.leaveHover t).2 := by
  unfold leaveHover
  split
  · exact t.reflagged_setSelected _ _
  · exact .refl t

theorem reflagged_enter (s : Selector) (t : Table) (c : Cell) : t.Reflagged (s.enter t c).2 := by
  unfold enter
  split
  · split
    · exact Drag.reflagged_extend _ t c.row
    · exact .refl t
  · split
    iterate 2
      split
      · exact (s.reflagged_leaveHover t).trans (Table.reflagged_setSelected _ _ _)
      · exact .refl t
    · exact reflagged_leaveHover _ t
    · exact .refl t

theorem reflagged_leave (s : Selector) (t : Table) (onto : Option Cell) :
    t.Reflagged (s.leave t onto).2 := by
  unfold leave
  split
  · exact .refl t
  · exact reflagged_leaveHover _ t

theorem reflagged_press (s : Selector) (t : Table) (c : Cell) :
    t.Reflagged (s.press t c).2 := by
  unfold press
  split
  iterate 2
    split
    · exact (s.reflagged_leaveHover t).trans (Table.reflagged_setSelected _ _ _)
    · exact .refl t
  all_goals exact .refl t

end Selector

namespace Session

variable {s : Session}

/-- The session after an operation. A refused answer leaves it as it was. -/
def perform (s : Session) : Operation → Session
  | .act a => (s.handle a).1
  | .answer r result =>
    match s.applyFragment r result with
    | .ok (s', _) => s'
    | .error _ => s
  | .comment row side value => s.setComment row side value

def run (s : Session) (ops : List Operation) : Session := ops.foldl perform s

@[simp] theorem run_nil (s : Session) : s.run [] = s := rfl

@[simp] theorem run_cons (s : Session) (op : Operation) (ops : List Operation) :
    s.run (op :: ops) = (s.perform op).run ops := rfl

theorem run_append (s : Session) (ops ops' : List Operation) :
    s.run (ops ++ ops') = (s.run ops).run ops' :=
  List.foldl_append

theorem run_concat (s : Session) (ops : List Operation) (op : Operation) :
    s.run (ops ++ [op]) = (s.run ops).perform op :=
  run_append s ops [op]

theorem handle_send (s : Session) (x : Except ExpansionError (RequestCounter × Request)) :
    (s.send x).1.table = s.table ∧ (s.send x).1.selector = s.selector := by
  cases x <;> exact ⟨rfl, rfl⟩

theorem reflagged_handle (s : Session) (a : Action) : s.table.Reflagged (s.handle a).1.table := by
  cases a with
  | pointerEnter c => exact s.selector.reflagged_enter s.table c
  | pointerLeave c onto => exact s.selector.reflagged_leave s.table onto
  | pointerDown c => exact s.selector.reflagged_press s.table c
  | pointerUp c => exact s.table.reflagged_clearSelected
  | expand chunk reveal => rw [handle, (s.handle_send _).1]; exact .refl _
  | collapse chunk => rw [handle, (s.handle_send _).1]; exact .refl _

theorem perform_answer {r : Request} {f : Fragment} {A C : List Group} {g : Group}
    (h : TargetAt r s.table.groups A g C) (hf : f.groups ≠ []) :
    s.perform (.answer r (.ok f)) = s.answered r f A C := by
  rw [perform, applyFragment_ok h hf]

/-- An answer is refused and changes nothing, or it is worked in. -/
theorem perform_answer_cases (s : Session) (r : Request) (result : FetchResult) :
    s.perform (.answer r result) = s ∨
      ∃ f A g C, result = .ok f ∧ f.groups ≠ [] ∧ TargetAt r s.table.groups A g C ∧
        s.perform (.answer r result) = s.answered r f A C := by
  rw [perform]
  obtain ⟨cause, -, he⟩ | ⟨f, -, -, he⟩ | ⟨f, A, g, C, -, -, -, he⟩ |
      ⟨f, A, g, C, hr, hf, h, he⟩ := s.applyFragment_cases r result
  · exact Or.inl (by rw [he])
  · exact Or.inl (by rw [he])
  · exact Or.inl (by rw [he])
  · exact Or.inr ⟨f, A, g, C, hr, hf, h, by rw [he]⟩

/-- An operation changes flags of rows, or it is an answer that is worked in. -/
theorem perform_cases (s : Session) (op : Operation) :
    s.table.Reflagged (s.perform op).table ∨
      ∃ r f A g C, op = .answer r (.ok f) ∧ f.groups ≠ [] ∧
        TargetAt r s.table.groups A g C ∧ s.perform op = s.answered r f A C := by
  cases op with
  | act a => exact Or.inl (s.reflagged_handle a)
  | comment row side value => exact Or.inl (s.table.reflagged_setComment row side value)
  | answer r result =>
    obtain he | ⟨f, A, g, C, rfl, hf, h, he⟩ := s.perform_answer_cases r result
    · exact Or.inl (he.symm ▸ .refl s.table)
    · exact Or.inr ⟨r, f, A, g, C, rfl, hf, h, he⟩

/-- What operations keep, as long as fragments are as they should be, holds after any run. -/
theorem run_keeps {I : Session → Prop} {F : Request → Fragment → Prop}
    (hI : ∀ s op, I s → (∀ r f, op = .answer r (.ok f) → F r f) → I (s.perform op))
    {ops : List Operation} (hs : I s) (hf : ∀ r f, .answer r (.ok f) ∈ ops → F r f) :
    I (s.run ops) := by
  induction ops generalizing s with
  | nil => exact hs
  | cons op ops ih =>
    refine ih (hI s op hs fun r f hop => hf r f ?_) fun r f hm => hf r f ?_
    · exact hop ▸ List.mem_cons_self
    · exact List.mem_cons_of_mem op hm

theorem unflagged_answered (s : Session) (r : Request) (f : Fragment) (A C : List Group) :
    (s.answered r f A C).table.unflagged =
      replaced (A.map Group.blank) (settled r.extent (f.groups.map Group.blank))
        (C.map Group.blank) := by
  have hm := map_replaced (f := Group.blank) (fun _ => rfl) A (settled r.extent f.groups) C
  rw [settled_blank, ← hm]
  simp [answered, Table.unflagged, Table.ofGroups, Function.comp_def, Group.blank_unselect]

/-- All that an operation can do to the groups of the table, the flags of rows left aside. -/
theorem unflagged_perform (s : Session) (op : Operation) :
    (s.perform op).table.unflagged = s.table.unflagged ∨
      ∃ r f A g C, op = .answer r (.ok f) ∧ f.groups ≠ [] ∧ TargetAt r s.table.groups A g C ∧
        (s.perform op).table.unflagged =
          replaced (A.map Group.blank) (settled r.extent (f.groups.map Group.blank))
            (C.map Group.blank) := by
  obtain hr | ⟨r, f, A, g, C, hop, hne, ht, he⟩ := s.perform_cases op
  · exact Or.inl hr.groups
  · exact Or.inr ⟨r, f, A, g, C, hop, hne, ht, he ▸ s.unflagged_answered r f A C⟩

/-- The controls that hide chunks are those that the groups have. -/
theorem buttons_perform (h : s.table.buttons = collapsibleChunks s.table.unflagged)
    (op : Operation) :
    (s.perform op).table.buttons = collapsibleChunks (s.perform op).table.unflagged := by
  obtain hr | ⟨r, f, A, g, C, -, -, -, he⟩ := s.perform_cases op
  · rw [hr.buttons, hr.groups, h]
  · rw [he, answered, Table.unflagged, collapsibleChunks_blank]
    rfl

theorem indexed_perform (h : s.table.Indexed) (op : Operation) :
    (s.perform op).table.Indexed := by
  obtain hr | ⟨r, f, A, g, C, -, -, -, he⟩ := s.perform_cases op
  · exact hr.indexed h
  · rw [he]
    exact Table.indexed_ofGroups _

/-- What a step keeps of a session whose index fits its groups, a run keeps. -/
theorem run_keeps_of_indexed {I : Session → Prop}
    (hI : ∀ s op, s.table.Indexed → I s → I (s.perform op)) (hi : s.table.Indexed) (hs : I s)
    (ops : List Operation) : I (s.run ops) := by
  induction ops generalizing s with
  | nil => exact hs
  | cons op ops ih => exact ih (indexed_perform hi op) (hI s op hi hs)

theorem indexed_run (h : s.table.Indexed) (ops : List Operation) : (s.run ops).table.Indexed := by
  apply run_keeps_of_indexed (I := fun s => s.table.Indexed) _ h h
  intro s op hi _
  exact indexed_perform hi op

end Session

end Marginalia.Diff
