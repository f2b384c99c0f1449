import Mathlib.Data.List.DropRight
import Marginalia.Diff.Session
import Marginalia.Proofs.Diff.Rows

/-! What the answer to a request leaves of the table. Seen as lists, the groups before the target
lose the mergeable ones at their end, those after it the mergeable ones at their start, and the
settled groups of the fragment stand between. -/

namespace Marginalia.Diff

/-- The first control to hide a chunk stays, unless one was seen before. -/
def keepFirst : Bool → List Group → List Group
  | _, [] => []
  | seen, g :: gs =>
    (if g.collapsible then { g with collapsible := !seen } else g) ::
      keepFirst (seen || g.collapsible) gs

/-- A placeholder that is left of a chunk after some of its lines are shown. -/
def Group.markPartly (g : Group) : Group :=
  if g.isPlaceholder then { g with expansion := .partly } else g

/-- The groups of a fragment as they stand in the table. -/
def settled (extent : Extent) (gs : List Group) : List Group :=
  match extent with
  | .ends _ _ => (keepFirst false gs).map Group.markPartly
  | _ => keepFirst false gs

/-- The groups that are left where the groups `new` take a target's place. -/
def replaced (before new after : List Group) : List Group :=
  before.rdropWhile Group.isMergeable ++ new ++ after.dropWhile Group.isMergeable

theorem length_keepFirst (seen : Bool) (gs : List Group) :
    (keepFirst seen gs).length = gs.length := by
  induction gs generalizing seen with
  | nil => rfl
  | cons g gs ih => simp [keepFirst, ih]

theorem map_keepFirst {α : Type} {f : Group → α}
    (hf : ∀ g v, f { g with collapsible := v } = f g) (seen : Bool) (gs : List Group) :
    (keepFirst seen gs).map f = gs.map f := by
  induction gs generalizing seen with
  | nil => rfl
  | cons g gs ih =>
    rw [keepFirst, List.map_cons, List.map_cons, ih]
    split
    · rw [hf]
    · rfl

/-- What neither the control nor the expansion of a group bears on stays as the fragment has it. -/
theorem map_settled {α : Type} {f : Group → α} (hc : ∀ g v, f { g with collapsible := v } = f g)
    (he : ∀ g v, f { g with expansion := v } = f g) (e : Extent) (gs : List Group) :
    (settled e gs).map f = gs.map f := by
  have hm : f ∘ Group.markPartly = f := by
    funext g
    rw [Function.comp_apply, Group.markPartly]
    split
    · rw [he]
    · rfl
  cases e <;> simp [settled, hm, map_keepFirst hc]

theorem mem_keepFirst {g : Group} {seen : Bool} {gs : List Group} (h : g ∈ keepFirst seen gs) :
    ∃ k ∈ gs, ∃ v, g = { k with collapsible := v } ∧ (v = true → k.collapsible = true) := by
  induction gs generalizing seen with
  | nil => simp [keepFirst] at h
  | cons k gs ih =>
    rcases List.mem_cons.mp h with rfl | h
    · refine ⟨k, List.mem_cons_self, ?_⟩
      split
      · exact ⟨!seen, rfl, fun _ => by assumption⟩
      · exact ⟨k.collapsible, rfl, id⟩
    · obtain ⟨k', hk', h⟩ := ih h
      exact ⟨k', List.mem_cons_of_mem k hk', h⟩

/-- A settled group is one of the fragment, but for its expansion and a control that it may have
lost. -/
theorem mem_settled {g : Group} {e : Extent} {gs : List Group} (h : g ∈ settled e gs) :
    ∃ k ∈ gs, ∃ v x, g = { k with collapsible := v, expansion := x } ∧
      (v = true → k.collapsible = true) := by
  cases e with
  | ends above below =>
    obtain ⟨g', hg', rfl⟩ := List.mem_map.mp h
    obtain ⟨k, hk, v, rfl, hv⟩ := mem_keepFirst hg'
    refine ⟨k, hk, v, ?_⟩
    unfold Group.markPartly
    split
    · exact ⟨.partly, rfl, hv⟩
    · exact ⟨k.expansion, rfl, hv⟩
  | whole | hidden =>
    obtain ⟨k, hk, v, rfl, hv⟩ := mem_keepFirst h
    exact ⟨k, hk, v, k.expansion, rfl, hv⟩

theorem countP_keepFirst (seen : Bool) (gs : List Group) :
    (keepFirst seen gs).countP Group.collapsible ≤ if seen then 0 else 1 := by
  induction gs generalizing seen with
  | nil => simp [keepFirst]
  | cons g gs ih =>
    have hrest := ih (seen || g.collapsible)
    rw [keepFirst, List.countP_cons]
    cases seen <;> cases hg : g.collapsible <;> simp_all

/-- At most one settled group has the control that hides the chunk. -/
theorem countP_settled (e : Extent) (gs : List Group) :
    (settled e gs).countP Group.collapsible ≤ 1 := by
  have hk := countP_keepFirst false gs
  have hm : Group.collapsible ∘ Group.markPartly = Group.collapsible := by
    funext g
    rw [Function.comp_apply, Group.markPartly]
    split <;> rfl
  cases e <;> simpa [settled, List.countP_map, hm] using hk

section Replaced

variable {A L N C R : List Group} {g : Group}

theorem rdropWhile_append {α : Type} (p : α → Bool) (l m : List α) :
    (l ++ m).rdropWhile p = if m.all p then l.rdropWhile p else l ++ m.rdropWhile p := by
  induction m using List.reverseRecOn with
  | nil => simp
  | append_singleton m a ih =>
    rw [← List.append_assoc, List.rdropWhile_concat, List.rdropWhile_concat, ih]
    by_cases ha : p a = true <;> simp [ha]

/-- What stands further out is reached only where all that stands further in gives way. -/
theorem replaced_append (L A N C R : List Group) :
    replaced (L ++ A) N (C ++ R) =
      (if A.all Group.isMergeable then L.rdropWhile Group.isMergeable else L) ++
        replaced A N C ++ if C.all Group.isMergeable then R.dropWhile Group.isMergeable else R := by
  have hA : A.all Group.isMergeable = true → A.rdropWhile Group.isMergeable = [] := by simp
  have hC : C.dropWhile Group.isMergeable = [] ↔ C.all Group.isMergeable = true := by simp
  rw [replaced, replaced, rdropWhile_append, List.dropWhile_append]
  by_cases hc : C.all Group.isMergeable = true
  · by_cases ha : A.all Group.isMergeable = true <;> simp [ha, hc, hA, hC.mpr hc]
  · by_cases ha : A.all Group.isMergeable = true <;>
      simp [ha, hc, hA, mt hC.mp hc]

theorem replaced_append_sublist (L A N C R : List Group) :
    ∃ L' R', L'.Sublist L ∧ R'.Sublist R ∧
      replaced (L ++ A) N (C ++ R) = L' ++ replaced A N C ++ R' := by
  refine ⟨_, _, ?_, ?_, replaced_append L A N C R⟩
  · split
    · exact (List.rdropWhile_prefix _ L).sublist
    · exact .refl L
  · split
    · exact List.dropWhile_sublist _
    · exact .refl R

theorem mem_replaced (h : g ∈ replaced A N C) : g ∈ A ∨ g ∈ N ∨ g ∈ C := by
  rcases List.mem_append.mp h with h | h
  · rcases List.mem_append.mp h with h | h
    · exact Or.inl ((List.rdropWhile_prefix _ A).subset h)
    · exact Or.inr (Or.inl h)
  · exact Or.inr (Or.inr ((List.dropWhile_sublist _).subset h))

theorem map_replaced {f : Group → Group} (hf : ∀ g, (f g).isMergeable = g.isMergeable)
    (A N C : List Group) : (replaced A N C).map f = replaced (A.map f) (N.map f) (C.map f) := by
  have hd (l : List Group) :
      (l.map f).dropWhile Group.isMergeable = (l.dropWhile Group.isMergeable).map f := by
    rw [List.dropWhile_map]
    simp only [Function.comp_def, hf]
  have hr : (A.map f).rdropWhile Group.isMergeable = (A.rdropWhile Group.isMergeable).map f := by
    simp only [List.rdropWhile, ← List.map_reverse, hd]
  simp only [replaced, List.map_append, hd, hr]

end Replaced

/-- A group with nothing selected. -/
def Group.unselect (g : Group) : Group :=
  { g with rows := g.rows.map fun r => { r with selected := false } }

namespace Table

variable {b : List UInt64}

theorem modify_middle (A B : List Group) (g : Group) (f : Group → Group) :
    (A ++ g :: B).modify A.length f = A ++ f g :: B := by
  induction A with
  | nil => rfl
  | cons a A ih => simp [ih]

theorem absorbBefore_eq (A B : List Group) :
    (Table.mk (A ++ B) (rowIndex (A ++ B)) b).absorbBefore A.length =
      let A' := A.rdropWhile Group.isMergeable
      (⟨A' ++ B, rowIndex (A' ++ B), b⟩, A'.length) := by
  induction A using List.reverseRecOn with
  | nil => simp [absorbBefore]
  | append_singleton A g ih =>
    rw [List.length_append, List.length_singleton, absorbBefore, List.rdropWhile_concat]
    by_cases hg : g.isMergeable = true
    · simpa [hg, removeGroup, List.eraseIdx_append_of_length_le] using ih
    · simp [hg]

theorem absorbFrom_eq (A B : List Group) (fuel : Nat) (hf : B.length ≤ fuel) :
    (Table.mk (A ++ B) (rowIndex (A ++ B)) b).absorbFrom A.length fuel =
      let B' := B.dropWhile Group.isMergeable
      ⟨A ++ B', rowIndex (A ++ B'), b⟩ := by
  induction B generalizing fuel with
  | nil => cases fuel <;> simp [absorbFrom]
  | cons g B ih =>
    obtain ⟨fuel, rfl⟩ : ∃ n, fuel = n + 1 := ⟨fuel - 1, by simp at hf; omega⟩
    by_cases hg : g.isMergeable = true
    · simpa [absorbFrom, hg, removeGroup, List.eraseIdx_append_of_length_le] using
        ih fuel (by simpa using hf)
    · simp [absorbFrom, hg]

theorem keepFirstCollapse_eq (A F B : List Group) (i : List (Nat × Nat)) (seen : Bool) :
    (Table.mk (A ++ F ++ B) i b).keepFirstCollapse A.length seen F.length =
      ⟨A ++ keepFirst seen F ++ B, i, b⟩ := by
  induction F generalizing A seen with
  | nil => simp [keepFirstCollapse, keepFirst]
  | cons g F ih =>
    have hstep := ih (A ++ [if g.collapsible then { g with collapsible := !seen } else g])
      (seen || g.collapsible)
    rw [List.length_append, List.length_singleton] at hstep
    rw [List.length_cons, keepFirstCollapse]
    by_cases hg : g.collapsible = true
    · simpa [hg, modifyGroup, modify_middle, keepFirst] using hstep
    · simpa [hg, keepFirst] using hstep

theorem markPartly_eq (A F B : List Group) (i : List (Nat × Nat)) :
    (Table.mk (A ++ F ++ B) i b).markPartly A.length F.length =
      ⟨A ++ F.map Group.markPartly ++ B, i, b⟩ := by
  induction F generalizing A with
  | nil => simp [markPartly]
  | cons g F ih =>
    have hstep := ih (A ++ [g.markPartly])
    rw [List.length_append, List.length_singleton] at hstep
    rw [List.length_cons, markPartly]
    simpa [modifyGroup, modify_middle, Group.markPartly] using hstep

/-- The groups of a fragment come to stand between what is left of the groups around the target,
and the table is indexed anew. -/
theorem insertFragment_eq (A C : List Group) (g : Group) (i : List (Nat × Nat)) (e : Extent)
    (f : Fragment) :
    (Table.mk (A ++ g :: C) i b).insertFragment A.length e f =
      let start := (A.rdropWhile Group.isMergeable).length
      (ofGroups (replaced A (settled e f.groups) C), ⟨start, start + f.groups.length⟩) := by
  have hs : (Table.mk (A ++ g :: C) i b).splice A.length f.groups =
      ⟨A ++ (f.groups ++ C), rowIndex (A ++ (f.groups ++ C)), b⟩ := by
    simp [splice]
  simp only [insertFragment, hs, absorbBefore_eq, replaced]
  generalize A.rdropWhile Group.isMergeable = A'
  have ha := absorbFrom_eq (b := b) (A' ++ f.groups) C
    (A' ++ (f.groups ++ C)).length (by simp; omega)
  rw [List.append_assoc, List.length_append] at ha
  rw [ha, keepFirstCollapse_eq]
  have hx : rowIndex (A' ++ f.groups ++ C.dropWhile Group.isMergeable) =
      rowIndex (A' ++ settled e f.groups ++ C.dropWhile Group.isMergeable) := by
    apply rowIndex_congr
    have hl := map_settled (f := fun g => g.rows.length) (fun _ _ => rfl) (fun _ _ => rfl) e
      f.groups
    simp only [List.map_append, hl]
  rw [hx]
  cases e with
  | ends above below =>
    have hk := length_keepFirst false f.groups
    simp only [settled]
    rw [← hk, markPartly_eq]
    rfl
  | whole => rfl
  | hidden => rfl

theorem clearSelected_ofGroups (gs : List Group) :
    (ofGroups gs).clearSelected = ofGroups (gs.map Group.unselect) := by
  have hi : rowIndex (gs.map Group.unselect) = rowIndex gs :=
    rowIndex_congr (by simp [Group.unselect, Function.comp_def])
  have hb : collapsibleChunks (gs.map Group.unselect) = collapsibleChunks gs := by
    simp [collapsibleChunks, List.filter_map, Function.comp_def, Group.unselect]
  rw [ofGroups, ofGroups, clearSelected, hi, hb]
  rfl

end Table

/-- Whether a group is one that the answer to a request can take the place of. -/
def Request.fits (r : Request) (g : Group) : Bool :=
  g.chunk == r.chunk && if r.isCollapse then g.collapsible else g.isPlaceholder

/-- Groups taken apart at the first one that fits a request. -/
structure TargetAt (r : Request) (gs before : List Group) (target : Group)
    (after : List Group) : Prop where
  split : gs = before ++ target :: after
  fits : r.fits target = true
  first : ∀ g ∈ before, r.fits g = false

/-- A member in the middle of a list is on one side of a seam in it. -/
theorem split_cases {α : Type} {L X A C : List α} {t : α} (h : L ++ X = A ++ t :: C) :
    (∃ A', A = L ++ A' ∧ X = A' ++ t :: C) ∨ ∃ C', C = C' ++ X ∧ L = A ++ t :: C' := by
  rcases List.append_eq_append_iff.mp h with ⟨A', hA, hX⟩ | ⟨Y, hL, hX⟩
  · exact Or.inl ⟨A', hA, hX⟩
  · rcases List.cons_eq_append_iff.mp hX with ⟨rfl, hX⟩ | ⟨C', rfl, hC⟩
    · exact Or.inl ⟨[], by simpa using hL.symm, by simpa using hX.symm⟩
    · exact Or.inr ⟨C', hC, hL⟩

section Target

variable {r : Request} {gs A A' C C' : List Group} {g g' : Group}

theorem Request.chunk_of_fits (h : r.fits g = true) : g.chunk = r.chunk := by
  simp only [Request.fits, Bool.and_eq_true, beq_iff_eq] at h
  exact h.1

theorem Request.placeholder_of_fits (h : r.fits g = true) (hr : r.isCollapse = false) :
    g.isPlaceholder = true := by
  simpa [hr] using (Bool.and_eq_true_iff.mp h).2

theorem Request.collapsible_of_fits (h : r.fits g = true) (hr : r.isCollapse = true) :
    g.collapsible = true := by
  simpa [hr] using (Bool.and_eq_true_iff.mp h).2

theorem TargetAt.findIdx? (h : TargetAt r gs A g C) : gs.findIdx? r.fits = some A.length := by
  rw [h.split, List.findIdx?_append, List.findIdx?_eq_none_iff.mpr h.first, List.findIdx?_cons]
  simp [h.fits]

theorem exists_targetAt {p : Nat} (h : gs.findIdx? r.fits = some p) :
    ∃ A g C, TargetAt r gs A g C ∧ A.length = p := by
  obtain ⟨hp, hfits, hfirst⟩ := List.findIdx?_eq_some_iff_getElem.mp h
  refine ⟨gs.take p, gs[p], gs.drop (p + 1), ⟨?_, hfits, ?_⟩, by simp; omega⟩
  · rw [← List.drop_eq_getElem_cons hp, List.take_append_drop]
  · intro a ha
    obtain ⟨i, hi, rfl⟩ := List.mem_take_iff_getElem.mp ha
    simpa using hfirst i (by omega)

/-- There is one way only to take groups apart at their target. -/
theorem TargetAt.unique (h : TargetAt r gs A g C) (h' : TargetAt r gs A' g' C') :
    A = A' ∧ g = g' ∧ C = C' := by
  have hlen : A.length = A'.length := Option.some.inj (h.findIdx?.symm.trans h'.findIdx?)
  obtain ⟨hA, hC⟩ := List.append_inj (h.split.symm.trans h'.split) hlen
  exact ⟨hA, List.cons.inj hC⟩

theorem TargetAt.before_eq (h : TargetAt r gs A g C) : A = gs.takeWhile fun k => !r.fits k := by
  rw [h.split, List.takeWhile_append_of_pos fun k hk => by simp [h.first k hk]]
  simp [h.fits]

theorem TargetAt.after_eq (h : TargetAt r gs A g C) :
    C = (gs.dropWhile fun k => !r.fits k).tail := by
  rw [h.split, List.dropWhile_append_of_pos fun k hk => by simp [h.first k hk]]
  simp [h.fits]

/-- A change that no request sees leaves the target where it is. -/
theorem TargetAt.map {f : Group → Group} (h : TargetAt r gs A g C)
    (hf : ∀ g, r.fits (f g) = r.fits g) : TargetAt r (gs.map f) (A.map f) (f g) (C.map f) := by
  refine ⟨by simp [h.split], (hf g).trans h.fits, fun k hk => ?_⟩
  obtain ⟨k', hk', rfl⟩ := List.mem_map.mp hk
  exact (hf k').trans (h.first k' hk')

theorem Table.target?_eq (t : Table) (r : Request) : t.target? r = t.groups.findIdx? r.fits := by
  unfold target? collapsible? placeholder? Request.fits
  split <;> simp_all

theorem Table.applyFragment_ok {t : Table} {f : Fragment} (h : TargetAt r t.groups A g C)
    (hf : f.groups ≠ []) :
    t.applyFragment r (.ok f) =
      let start := (A.rdropWhile Group.isMergeable).length
      .ok (.ofGroups (replaced A (settled r.extent f.groups) C),
        ⟨start, start + f.groups.length⟩) := by
  have hins := Table.insertFragment_eq (b := t.buttons) A C g t.index r.extent f
  rw [← h.split] at hins
  rw [Table.applyFragment, Table.target?_eq, h.findIdx?]
  simp only [if_neg hf, hins]

end Target

namespace Session

variable {s : Session} {r : Request} {f : Fragment} {A C : List Group} {g : Group}

/-- The session after an answer was worked in between what stood around its target. -/
def answered (s : Session) (r : Request) (f : Fragment) (before after : List Group) : Session :=
  { s with
    selector := .idle
    table := .ofGroups
      ((replaced before (settled r.extent f.groups) after).map Group.unselect) }

theorem applyFragment_fetch (s : Session) (r : Request) (cause : FetchError) :
    s.applyFragment r (.error cause) = .error (.fetch r.chunk cause) := rfl

theorem applyFragment_gone (h : ∀ g ∈ s.table.groups, r.fits g = false) (f : Fragment) :
    s.applyFragment r (.ok f) = .error (.gone r.chunk) := by
  rw [applyFragment, Table.applyFragment, Table.target?_eq, List.findIdx?_eq_none_iff.mpr h]

theorem applyFragment_empty (h : TargetAt r s.table.groups A g C) (hf : f.groups = []) :
    s.applyFragment r (.ok f) = .error (.emptyFragment r.chunk) := by
  rw [applyFragment, Table.applyFragment, Table.target?_eq, h.findIdx?]
  simp [hf]

theorem applyFragment_ok (h : TargetAt r s.table.groups A g C) (hf : f.groups ≠ []) :
    s.applyFragment r (.ok f) = .ok (s.answered r f A C, [.expansionChanged]) := by
  rw [applyFragment, Table.applyFragment_ok h hf]
  simp only [resetSelection, Table.clearSelected_ofGroups, answered]

/-- All that can come of an answer: a refusal for one of three causes, or a new table. -/
theorem applyFragment_cases (s : Session) (r : Request) (result : FetchResult) :
    (∃ cause, result = .error cause ∧
      s.applyFragment r result = .error (.fetch r.chunk cause)) ∨
    (∃ f, result = .ok f ∧ (∀ g ∈ s.table.groups, r.fits g = false) ∧
      s.applyFragment r result = .error (.gone r.chunk)) ∨
    (∃ f A g C, result = .ok f ∧ f.groups = [] ∧ TargetAt r s.table.groups A g C ∧
      s.applyFragment r result = .error (.emptyFragment r.chunk)) ∨
    (∃ f A g C, result = .ok f ∧ f.groups ≠ [] ∧ TargetAt r s.table.groups A g C ∧
      s.applyFragment r result = .ok (s.answered r f A C, [.expansionChanged])) := by
  cases result with
  | error cause => exact Or.inl ⟨cause, rfl, applyFragment_fetch s r cause⟩
  | ok f =>
    right
    cases hp : s.table.groups.findIdx? r.fits with
    | none =>
      have hnone := List.findIdx?_eq_none_iff.mp hp
      exact Or.inl ⟨f, rfl, hnone, applyFragment_gone hnone f⟩
    | some p =>
      obtain ⟨A, g, C, h, -⟩ := exists_targetAt hp
      right
      by_cases hf : f.groups = []
      · exact Or.inl ⟨f, A, g, C, rfl, hf, h, applyFragment_empty h hf⟩
      · exact Or.inr ⟨f, A, g, C, rfl, hf, h, applyFragment_ok h hf⟩

end Session

end Marginalia.Diff
