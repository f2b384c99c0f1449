import Marginalia.Proofs.Diff.Answer

/-! Answers that are refused. Worked in place, an answer passes all its checks before anything is
changed, so a refusal leaves no trace, whatever is selected or under the pointer. -/

namespace Marginalia.Diff

/-- Work on a state in place. It may break off, and what was done until then stays done. -/
abbrev InPlace (σ α : Type) := ExceptT ExpansionError (StateM σ) α

/-- Work on the table of a session. -/
def Session.onTable {α : Type} (x : InPlace Table α) : InPlace Session α :=
  ExceptT.mk fun s =>
    let (outcome, t) := x.run s.table
    (outcome, { s with table := t })

/-- Works an answer into a table in place. -/
def Table.workIn (r : Request) (result : FetchResult) : InPlace Table Positions := do
  let f ← match result with
    | .ok f => pure f
    | .error cause => throw (.fetch r.chunk cause)
  match (← get).target? r with
  | none => throw (.gone r.chunk)
  | some position =>
    if f.groups = [] then throw (.emptyFragment r.chunk)
    else modifyGet fun t => (t.insertFragment position r.extent f).swap

/-- Works an answer into a session in place. The selection is reset once the table is changed. -/
def Session.workIn (r : Request) (result : FetchResult) : InPlace Session (List Event) := do
  let _ ← Session.onTable (Table.workIn r result)
  modify resetSelection
  return [.expansionChanged]

/-- Work that breaks off ends there, with the state that it had reached. -/
theorem InPlace.run_bind {σ α β : Type} (x : InPlace σ α) (f : α → InPlace σ β) (s : σ) :
    (x >>= f).run s =
      match x.run s with
      | (.ok a, s') => (f a).run s'
      | (.error e, s') => (.error e, s') := by
  change (match x.run s with | (a, s') => ExceptT.bindCont f a s') = _
  rcases x.run s with ⟨_ | a, s'⟩ <;> rfl

theorem Table.run_workIn (t : Table) (r : Request) (result : FetchResult) :
    (Table.workIn r result).run t =
      match t.applyFragment r result with
      | .ok (t', positions) => (.ok positions, t')
      | .error e => (.error e, t) := by
  cases result with
  | error cause => rfl
  | ok f =>
    have hget : (get : InPlace Table Table).run t = (.ok t, t) := rfl
    rw [Table.workIn, pure_bind, InPlace.run_bind, hget, Table.applyFragment]
    dsimp only
    cases t.target? r with
    | none => rfl
    | some position =>
      by_cases hf : f.groups = []
      · simp only [if_pos hf]
        rfl
      · simp only [if_neg hf]
        rfl

theorem Session.run_workIn (s : Session) (r : Request) (result : FetchResult) :
    (Session.workIn r result).run s =
      match s.applyFragment r result with
      | .ok (s', es) => (.ok es, s')
      | .error e => (.error e, s) := by
  have ht : (Session.onTable (Table.workIn r result)).run s =
      match s.table.applyFragment r result with
      | .ok (t', positions) => (.ok positions, { s with table := t' })
      | .error e => (.error e, s) := by
    change (match (Table.workIn r result).run s.table with
      | (outcome, t) => (outcome, { s with table := t })) = _
    rw [Table.run_workIn]
    cases s.table.applyFragment r result <;> rfl
  rw [Session.workIn, InPlace.run_bind, ht, Session.applyFragment]
  cases s.table.applyFragment r result <;> rfl

namespace Session

variable {s s' : Session} {r : Request} {result : FetchResult} {e : ExpansionError}
  {es : List Event}

/-- The refusals of an answer. One that was not fetched comes before a target that has gone, and
that before an answer without groups. -/
inductive Refuses (s : Session) (r : Request) : FetchResult → ExpansionError → Prop where
  | fetch (cause : FetchError) : Refuses s r (.error cause) (.fetch r.chunk cause)
  | gone {f : Fragment} (h : ∀ g ∈ s.table.groups, r.fits g = false) :
    Refuses s r (.ok f) (.gone r.chunk)
  | empty {f : Fragment} {g : Group} (hg : g ∈ s.table.groups) (h : r.fits g = true)
    (hf : f.groups = []) : Refuses s r (.ok f) (.emptyFragment r.chunk)

theorem applyFragment_eq_error_iff :
    s.applyFragment r result = .error e ↔ s.Refuses r result e := by
  obtain ⟨cause, rfl, he⟩ | ⟨f, rfl, hnone, he⟩ | ⟨f, A, g, C, rfl, hf, ht, he⟩ |
      ⟨f, A, g, C, rfl, hf, ht, he⟩ := s.applyFragment_cases r result
  · rw [he, Except.error.injEq]
    refine ⟨fun h => h ▸ .fetch cause, fun h => ?_⟩
    cases h
    rfl
  · rw [he, Except.error.injEq]
    refine ⟨fun h => h ▸ .gone hnone, fun h => ?_⟩
    cases h with
    | gone => rfl
    | empty hg hfits => exact absurd hfits (by simp [hnone _ hg])
  · have hg : g ∈ s.table.groups := by simp [ht.split]
    rw [he, Except.error.injEq]
    refine ⟨fun h => h ▸ .empty hg ht.fits hf, fun h => ?_⟩
    cases h with
    | gone hnone => exact absurd ht.fits (by simp [hnone _ hg])
    | empty => rfl
  · have hg : g ∈ s.table.groups := by simp [ht.split]
    rw [he]
    refine ⟨(by cases ·), fun h => ?_⟩
    cases h with
    | gone hnone => exact absurd ht.fits (by simp [hnone _ hg])
    | empty _ _ hempty => exact absurd hempty hf

theorem exists_refuses_iff : (∃ e, s.Refuses r result e) ↔
    (∃ cause, result = .error cause) ∨ (∀ g ∈ s.table.groups, r.fits g = false) ∨
      result = .ok ⟨[]⟩ := by
  constructor
  · rintro ⟨e, h⟩
    cases h with
    | fetch cause => exact Or.inl ⟨cause, rfl⟩
    | gone h => exact Or.inr (Or.inl h)
    | @empty f _ _ _ hf =>
      obtain ⟨gs⟩ := f
      obtain rfl : gs = [] := hf
      exact Or.inr (Or.inr rfl)
  · rintro (⟨cause, rfl⟩ | hnone | rfl)
    · exact ⟨_, .fetch cause⟩
    · cases result with
      | error cause => exact ⟨_, .fetch cause⟩
      | ok f => exact ⟨_, .gone hnone⟩
    · by_cases hnone : ∀ g ∈ s.table.groups, r.fits g = false
      · exact ⟨_, .gone hnone⟩
      · obtain ⟨g, hg, hfits⟩ : ∃ g ∈ s.table.groups, r.fits g = true := by simpa using hnone
        exact ⟨_, .empty hg hfits rfl⟩

/-- A change of the table is told once, and the selection ends with it. -/
theorem reset_applyFragment (h : s.applyFragment r result = .ok (s', es)) :
    es = [.expansionChanged] ∧ s'.selector = .idle ∧
      ∀ row ∈ s'.table.rows, row.selected = false := by
  unfold applyFragment at h
  split at h
  · next t positions _ =>
    obtain ⟨rfl, rfl⟩ := Prod.mk.inj (Except.ok.inj h)
    refine ⟨rfl, rfl, fun row hrow => ?_⟩
    change row ∈ t.clearSelected.rows at hrow
    rw [Table.clearSelected_groups_rows] at hrow
    obtain ⟨row', -, rfl⟩ := List.mem_map.mp hrow
    rfl
  · cases h

/-- What comes of an answer that is worked in place, and the session that is left. -/
structure Received (s : Session) (r : Request) (result : FetchResult)
    (outcome : Except ExpansionError (List Event)) (s' : Session) : Prop where
  same : s.applyFragment r result = outcome.map fun es => (s', es)
  refused : ∀ e, outcome = .error e ↔ s.Refuses r result e
  fails : (∃ e, outcome = .error e) ↔
    (∃ cause, result = .error cause) ∨ (∀ g ∈ s.table.groups, r.fits g = false) ∨
      result = .ok ⟨[]⟩
  unchanged : ∀ e, outcome = .error e → s' = s
  reset : ∀ es, outcome = .ok es →
    es = [.expansionChanged] ∧ s'.selector = .idle ∧ ∀ row ∈ s'.table.rows, row.selected = false

/-- Whatever the session, the request and its answer are: a refusal has the first cause that there
is and leaves the session as it was, and all else ends the selection. -/
theorem received (s : Session) (r : Request) (result : FetchResult) :
    s.Received r result ((workIn r result).run s).1 ((workIn r result).run s).2 := by
  have hfails : (∃ e, s.applyFragment r result = .error e) ↔
      (∃ cause, result = .error cause) ∨ (∀ g ∈ s.table.groups, r.fits g = false) ∨
        result = .ok ⟨[]⟩ := by
    simp only [applyFragment_eq_error_iff, exists_refuses_iff]
  rw [run_workIn]
  cases h : s.applyFragment r result with
  | error e =>
    rw [h] at hfails
    refine ⟨h, fun e' => ?_, by simpa using hfails, fun _ _ => rfl, fun es hes => ?_⟩
    · rw [← applyFragment_eq_error_iff, h]
      simp
    · cases hes
  | ok p =>
    rw [h] at hfails
    refine ⟨h, fun e' => ?_, by simpa using hfails, fun e' he => ?_, fun es hes => ?_⟩
    · rw [← applyFragment_eq_error_iff, h]
      simp
    · cases he
    · obtain rfl := Except.ok.inj hes
      exact reset_applyFragment h

end Session

end Marginalia.Diff
