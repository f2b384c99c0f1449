/-! Lists cut where a run of members ends that satisfy a predicate. -/

namespace Marginalia

variable {α : Type} {p : α → Bool} {u rest : List α}

/-- No run of members that satisfy `p` goes on here. -/
def Stops (p : α → Bool) (rest : List α) : Prop := ∀ c, rest.head? = some c → p c = false

@[simp] theorem stops_nil : Stops p [] := by simp [Stops]

@[simp] theorem stops_cons {c : α} : Stops p (c :: rest) ↔ p c = false := by simp [Stops]

theorem stops_append (h : Stops p u) (hne : u ≠ []) : Stops p (u ++ rest) := by
  cases u with
  | nil => exact absurd rfl hne
  | cons c u => exact stops_cons.mpr (stops_cons.mp h)

theorem Stops.append (h : Stops p u) (hr : Stops p rest) : Stops p (u ++ rest) := by
  cases u with
  | nil => exact hr
  | cons c u => exact stops_cons.mpr (stops_cons.mp h)

theorem Stops.of_append (h : Stops p (u ++ rest)) : Stops p u := by
  cases u with
  | nil => exact stops_nil
  | cons c u => exact stops_cons.mpr (stops_cons.mp h)

theorem takeWhile_eq_nil (h : Stops p rest) : rest.takeWhile p = [] := by
  cases rest with
  | nil => rfl
  | cons c rest => simp [stops_cons.mp h]

theorem dropWhile_eq_self (h : Stops p rest) : rest.dropWhile p = rest := by
  cases rest with
  | nil => rfl
  | cons c rest => simp [stops_cons.mp h]

theorem takeWhile_run (hu : ∀ c ∈ u, p c = true) (hr : Stops p rest) :
    (u ++ rest).takeWhile p = u := by
  rw [List.takeWhile_append_of_pos hu, takeWhile_eq_nil hr, List.append_nil]

theorem dropWhile_run (hu : ∀ c ∈ u, p c = true) (hr : Stops p rest) :
    (u ++ rest).dropWhile p = rest := by
  rw [List.dropWhile_append_of_pos hu, dropWhile_eq_self hr]

theorem stops_dropWhile (p : α → Bool) (l : List α) : Stops p (l.dropWhile p) := by
  have h := List.head?_dropWhile_not p l
  intro c hc
  rw [hc] at h
  exact h

theorem of_mem_takeWhile {l : List α} : ∀ c ∈ l.takeWhile p, p c = true :=
  List.all_eq_true.mp List.all_takeWhile

end Marginalia
