import Marginalia.Decimal.Natural

/-! Decimal digits of numbers: they are digits, they lead with a zero only where there is no other,
and they stand for the number that they were written for. -/

namespace Marginalia.Decimal

variable {c : Char} {cs : List Char} {d n : Nat}

theorem digitChar_facts (h : d < 10) :
    Text.isDigit (digitChar d) = true ∧ digitValue (digitChar d) = d := by
  revert d
  decide

theorem isDigit_of_mem_digits (hc : c ∈ digits n) : Text.isDigit c = true := by
  fun_induction digits n with
  | case1 n h =>
    rw [List.mem_singleton] at hc
    exact hc ▸ (digitChar_facts h).1
  | case2 n h ih =>
    rcases List.mem_append.mp hc with hc | hc
    · exact ih hc
    · rw [List.mem_singleton] at hc
      exact hc ▸ (digitChar_facts (by omega)).1

theorem digits_ne_nil (n : Nat) : digits n ≠ [] := by
  rw [digits]
  split <;> simp

theorem head?_digits_ne_zero (h : 0 < n) : (digits n).head? ≠ some '0' := by
  fun_induction digits n with
  | case1 n hn =>
    revert n
    decide
  | case2 n hn ih =>
    have hq : 0 < n / 10 := by omega
    obtain ⟨c, cs, hcs⟩ := List.exists_cons_of_ne_nil (digits_ne_nil (n / 10))
    rw [hcs] at ih ⊢
    exact ih hq

theorem value_concat (cs : List Char) (c : Char) :
    value (cs ++ [c]) = value cs * 10 + digitValue c := by
  rw [value, value, List.foldl_append, List.foldl_cons, List.foldl_nil]

@[simp] theorem value_digits (n : Nat) : value (digits n) = n := by
  fun_induction digits n with
  | case1 n h =>
    have hn := (digitChar_facts h).2
    simp [value, hn]
  | case2 n h ih =>
    have hn := (digitChar_facts (d := n % 10) (by omega)).2
    rw [value_concat, ih, hn]
    omega

/-- What further digits add to a number never makes it smaller. -/
theorem le_foldl_digits (cs : List Char) (n : Nat) :
    n ≤ cs.foldl (fun n c => n * 10 + digitValue c) n := by
  induction cs generalizing n with
  | nil => exact Nat.le_refl n
  | cons c cs ih =>
    have hstep := ih (n * 10 + digitValue c)
    rw [List.foldl_cons]
    omega

end Marginalia.Decimal
