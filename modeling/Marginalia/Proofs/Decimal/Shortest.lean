import Mathlib.Algebra.Order.Field.Basic
import Mathlib.Algebra.Order.Field.Power
import Mathlib.Algebra.Order.Ring.Rat
import Mathlib.Tactic.Linarith
import Mathlib.Tactic.Positivity
import Mathlib.Tactic.Ring
import Marginalia.Decimal.Shortest

/-! The reals that round to a double, and the decimal that is searched for among them. The
intervals of two doubles have no real in common, and every search ends with a hit. -/

namespace Marginalia.Decimal

/-- What a decimal stands for. -/
def Shortest.value (s : Shortest) : ℚ := s.digits * (10 : ℚ) ^ s.exponent

namespace Binary

/-- Mantissa and exponent as doubles have them: the mantissa is full but at the least exponent,
and the gap below is narrow where it is the least full one. -/
structure Legal (b : Binary) : Prop where
  mantissa : b.mantissa < 2 ^ 53
  lowest : -1074 ≤ b.exponent
  full : -1074 < b.exponent → 2 ^ 52 ≤ b.mantissa
  narrow : b.narrowBelow = true ↔ b.mantissa = 2 ^ 52 ∧ -1074 < b.exponent

/-- Four times the least real that rounds to a double. -/
def low (b : Binary) : ℚ := (4 * b.mantissa - if b.narrowBelow then 1 else 2) * (2 : ℚ) ^ b.exponent

/-- Four times the greatest one. -/
def high (b : Binary) : ℚ := (4 * b.mantissa + 2) * (2 : ℚ) ^ b.exponent

/-- A real rounds to a double. The ends of the interval do so where the mantissa is even. -/
structure Rounds (b : Binary) (x : ℚ) : Prop where
  above : b.low ≤ 4 * x
  below : 4 * x ≤ b.high
  inner : b.mantissa % 2 = 1 → b.low < 4 * x ∧ 4 * x < b.high

section Intervals

variable {bits : UInt64} {b b' : Binary} {x : ℚ}

theorem legal_ofBits (bits : UInt64) : (ofBits bits).Legal := by
  have hfraction : bits.toNat % 2 ^ 52 < 2 ^ 52 := Nat.mod_lt _ (by decide)
  simp only [ofBits, Nat.pow_eq]
  split
  · exact ⟨by dsimp only; omega, le_refl _, fun h => absurd h (lt_irrefl _), by simp⟩
  · next he =>
    refine ⟨by dsimp only; omega, by dsimp only; omega, fun _ => by dsimp only; omega, ?_⟩
    simp only [Bool.and_eq_true, decide_eq_true_eq]
    omega

theorem mantissa_pos (h : bits.toNat % 2 ^ 63 ≠ 0) : 0 < (ofBits bits).mantissa := by
  simp only [ofBits, Nat.pow_eq]
  split
  · dsimp only
    omega
  · dsimp only
    omega

theorem two_mul_zpow_le {e e' : Int} (h : e < e') : 2 * (2 : ℚ) ^ e ≤ 2 ^ e' := by
  have hsucc : (2 : ℚ) ^ (e + 1) ≤ 2 ^ e' := zpow_le_zpow_right₀ (by norm_num) h
  rw [zpow_add_one₀ (by norm_num)] at hsucc
  linarith

/-- Below the least full mantissa the greatest real is as far away as the narrow gap allows. -/
theorem high_le_low_of_least (h : b.Legal) (h' : b'.Legal) (hlt : b.exponent < b'.exponent)
    (hleast : b'.mantissa = 2 ^ 52) :
    b.high < b'.low ∨ b.high = b'.low ∧ b.mantissa % 2 = 1 := by
  have hnarrow := h'.narrow.mpr ⟨hleast, lt_of_le_of_lt h.lowest hlt⟩
  have hleast' : (b'.mantissa : ℚ) = 2 ^ 52 := by exact_mod_cast hleast
  have hpos : (0 : ℚ) < 2 ^ b.exponent := by positivity
  unfold high low
  rw [hnarrow, if_pos rfl, hleast']
  have htop : (4 * (2 : ℚ) ^ 52 - 1) * (2 * 2 ^ b.exponent) ≤ (4 * 2 ^ 52 - 1) * 2 ^ b'.exponent :=
    mul_le_mul_of_nonneg_left (two_mul_zpow_le hlt) (by norm_num)
  rcases Nat.lt_or_ge (b.mantissa + 1) (2 ^ 53) with hsmall | hlast
  · left
    have hm : (b.mantissa : ℚ) + 1 + 1 ≤ 2 ^ 53 := by exact_mod_cast hsmall
    nlinarith
  · have hodd : b.mantissa + 1 = 2 ^ 53 := le_antisymm h.mantissa hlast
    have hodd' : (b.mantissa : ℚ) + 1 = 2 ^ 53 := by exact_mod_cast hodd
    have hmid : (4 * (b.mantissa : ℚ) + 2) * 2 ^ b.exponent =
        (4 * 2 ^ 52 - 1) * (2 * 2 ^ b.exponent) := by
      rw [eq_sub_of_add_eq hodd']
      ring
    rcases htop.lt_or_eq with hgap | htouch
    · exact Or.inl (hmid ▸ hgap)
    · exact Or.inr ⟨hmid.trans htouch, by omega⟩

/-- Above the least full mantissa the gap below is wide. -/
theorem high_lt_low_of_above (h : b.Legal) (h' : b'.Legal) (hlt : b.exponent < b'.exponent)
    (habove : b'.mantissa ≠ 2 ^ 52) : b.high < b'.low := by
  have hfull := h'.full (lt_of_le_of_lt h.lowest hlt)
  have hpos : (0 : ℚ) < 2 ^ b.exponent := by positivity
  have hm : (b.mantissa : ℚ) + 1 ≤ 2 ^ 53 := by exact_mod_cast h.mantissa
  have hm' : (2 : ℚ) ^ 52 + 1 ≤ b'.mantissa := by
    have : 2 ^ 52 + 1 ≤ b'.mantissa := by omega
    exact_mod_cast this
  have hgap : (4 * (b'.mantissa : ℚ) - 2) * (2 * 2 ^ b.exponent) ≤
      (4 * b'.mantissa - 2) * 2 ^ b'.exponent :=
    mul_le_mul_of_nonneg_left (two_mul_zpow_le hlt) (by linarith)
  have hwide : b'.narrowBelow = false :=
    Bool.eq_false_iff.mpr fun hn => habove (h'.narrow.mp hn).1
  unfold high low
  rw [hwide]
  simp only [Bool.false_eq_true, if_false]
  nlinarith

/-- With one exponent, neighbours touch, and every other mantissa is odd. -/
theorem high_le_low_of_mantissa (he : b.exponent = b'.exponent) (hlt : b.mantissa < b'.mantissa) :
    b.high < b'.low ∨ b.high = b'.low ∧ (b.mantissa % 2 = 1 ∨ b'.mantissa % 2 = 1) := by
  have hpos : (0 : ℚ) < 2 ^ b.exponent := by positivity
  have hm : (b.mantissa : ℚ) + 1 ≤ b'.mantissa := by exact_mod_cast hlt
  unfold high low
  rw [← he]
  have hgap : (if b'.narrowBelow = true then (1 : ℚ) else 2) ≤ 2 := by
    split <;> norm_num
  have hle : (4 * (b.mantissa : ℚ) + 2) ≤
      4 * b'.mantissa - if b'.narrowBelow = true then (1 : ℚ) else 2 := by
    linarith
  rcases hle.lt_or_eq with hlt' | htouch
  · exact Or.inl (mul_lt_mul_of_pos_right hlt' hpos)
  · refine Or.inr ⟨by rw [htouch], ?_⟩
    have hnext : (b.mantissa : ℚ) + 1 = b'.mantissa := by linarith
    have hnext : b.mantissa + 1 = b'.mantissa := by exact_mod_cast hnext
    omega

/-- The intervals of two doubles lie one after the other. Where they touch, one of the mantissas
is odd. -/
theorem high_le_low (h : b.Legal) (h' : b'.Legal) (hlt : b.exponent < b'.exponent ∨
    b.exponent = b'.exponent ∧ b.mantissa < b'.mantissa) :
    b.high < b'.low ∨ b.high = b'.low ∧ (b.mantissa % 2 = 1 ∨ b'.mantissa % 2 = 1) := by
  rcases hlt with hlt | ⟨he, hlt⟩
  · by_cases hleast : b'.mantissa = 2 ^ 52
    · exact (high_le_low_of_least h h' hlt hleast).imp_right (And.imp_right Or.inl)
    · exact Or.inl (high_lt_low_of_above h h' hlt hleast)
  · exact high_le_low_of_mantissa he hlt

/-- A real rounds to one double. -/
theorem eq_of_rounds (h : b.Legal) (h' : b'.Legal) (hx : b.Rounds x) (hx' : b'.Rounds x) :
    b.mantissa = b'.mantissa ∧ b.exponent = b'.exponent := by
  have hapart {b b' : Binary} (h : b.Legal) (h' : b'.Legal) (hx : b.Rounds x)
      (hx' : b'.Rounds x) : ¬ (b.exponent < b'.exponent ∨
        b.exponent = b'.exponent ∧ b.mantissa < b'.mantissa) := by
    intro hlt
    have hbelow := hx.below
    have habove := hx'.above
    rcases high_le_low h h' hlt with hgap | ⟨htouch, hodd | hodd⟩
    · linarith
    · have := (hx.inner hodd).2
      linarith
    · have := (hx'.inner hodd).1
      linarith
  have hfirst := hapart h h' hx hx'
  have hsecond := hapart h' h hx' hx
  omega

end Intervals

/-! ### Hits -/

section Hits

variable {b : Binary} {k : Int} {n : Nat}

/-- An integer power, split into what multiplies and what divides. -/
theorem zpow_mul_toNat {a : ℚ} (ha : a ≠ 0) (k : Int) : a ^ k * a ^ (-k).toNat = a ^ k.toNat := by
  have hsplit : k + ((-k).toNat : Int) = (k.toNat : Int) := by omega
  rw [← zpow_natCast a (-k).toNat, ← zpow_natCast a k.toNat, ← zpow_add₀ ha, hsplit]

/-- The unit of a grid and the step of a double, scaled alike to whole numbers. -/
theorem overGrid_scale (b : Binary) (k : Int) : ∃ r : ℚ, 0 < r ∧
    ((b.overGrid k).1 : ℚ) = 2 ^ b.exponent * r ∧ ((b.overGrid k).2 : ℚ) = 10 ^ k * r := by
  have htwo := zpow_mul_toNat (a := 2) (by norm_num) b.exponent
  have hten := zpow_mul_toNat (a := 10) (by norm_num) k
  refine ⟨2 ^ (-b.exponent).toNat * 10 ^ (-k).toNat, by positivity, ?_, ?_⟩
  all_goals simp only [overGrid, Nat.pow_eq, Nat.cast_mul, Nat.cast_pow, Nat.cast_ofNat]
  · rw [← htwo]
    ring
  · rw [← hten]
    ring

/-- The test that a hit passes, as a bound on whole numbers. -/
def inside (b : Binary) (k : Int) (n : Nat) : Bool :=
  let (step, unit) := b.overGrid k
  let low := (4 * b.mantissa - if b.narrowBelow then 1 else 2) * step
  let high := (4 * b.mantissa + 2) * step
  let x := 4 * n * unit
  if b.mantissa % 2 = 0 then low ≤ x && x ≤ high else low < x && x < high

/-- The test is passed by points of the grid that round to the double. -/
theorem rounds_of_inside (hm : 0 < b.mantissa) (h : b.inside k n = true) :
    b.Rounds (n * (10 : ℚ) ^ k) := by
  obtain ⟨r, hr, hstep, hunit⟩ := b.overGrid_scale k
  have hlow : ((4 * b.mantissa - if b.narrowBelow then 1 else 2 : ℕ) : ℚ) =
      4 * b.mantissa - if b.narrowBelow then 1 else 2 := by
    rw [Nat.cast_sub (by split <;> omega)]
    split <;> push_cast <;> rfl
  have hbounds :
      (((4 * b.mantissa - if b.narrowBelow then 1 else 2 : ℕ) * (b.overGrid k).1 : ℕ) : ℚ) =
        b.low * r ∧
      (((4 * b.mantissa + 2) * (b.overGrid k).1 : ℕ) : ℚ) = b.high * r ∧
      ((4 * n * (b.overGrid k).2 : ℕ) : ℚ) = 4 * (n * 10 ^ k) * r := by
    refine ⟨?_, ?_, ?_⟩
    · rw [Nat.cast_mul, hlow, hstep, low, mul_assoc]
    · rw [Nat.cast_mul, hstep, high]
      push_cast
      ring
    · rw [Nat.cast_mul, hunit]
      push_cast
      ring
  obtain ⟨hl, hh, hx⟩ := hbounds
  unfold inside at h
  dsimp only at h
  split at h
  · next heven =>
    rw [Bool.and_eq_true, decide_eq_true_eq, decide_eq_true_eq] at h
    obtain ⟨habove, hbelow⟩ := h
    have habove : b.low * r ≤ 4 * (n * 10 ^ k) * r := by rw [← hl, ← hx]; exact_mod_cast habove
    have hbelow : 4 * (n * 10 ^ k) * r ≤ b.high * r := by rw [← hh, ← hx]; exact_mod_cast hbelow
    exact ⟨le_of_mul_le_mul_right habove hr, le_of_mul_le_mul_right hbelow hr, fun hodd => by omega⟩
  · rw [Bool.and_eq_true, decide_eq_true_eq, decide_eq_true_eq] at h
    obtain ⟨habove, hbelow⟩ := h
    have habove : b.low * r < 4 * (n * 10 ^ k) * r := by rw [← hl, ← hx]; exact_mod_cast habove
    have hbelow : 4 * (n * 10 ^ k) * r < b.high * r := by rw [← hh, ← hx]; exact_mod_cast hbelow
    have habove := lt_of_mul_lt_mul_right habove hr.le
    have hbelow := lt_of_mul_lt_mul_right hbelow hr.le
    exact ⟨habove.le, hbelow.le, fun _ => ⟨habove, hbelow⟩⟩

/-- Two points of the grid are tested, the one below the value and the one above it. -/
theorem hit?_eq (b : Binary) (k : Int) : ∃ (below : Nat) (nearer : Bool),
    below = 4 * b.mantissa * (b.overGrid k).1 / (4 * (b.overGrid k).2) ∧
      b.hit? k =
        if b.inside k below then
          if b.inside k (below + 1) && nearer then some (below + 1) else some below
        else if b.inside k (below + 1) then some (below + 1)
        else none :=
  ⟨_, _, rfl, rfl⟩

theorem inside_of_hit? (h : b.hit? k = some n) : b.inside k n = true := by
  obtain ⟨below, nearer, -, heq⟩ := b.hit?_eq k
  rw [heq] at h
  split at h
  · next hbelow =>
    split at h
    · next habove =>
      obtain rfl := Option.some.inj h
      exact (Bool.and_eq_true_iff.mp habove).1
    · obtain rfl := Option.some.inj h
      exact hbelow
  · split at h
    · next habove =>
      obtain rfl := Option.some.inj h
      exact habove
    · cases h

/-- A grid with a step below half of a double's unit has a hit. -/
theorem hit?_of_fine (hm : 0 < b.mantissa) (h : 2 * (10 : ℚ) ^ k < 2 ^ b.exponent) :
    ∃ n, b.hit? k = some n ∧ n ≠ 0 := by
  obtain ⟨r, hr, hstep, hunit⟩ := b.overGrid_scale k
  obtain ⟨below, nearer, hbelow, heq⟩ := b.hit?_eq k
  have hfine : 2 * (b.overGrid k).2 < (b.overGrid k).1 := by
    have hscaled : 2 * ((10 : ℚ) ^ k * r) < 2 ^ b.exponent * r := by
      rw [← mul_assoc]
      exact mul_lt_mul_of_pos_right h hr
    rw [← hstep, ← hunit] at hscaled
    exact_mod_cast hscaled
  have hpos : 0 < 4 * (b.overGrid k).2 := by
    have : (0 : ℚ) < (b.overGrid k).2 := by
      rw [hunit]
      positivity
    have : 0 < (b.overGrid k).2 := by exact_mod_cast this
    omega
  have hfloor := Nat.div_add_mod (4 * b.mantissa * (b.overGrid k).1) (4 * (b.overGrid k).2)
  have hrest := Nat.mod_lt (4 * b.mantissa * (b.overGrid k).1) hpos
  rw [← hbelow] at hfloor
  have hsome : 4 * (b.overGrid k).1 ≤ 4 * b.mantissa * (b.overGrid k).1 := by nlinarith
  have hne : below ≠ 0 := by
    rintro rfl
    omega
  have habove : b.inside k (below + 1) = true := by
    unfold inside
    dsimp only
    have hx : 4 * (below + 1) * (b.overGrid k).2 =
        4 * (b.overGrid k).2 * below + 4 * (b.overGrid k).2 := by ring
    have hhigh : (4 * b.mantissa + 2) * (b.overGrid k).1 =
        4 * b.mantissa * (b.overGrid k).1 + 2 * (b.overGrid k).1 := by ring
    have hlow : (4 * b.mantissa - if b.narrowBelow = true then 1 else 2) * (b.overGrid k).1 ≤
        4 * b.mantissa * (b.overGrid k).1 := Nat.mul_le_mul_right _ (Nat.sub_le _ _)
    split
    · rw [Bool.and_eq_true, decide_eq_true_eq, decide_eq_true_eq]
      omega
    · rw [Bool.and_eq_true, decide_eq_true_eq, decide_eq_true_eq]
      omega
  rw [heq, habove]
  simp only [if_true, Bool.true_and]
  split
  · split
    · exact ⟨below + 1, rfl, by omega⟩
    · exact ⟨below, rfl, hne⟩
  · exact ⟨below + 1, rfl, by omega⟩

/-- A search that comes to a fine grid ends with a decimal that rounds to the double. -/
theorem rounds_search (hm : 0 < b.mantissa) {fuel : Nat} {k : Int} {j : Nat} (hj : j < fuel)
    (h : 2 * (10 : ℚ) ^ (k - j) < 2 ^ b.exponent) :
    (b.search fuel k).digits ≠ 0 ∧ b.Rounds (b.search fuel k).value := by
  induction fuel generalizing k j with
  | zero => omega
  | succ fuel ih =>
    have hmore (hmiss : ∀ n, b.hit? k = some n → n = 0) :
        (b.search fuel (k - 1)).digits ≠ 0 ∧ b.Rounds (b.search fuel (k - 1)).value := by
      cases j with
      | zero =>
        obtain ⟨n, hn, hne⟩ := hit?_of_fine hm (by simpa using h)
        exact absurd (hmiss n hn) hne
      | succ j =>
        have hk : k - 1 - (j : Int) = k - (j + 1 : ℕ) := by push_cast; omega
        exact ih (j := j) (by omega) (by rw [hk]; exact h)
    rw [search]
    split
    · next n hn =>
      split
      · next hzero => exact hmore fun n' hn' => by rw [hn] at hn'; rw [← Option.some.inj hn', hzero]
      · next hne => exact ⟨hne, rounds_of_inside hm (inside_of_hit? hn)⟩
    · next hnone => exact hmore fun n hn => by rw [hnone] at hn; cases hn

end Hits

end Binary

/-! ### The search for the shortest decimal -/

section Search

variable {m k j : Int}

theorem zpow_lt_zpow_of_pow {p : Nat} (h : (10 : ℚ) ^ (p * k) < 2 ^ (p * j)) :
    (10 : ℚ) ^ k < 2 ^ j := by
  have hpower {a : ℚ} (i : Int) : a ^ (p * i) = (a ^ i) ^ p := by
    rw [mul_comm, zpow_mul, zpow_natCast]
  rw [hpower, hpower] at h
  exact lt_of_pow_lt_pow_left₀ p (by positivity) h

theorem two_pow_le_ten_pow (i : Nat) : (2 : ℚ) ^ (3 * i) ≤ 10 ^ i := by
  rw [pow_mul]
  exact pow_le_pow_left₀ (by norm_num) (by norm_num) i

theorem ten_zpow_neg_le (i : Nat) : (10 : ℚ) ^ (-i : Int) ≤ 2 ^ (-(3 * i : ℕ) : Int) := by
  rw [zpow_neg, zpow_neg, zpow_natCast, zpow_natCast]
  exact inv_anti₀ (by positivity) (two_pow_le_ten_pow i)

/-- Powers of ten against powers of two, where a decimal magnitude is taken from a binary one: with
`3 / 10` and `28 / 93` for the logarithm of two. -/
theorem ten_zpow_lt (hlow : -1100 ≤ m) (hhigh : m ≤ 1100) (hk : 100000 * (k + 22) ≤ 30103 * m) :
    2 * (10 : ℚ) ^ k < 2 ^ (m - 53) := by
  have hlt : (10 : ℚ) ^ k < 2 ^ (m - 54) := by
    rcases le_or_gt 0 m with hm | hm
    · apply zpow_lt_zpow_of_pow (p := 10)
      have hpowers : ((10 : ℚ) ^ (3 : Int)) ^ m ≤ ((2 : ℚ) ^ (10 : Int)) ^ m :=
        zpow_le_zpow_left₀ hm (by norm_num) (by norm_num)
      rw [← zpow_mul, ← zpow_mul] at hpowers
      calc (10 : ℚ) ^ ((10 : ℕ) * k) ≤ 10 ^ (3 * m + -(209 : ℕ)) :=
            zpow_le_zpow_right₀ (by norm_num) (by push_cast; omega)
        _ = 10 ^ (3 * m) * 10 ^ (-(209 : ℕ) : Int) := zpow_add₀ (by norm_num) _ _
        _ ≤ 2 ^ (10 * m) * 2 ^ (-(3 * 209 : ℕ) : Int) :=
            mul_le_mul hpowers (ten_zpow_neg_le 209) (by positivity) (by positivity)
        _ = 2 ^ (10 * m + -(3 * 209 : ℕ)) := (zpow_add₀ (by norm_num) _ _).symm
        _ < 2 ^ ((10 : ℕ) * (m - 54)) := zpow_lt_zpow_right₀ (by norm_num) (by push_cast; omega)
    · apply zpow_lt_zpow_of_pow (p := 93)
      have hpowers : ((10 : ℚ) ^ (28 : Int)) ^ m ≤ ((2 : ℚ) ^ (93 : Int)) ^ m := by
        rw [← neg_neg m, zpow_neg _ (-m), zpow_neg _ (-m)]
        exact inv_anti₀ (by positivity)
          (zpow_le_zpow_left₀ (by omega) (by norm_num) (by norm_num))
      rw [← zpow_mul, ← zpow_mul] at hpowers
      calc (10 : ℚ) ^ ((93 : ℕ) * k) ≤ 10 ^ (28 * m + -(2042 : ℕ)) :=
            zpow_le_zpow_right₀ (by norm_num) (by push_cast; omega)
        _ = 10 ^ (28 * m) * 10 ^ (-(2042 : ℕ) : Int) := zpow_add₀ (by norm_num) _ _
        _ ≤ 2 ^ (93 * m) * 2 ^ (-(3 * 2042 : ℕ) : Int) :=
            mul_le_mul hpowers (ten_zpow_neg_le 2042) (by positivity) (by positivity)
        _ = 2 ^ (93 * m + -(3 * 2042 : ℕ)) := (zpow_add₀ (by norm_num) _ _).symm
        _ < 2 ^ ((93 : ℕ) * (m - 54)) := zpow_lt_zpow_right₀ (by norm_num) (by push_cast; omega)
  have hhalf : (2 : ℚ) ^ (m - 53) = 2 * 2 ^ (m - 54) := by
    rw [show m - 53 = m - 54 + 1 by ring, zpow_add_one₀ (by norm_num), mul_comm]
  rw [hhalf]
  linarith

/-- Final zeros can go into the exponent. -/
theorem stripZeros_facts (fuel : Nat) (s : Shortest) (h : s.digits ≠ 0) :
    (s.stripZeros fuel).digits ≠ 0 ∧ (s.stripZeros fuel).value = s.value := by
  induction fuel generalizing s with
  | zero => exact ⟨h, rfl⟩
  | succ fuel ih =>
    rw [Shortest.stripZeros]
    split
    · next hten =>
      obtain ⟨hne, hvalue⟩ := ih ⟨s.digits / 10, s.exponent + 1⟩ (by dsimp only; omega)
      refine ⟨hne, hvalue.trans ?_⟩
      have hdigits : (s.digits : ℚ) = (s.digits / 10 : ℕ) * 10 := by
        have : s.digits = s.digits / 10 * 10 := by omega
        exact_mod_cast this
      rw [Shortest.value, Shortest.value, zpow_add_one₀ (by norm_num), hdigits]
      ring
    · exact ⟨h, rfl⟩

/-- The shortest decimal rounds to the double that it was searched for. -/
theorem rounds_shortest {bits : UInt64} (h : 0 < (Binary.ofBits bits).mantissa) :
    (Shortest.ofBits bits).digits ≠ 0 ∧
      (Binary.ofBits bits).Rounds (Shortest.ofBits bits).value := by
  have hlegal := Binary.legal_ofBits bits
  have htop : (Binary.ofBits bits).exponent ≤ 972 := by
    simp only [Binary.ofBits, Nat.pow_eq]
    split
    · simp
    · dsimp only
      omega
  unfold Shortest.ofBits
  dsimp only
  generalize Binary.ofBits bits = b at *
  have hlog : b.mantissa.log2 ≤ 52 := by
    have := (Nat.log2_lt (by omega)).mpr hlegal.mantissa
    omega
  have hlowest := hlegal.lowest
  generalize hmagnitude : (b.mantissa.log2 : Int) + b.exponent + 1 = m
  have hfloor : 100000 * Int.fdiv (m * 30103) 100000 ≤ 30103 * m := by
    rw [Int.fdiv_eq_ediv_of_nonneg _ (by norm_num)]
    omega
  have hfine : 2 * (10 : ℚ) ^ (Int.fdiv (m * 30103) 100000 + 1 - (23 : ℕ)) < 2 ^ b.exponent :=
    calc 2 * (10 : ℚ) ^ (Int.fdiv (m * 30103) 100000 + 1 - (23 : ℕ)) < 2 ^ (m - 53) :=
          ten_zpow_lt (by omega) (by omega) (by push_cast; omega)
      _ ≤ 2 ^ b.exponent := zpow_le_zpow_right₀ (by norm_num) (by omega)
  obtain ⟨hne, hrounds⟩ := Binary.rounds_search h (by norm_num : 23 < 24) hfine
  obtain ⟨hne', hvalue⟩ := stripZeros_facts 24 _ hne
  exact ⟨hne', hvalue ▸ hrounds⟩

end Search

end Marginalia.Decimal
