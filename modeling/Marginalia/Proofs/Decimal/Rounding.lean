import Mathlib
import Marginalia.Proofs.Decimal.Shortest

/-! Doubles out of rationals. A rational that rounds to a double is rounded to it wherever the
arithmetic of doubles comes by it: as a product, as a quotient, and as a decimal. -/

namespace Marginalia.Decimal

open Float.Model (Format UnpackedFloat totalExponent)
open Float.Model.UnpackedFloat

/-- A rational is at a whole number or above it, with the next half to tell how far. -/
def Lies (m : Nat) (y : ℚ) : Accuracy → Prop
  | .exact => y = m
  | .inexact .lt => m < y ∧ y < m + 1 / 2
  | .inexact .eq => y = m + 1 / 2
  | .inexact .gt => m + 1 / 2 < y ∧ y < m + 1

/-- A whole number is nearest to a rational, and an even one where two are. -/
structure Nearest (m : Nat) (y : ℚ) : Prop where
  above : 2 * m - 1 ≤ 2 * y
  below : 2 * y ≤ 2 * m + 1
  inner : m % 2 = 1 → 2 * m - 1 < 2 * y ∧ 2 * y < 2 * m + 1

section Halves

variable {m k : Nat} {y : ℚ} {acc : Accuracy} {em : ExtendedMantissa}

theorem Lies.bounds (h : Lies m y acc) : m ≤ y ∧ y < m + 1 := by
  match acc with
  | .exact =>
    obtain rfl : y = m := h
    constructor <;> linarith
  | .inexact .lt =>
    obtain ⟨hlow, hhigh⟩ : (m : ℚ) < y ∧ y < m + 1 / 2 := h
    constructor <;> linarith
  | .inexact .eq =>
    obtain rfl : y = m + 1 / 2 := h
    constructor <;> linarith
  | .inexact .gt =>
    obtain ⟨hlow, hhigh⟩ : (m : ℚ) + 1 / 2 < y ∧ y < m + 1 := h
    constructor <;> linarith

/-- The rounded number is nearest. -/
theorem Lies.nearest (h : Lies m y acc) : Nearest (Accuracy.roundToNearestEven m acc) y := by
  match acc with
  | .exact =>
    obtain rfl : y = m := h
    exact ⟨by simp [Accuracy.roundToNearestEven], by simp [Accuracy.roundToNearestEven],
      fun _ => by simp [Accuracy.roundToNearestEven]⟩
  | .inexact .lt =>
    obtain ⟨hlow, hhigh⟩ : (m : ℚ) < y ∧ y < m + 1 / 2 := h
    simp only [Accuracy.roundToNearestEven]
    exact ⟨by linarith, by linarith, fun _ => ⟨by linarith, by linarith⟩⟩
  | .inexact .eq =>
    obtain rfl : y = m + 1 / 2 := h
    simp only [Accuracy.roundToNearestEven]
    have heven : (m + m % 2) % 2 = 0 := by omega
    rcases Nat.mod_two_eq_zero_or_one m with hm | hm
    · rw [hm] at heven ⊢
      refine ⟨?_, ?_, fun hodd => by omega⟩
      · push_cast; linarith
      · push_cast; linarith
    · rw [hm] at heven ⊢
      refine ⟨?_, ?_, fun hodd => by omega⟩
      · push_cast; linarith
      · push_cast; linarith
  | .inexact .gt =>
    obtain ⟨hlow, hhigh⟩ : (m : ℚ) + 1 / 2 < y ∧ y < m + 1 := h
    simp only [Accuracy.roundToNearestEven]
    refine ⟨?_, ?_, fun _ => ⟨?_, ?_⟩⟩ <;> push_cast <;> linarith

theorem Nearest.le_of_lt {n : Nat} (h : Nearest m y) (hy : y < n) : m ≤ n := by
  by_contra hbig
  have hbig : (n : ℚ) + 1 ≤ m := by exact_mod_cast Nat.lt_of_not_le hbig
  have := h.above
  linarith

theorem Nearest.le_of_le {n : Nat} (h : Nearest m y) (hy : n ≤ y) : n ≤ m := by
  by_contra hsmall
  have hsmall : (m : ℚ) + 1 ≤ n := by exact_mod_cast Nat.lt_of_not_le hsmall
  have := h.below
  linarith

theorem Lies.shiftRightOne (h : Lies em.mantissa y em.accuracy) :
    Lies em.shiftRightOne.mantissa (y / 2) em.shiftRightOne.accuracy := by
  obtain ⟨m, roundBit, stickyBit⟩ := em
  have hsplit : (m : ℚ) = 2 * (m / 2 : ℕ) + (m % 2 : ℕ) := by
    exact_mod_cast (Nat.div_add_mod m 2).symm
  rcases Nat.mod_two_eq_zero_or_one m with hm | hm <;> cases roundBit <;> cases stickyBit <;>
    simp [ExtendedMantissa.shiftRightOne, ExtendedMantissa.accuracy, Lies, hm] at h hsplit ⊢ <;>
    (try constructor) <;> linarith

theorem Lies.shiftRight (h : Lies em.mantissa y em.accuracy) (k : Nat) :
    Lies (em >>> k).mantissa (y / 2 ^ k) (em >>> k).accuracy := by
  induction k with
  | zero =>
    rw [pow_zero, div_one]
    exact h
  | succ k ih =>
    rw [pow_succ, ← div_div]
    exact ih.shiftRightOne

theorem accuracy_ofMantissaAndAccuracy (m : Nat) (acc : Accuracy) :
    (ExtendedMantissa.ofMantissaAndAccuracy m acc).mantissa = m ∧
      (ExtendedMantissa.ofMantissaAndAccuracy m acc).accuracy = acc := by
  match acc with
  | .exact => exact ⟨rfl, rfl⟩
  | .inexact .lt => exact ⟨rfl, rfl⟩
  | .inexact .eq => exact ⟨rfl, rfl⟩
  | .inexact .gt => exact ⟨rfl, rfl⟩

end Halves

/-! ### Rounding to a double -/

section Rounded

variable {m : Nat} {e t : Int} {q : ℚ} {acc : Accuracy} {b : Binary}

theorem targetExponent_eq (t : Int) : Format.binary64.targetExponent t = max (t - 53) (-1074) := rfl

theorem Lies.shiftToExponent (h : Lies m (q / 2 ^ e) acc) (ht : e ≤ t) :
    (shiftToExponent m e acc t).2 = t ∧
      Lies (shiftToExponent m e acc t).1.mantissa (q / 2 ^ t)
        (shiftToExponent m e acc t).1.accuracy := by
  obtain ⟨k, rfl⟩ := Int.le.dest ht
  obtain ⟨hmantissa, haccuracy⟩ := accuracy_ofMantissaAndAccuracy m acc
  have hk : (e + k - e).toNat = k := by omega
  have hy : q / 2 ^ (e + k : Int) = q / 2 ^ e / 2 ^ k := by
    rw [zpow_add₀ (by norm_num), zpow_natCast, div_div]
  unfold UnpackedFloat.shiftToExponent
  rw [hk, hy]
  refine ⟨rfl, Lies.shiftRight ?_ k⟩
  rw [hmantissa, haccuracy]
  exact h

/-- The exponent that is chosen makes the mantissa full, but at the least exponent. -/
theorem Lies.target_bounds (h : Lies m (q / 2 ^ e) acc)
    (ht : t = max (totalExponent m e - 53) (-1074)) (he : e ≤ t) :
    q / 2 ^ t < 2 ^ 53 ∧ (-1074 < t → 2 ^ 52 ≤ q / 2 ^ t) := by
  obtain ⟨hlow, hhigh⟩ := h.bounds
  have hunit : (0 : ℚ) < 2 ^ e := by positivity
  have htarget : (0 : ℚ) < 2 ^ t := by positivity
  unfold totalExponent at ht
  rw [le_div_iff₀ hunit] at hlow
  rw [div_lt_iff₀ hunit] at hhigh
  have hpower (i : Nat) (j : Int) : (2 : ℚ) ^ (i + j : Int) = 2 ^ i * 2 ^ j := by
    rw [zpow_add₀ (by norm_num), zpow_natCast]
  constructor
  · have htop : (m : ℚ) + 1 ≤ 2 ^ (m.log2 + 1) := by
      exact_mod_cast Nat.lt_log2_self (n := m)
    rw [div_lt_iff₀ htarget]
    calc q < (m + 1) * 2 ^ e := hhigh
      _ ≤ 2 ^ (m.log2 + 1) * 2 ^ e := mul_le_mul_of_nonneg_right htop hunit.le
      _ = 2 ^ ((m.log2 + 1 : ℕ) + e : Int) := (hpower _ _).symm
      _ ≤ 2 ^ ((53 : ℕ) + t : Int) := zpow_le_zpow_right₀ (by norm_num) (by push_cast; omega)
      _ = 2 ^ 53 * 2 ^ t := hpower _ _
  · intro hfull
    have hm : m ≠ 0 := by
      rintro rfl
      simp at ht
      omega
    have hbottom : (2 : ℚ) ^ m.log2 ≤ m := by exact_mod_cast Nat.log2_self_le hm
    rw [le_div_iff₀ htarget]
    calc (2 : ℚ) ^ 52 * 2 ^ t = 2 ^ ((52 : ℕ) + t : Int) := (hpower _ _).symm
      _ = 2 ^ (m.log2 + e : Int) := by congr 1; push_cast; omega
      _ = 2 ^ m.log2 * 2 ^ e := hpower _ _
      _ ≤ m * 2 ^ e := mul_le_mul_of_nonneg_right hbottom hunit.le
      _ ≤ q := hlow

/-- A mantissa and an exponent that a double can have, with a rational that it is nearest to. -/
theorem rounds_of_nearest {r : Nat} (h : Nearest r (q / 2 ^ t)) (ht : -1074 ≤ t)
    (hr : r < 2 ^ 53) (hfull : -1074 < t → 2 ^ 52 ≤ r ∧ 2 ^ 54 - 1 ≤ 4 * (q / 2 ^ t)) :
    Binary.Legal ⟨r, t, decide (r = 2 ^ 52 ∧ -1074 < t)⟩ ∧
      Binary.Rounds ⟨r, t, decide (r = 2 ^ 52 ∧ -1074 < t)⟩ q := by
  have hunit : (0 : ℚ) < 2 ^ t := by positivity
  have hq : 4 * q = 4 * (q / 2 ^ t) * 2 ^ t := by
    rw [mul_assoc, div_mul_cancel₀ _ hunit.ne']
  refine ⟨⟨hr, ht, fun hlt => (hfull hlt).1, by simp⟩, ?_, ?_, ?_⟩
  · unfold Binary.low
    rw [hq]
    apply mul_le_mul_of_nonneg_right _ hunit.le
    dsimp only
    split
    · next hnarrow =>
      obtain ⟨rfl, hlt⟩ := of_decide_eq_true hnarrow
      have := (hfull hlt).2
      push_cast
      linarith
    · have := h.above
      linarith
  · unfold Binary.high
    rw [hq]
    apply mul_le_mul_of_nonneg_right _ hunit.le
    have := h.below
    dsimp only
    linarith
  · intro hodd
    dsimp only at hodd
    obtain ⟨habove, hbelow⟩ := h.inner hodd
    have hwide : decide (r = 2 ^ 52 ∧ -1074 < t) = false := by
      apply decide_eq_false
      rintro ⟨rfl, -⟩
      omega
    unfold Binary.low Binary.high
    rw [hq]
    dsimp only
    rw [hwide]
    simp only [Bool.false_eq_true, if_false]
    exact ⟨mul_lt_mul_of_pos_right (by linarith) hunit, mul_lt_mul_of_pos_right (by linarith) hunit⟩

theorem shiftToTargetExponent_exact (h : m < 2 ^ 53) (ht : -1074 ≤ t) :
    (shiftToTargetExponent .binary64 m t .exact).1.mantissa = m ∧
      (shiftToTargetExponent .binary64 m t .exact).2 = t := by
  have hlog : m.log2 ≤ 52 := by
    by_cases hm : m = 0
    · rw [hm]
      decide
    · have := (Nat.log2_lt hm).mpr h
      omega
  have hk : (max (totalExponent m t - 53) (-1074) - t).toNat = 0 := by
    unfold totalExponent
    omega
  unfold shiftToTargetExponent UnpackedFloat.shiftToExponent
  rw [targetExponent_eq]
  dsimp only
  rw [hk]
  exact ⟨rfl, add_zero t⟩

theorem shiftToTargetExponent_carry (ht : -1074 ≤ t) :
    (shiftToTargetExponent .binary64 (2 ^ 53) t .exact).1.mantissa = 2 ^ 52 ∧
      (shiftToTargetExponent .binary64 (2 ^ 53) t .exact).2 = t + 1 := by
  have hk : (max (totalExponent (2 ^ 53) t - 53) (-1074) - t).toNat = 1 := by
    rw [totalExponent, Nat.log2_two_pow]
    omega
  unfold shiftToTargetExponent UnpackedFloat.shiftToExponent
  rw [targetExponent_eq]
  dsimp only
  rw [hk]
  exact ⟨rfl, rfl⟩

/-- A number that rounds to a double is rounded to that double. -/
theorem roundWithAccuracy_eq (hb : b.Legal) (hpos : 0 < b.mantissa) (hq : b.Rounds q)
    (h : Lies m (q / 2 ^ e) acc) (he : e ≤ max (totalExponent m e - 53) (-1074)) (s : Sign) :
    roundWithAccuracy .binary64 s m e acc = .finite s b.mantissa b.exponent hpos := by
  generalize ht : max (totalExponent m e - 53) (-1074) = t at he
  obtain ⟨hexponent, hlies⟩ := h.shiftToExponent he
  obtain ⟨hupper, hlower⟩ := h.target_bounds ht.symm he
  have hmin : -1074 ≤ t := ht ▸ le_max_right _ _
  generalize hr : (UnpackedFloat.shiftToExponent m e acc t).1.roundedMantissa = r
  have hnearest : Nearest r (q / 2 ^ t) := hr ▸ hlies.nearest
  have htop : r ≤ 2 ^ 53 := hnearest.le_of_lt (by exact_mod_cast hupper)
  have hfull (hlt : -1074 < t) : 2 ^ 52 ≤ r :=
    hnearest.le_of_le (by exact_mod_cast hlower hlt)
  -- what the second shift leaves is the double, since the rational rounds to both
  suffices hfinal : (shiftToTargetExponent .binary64 r t .exact).1.mantissa = b.mantissa ∧
      (shiftToTargetExponent .binary64 r t .exact).2 = b.exponent by
    unfold roundWithAccuracy
    have hfirst : shiftToTargetExponent .binary64 m e acc =
        UnpackedFloat.shiftToExponent m e acc t := by
      rw [shiftToTargetExponent, targetExponent_eq, ht]
    rw [hfirst]
    dsimp only
    rw [hr, hexponent, dif_neg (by rw [hfinal.1]; omega)]
    simp only [hfinal]
  rcases htop.lt_or_eq with hlt | rfl
  · obtain ⟨hmantissa, hsame⟩ := shiftToTargetExponent_exact hlt hmin
    obtain ⟨hlegal, hrounds⟩ := rounds_of_nearest hnearest hmin hlt
      fun hlt => ⟨hfull hlt, by have := hlower hlt; linarith⟩
    rw [hmantissa, hsame]
    exact Binary.eq_of_rounds hlegal hb hrounds hq
  · obtain ⟨hmantissa, hsame⟩ := shiftToTargetExponent_carry hmin
    have hhalf : q / 2 ^ (t + 1) = q / 2 ^ t / 2 := by
      rw [zpow_add_one₀ (by norm_num), div_div]
    have habove := hnearest.above
    push_cast at habove
    have hnearest' : Nearest (2 ^ 52) (q / 2 ^ (t + 1)) := by
      rw [hhalf]
      refine ⟨?_, ?_, fun hodd => by omega⟩
      · push_cast
        linarith
      · push_cast
        linarith
    obtain ⟨hlegal, hrounds⟩ := rounds_of_nearest hnearest' (by omega) (by norm_num)
      fun _ => ⟨le_refl _, by rw [hhalf]; linarith⟩
    rw [hmantissa, hsame]
    exact Binary.eq_of_rounds hlegal hb hrounds hq

end Rounded

/-! ### Doubles by their parts -/

/-- The sign of a double. -/
def signOf (bits : UInt64) : Sign := if bits.toNat / 2 ^ 63 = 1 then .negative else .positive

section Parts

variable {bits : UInt64} {x y : Float} {b : Binary} {s : Sign}

theorem unpackMantissa_toNat (bits : UInt64) :
    (@unpackMantissa Format.binary64 bits.toBitVec).toNat = bits.toNat % 2 ^ 52 := by
  simp [unpackMantissa]

theorem unpackExponent_toNat (bits : UInt64) :
    (@unpackExponent Format.binary64 bits.toBitVec).toNat = bits.toNat / 2 ^ 52 % 2048 := by
  simp [unpackExponent, Nat.shiftRight_eq_div_pow]

theorem unpackSign_eq (bits : UInt64) :
    Sign.ofBitVec (@unpackSign Format.binary64 bits.toBitVec) = signOf bits := by
  have hsign : (@unpackSign Format.binary64 bits.toBitVec).toNat = bits.toNat / 2 ^ 63 % 2 := by
    simp [unpackSign, Nat.shiftRight_eq_div_pow]
  have hlt := bits.toNat_lt
  unfold Sign.ofBitVec signOf
  simp only [← BitVec.toNat_inj, hsign, BitVec.toNat_ofNat, Nat.zero_mod]
  split
  · rw [if_neg (by omega)]
  · rw [if_pos (by omega)]

/-- The exponent of all ones is not that of a finite double. -/
theorem unpackExponent_ne (hfinite : bits.toNat / 2 ^ 52 % 2048 ≠ 2047) :
    @unpackExponent Format.binary64 bits.toBitVec ≠ -1#11 := by
  intro he
  have he := congrArg BitVec.toNat he
  rw [unpackExponent_toNat] at he
  exact hfinite he

/-- A finite double is unpacked into its parts. -/
theorem unpack_bits (hfinite : bits.toNat / 2 ^ 52 % 2048 ≠ 2047) (h : bits.toNat % 2 ^ 63 ≠ 0) :
    UnpackedFloat.unpack .binary64 bits.toBitVec = .finite (signOf bits)
      (Binary.ofBits bits).mantissa (Binary.ofBits bits).exponent (Binary.mantissa_pos h) := by
  have hexponent := unpackExponent_toNat bits
  have hzero {w : Nat} (v : BitVec w) : v = 0#w ↔ v.toNat = 0 := by
    rw [← BitVec.toNat_inj]
    rfl
  unfold UnpackedFloat.unpack
  simp only [unpackSign_eq, hzero]
  rw [if_neg (unpackExponent_ne hfinite)]
  split
  · next he =>
    have he' : bits.toNat / 2 ^ 52 % 2048 = 0 := hexponent ▸ he
    have hmantissa := unpackMantissa_toNat bits
    rw [dif_neg (by omega)]
    have hparts : Binary.ofBits bits = ⟨bits.toNat % 2 ^ 52, -1074, false⟩ := by
      simp only [Binary.ofBits, Nat.pow_eq, he', if_true]
    simp only [UnpackedFloat.finite.injEq, hparts, true_and]
    refine ⟨hmantissa, ?_⟩
    rw [he]
    rfl
  · next he =>
    have he' : bits.toNat / 2 ^ 52 % 2048 ≠ 0 := hexponent ▸ he
    simp only [UnpackedFloat.finite.injEq, true_and, BitVec.toNat_append, hexponent]
    constructor
    · have hfraction := (@unpackMantissa Format.binary64 bits.toBitVec).isLt
      rw [← Nat.shiftLeft_add_eq_or_of_lt hfraction, unpackMantissa_toNat]
      simp only [Binary.ofBits, Nat.pow_eq, he', if_false]
      rfl
    · simp only [Binary.ofBits, Nat.pow_eq, he', if_false]
      rfl

theorem pack_unpack_bits (hfinite : bits.toNat / 2 ^ 52 % 2048 ≠ 2047) :
    UnpackedFloat.pack .binary64 (UnpackedFloat.unpack .binary64 bits.toBitVec) =
      bits.toBitVec := by
  rw [pack_unpack, if_neg]
  intro hnan
  exact unpackExponent_ne hfinite (of_decide_eq_true hnan).1

theorem Binary.exponent_ofBits_le (hfinite : bits.toNat / 2 ^ 52 % 2048 ≠ 2047) :
    (Binary.ofBits bits).exponent ≤ 971 := by
  simp only [Binary.ofBits, Nat.pow_eq]
  split
  · simp
  · dsimp only
    omega

/-- A full mantissa and an exponent in range are those of a double. -/
theorem exists_bits (hlow : 2 ^ 52 ≤ b.mantissa) (hhigh : b.mantissa < 2 ^ 53)
    (hmin : -1074 ≤ b.exponent) (hmax : b.exponent ≤ 971) :
    ∃ bits : UInt64, bits.toNat < 2 ^ 63 ∧ bits.toNat / 2 ^ 52 % 2048 ≠ 2047 ∧
      (Binary.ofBits bits).mantissa = b.mantissa ∧ (Binary.ofBits bits).exponent = b.exponent := by
  obtain ⟨e, he⟩ := Int.le.dest hmin
  have hvalue : (UInt64.ofNat ((e + 1) * 2 ^ 52 + (b.mantissa - 2 ^ 52))).toNat =
      (e + 1) * 2 ^ 52 + (b.mantissa - 2 ^ 52) :=
    UInt64.toNat_ofNat_of_lt' (by simp only [UInt64.size]; omega)
  have hfraction : ((e + 1) * 2 ^ 52 + (b.mantissa - 2 ^ 52)) % 2 ^ 52 = b.mantissa - 2 ^ 52 := by
    omega
  have hexponent : ((e + 1) * 2 ^ 52 + (b.mantissa - 2 ^ 52)) / 2 ^ 52 % 2048 = e + 1 := by
    omega
  refine ⟨UInt64.ofNat ((e + 1) * 2 ^ 52 + (b.mantissa - 2 ^ 52)), by omega, by omega, ?_, ?_⟩
  · simp only [Binary.ofBits, Nat.pow_eq, hvalue, hfraction, hexponent]
    rw [if_neg (by omega)]
    dsimp only
    omega
  · simp only [Binary.ofBits, Nat.pow_eq, hvalue, hfraction, hexponent]
    rw [if_neg (by omega)]
    dsimp only
    omega

/-- Full parts are unpacked as they were packed. -/
theorem unpack_pack (hlow : 2 ^ 52 ≤ b.mantissa) (hhigh : b.mantissa < 2 ^ 53)
    (hmin : -1074 ≤ b.exponent) (hmax : b.exponent ≤ 971) (hpos : 0 < b.mantissa) :
    (Float.Model.pack (.finite .positive b.mantissa b.exponent hpos)).unpack =
      .finite .positive b.mantissa b.exponent hpos := by
  obtain ⟨bits, hlt, hfinite, hmantissa, hexponent⟩ := exists_bits hlow hhigh hmin hmax
  have hne : bits.toNat % 2 ^ 63 ≠ 0 := by
    intro hzero
    have hbits : bits.toNat = 0 := by omega
    have hno : (Binary.ofBits bits).mantissa = 0 := by
      simp [Binary.ofBits, hbits]
    omega
  have hunpacked : UnpackedFloat.unpack .binary64 bits.toBitVec =
      .finite .positive b.mantissa b.exponent hpos := by
    rw [unpack_bits hfinite hne, UnpackedFloat.finite.injEq]
    exact ⟨if_neg (by omega), hmantissa, hexponent⟩
  have hpacked := pack_unpack_bits hfinite
  rw [hunpacked] at hpacked
  change UnpackedFloat.unpack .binary64 (UnpackedFloat.pack .binary64 _) = _
  rw [hpacked, hunpacked]

end Parts

/-! ### Products and quotients -/

section Arithmetic

variable {m m₁ m₂ : Nat} {e e₁ e₂ : Int} {q : ℚ} {b : Binary}

theorem mul_eq (hb : b.Legal) (hpos : 0 < b.mantissa) (hq : b.Rounds q)
    (h : q = m₁ * m₂ * 2 ^ (e₁ + e₂)) (hwide : 2 ^ 52 ≤ m₁ * m₂) (h₁ : 0 < m₁) (h₂ : 0 < m₂) :
    UnpackedFloat.mul .binary64 (.finite .positive m₁ e₁ h₁) (.finite .positive m₂ e₂ h₂) =
      .finite .positive b.mantissa b.exponent hpos := by
  have hlog : 52 ≤ (m₁ * m₂).log2 := (Nat.le_log2 (by omega)).mpr hwide
  have hlies : Lies (m₁ * m₂) (q / 2 ^ (e₁ + e₂)) .exact := by
    change q / 2 ^ (e₁ + e₂) = _
    rw [h, mul_div_cancel_right₀ _ (by positivity)]
    push_cast
    rfl
  exact roundWithAccuracy_eq hb hpos hq hlies (by unfold totalExponent; omega) .positive

/-- A quotient of whole numbers with its rest. -/
theorem lies_div (h : 0 < m₂) :
    Lies (m₁ / m₂) (m₁ / m₂ : ℚ) (accuracyOfFraction (m₁ % m₂) m₂) := by
  have hpos : (0 : ℚ) < m₂ := by exact_mod_cast h
  have hrest : (m₁ % m₂ : ℕ) < (m₂ : ℚ) := by exact_mod_cast Nat.mod_lt m₁ h
  have hsplit : (m₁ : ℚ) / m₂ = (m₁ / m₂ : ℕ) + (m₁ % m₂ : ℕ) / m₂ := by
    rw [eq_comm, ← mul_div_cancel_left₀ (((m₁ / m₂ : ℕ) : ℚ)) hpos.ne', ← add_div]
    congr 1
    exact_mod_cast Nat.div_add_mod m₁ m₂
  generalize m₁ % m₂ = r at *
  rw [hsplit]
  unfold accuracyOfFraction
  split
  · next hr => simp [Lies, hr]
  · next hr =>
    have hrpos : (0 : ℚ) < r := by exact_mod_cast Nat.pos_of_ne_zero hr
    match hc : compare (2 * r) m₂ with
    | .lt =>
      have hlt : (2 * r : ℚ) < m₂ := by exact_mod_cast Nat.compare_eq_lt.mp hc
      refine ⟨by linarith [div_pos hrpos hpos], ?_⟩
      have : (r : ℚ) / m₂ < 1 / 2 := by rw [div_lt_div_iff₀ hpos (by norm_num)]; linarith
      linarith
    | .eq =>
      have heq : (2 * r : ℚ) = m₂ := by exact_mod_cast Nat.compare_eq_eq.mp hc
      have : (r : ℚ) / m₂ = 1 / 2 := by rw [div_eq_div_iff hpos.ne' (by norm_num)]; linarith
      exact congrArg _ this
    | .gt =>
      have hgt : (m₂ : ℚ) < 2 * r := by exact_mod_cast Nat.compare_eq_gt.mp hc
      have hhalf : 1 / 2 < (r : ℚ) / m₂ := by rw [div_lt_div_iff₀ (by norm_num) hpos]; linarith
      have hone : (r : ℚ) / m₂ < 1 := by rw [div_lt_one hpos]; exact hrest
      exact ⟨by linarith, by linarith⟩

/-- The dividend is shifted far enough for the quotient to have its full mantissa. -/
theorem quotient_full {k : Nat} (h₁ : 0 < m₁) (h₂ : 0 < m₂) (hk : m₂.log2 + 53 ≤ m₁.log2 + k) :
    52 ≤ (m₁ <<< k / m₂).log2 := by
  have hshifted : 2 ^ (m₂.log2 + 53) ≤ m₁ <<< k :=
    calc 2 ^ (m₂.log2 + 53) ≤ 2 ^ (m₁.log2 + k) := Nat.pow_le_pow_right (by norm_num) hk
      _ = 2 ^ m₁.log2 * 2 ^ k := pow_add _ _ _
      _ ≤ m₁ * 2 ^ k := Nat.mul_le_mul_right _ (Nat.log2_self_le h₁.ne')
      _ = m₁ <<< k := (Nat.shiftLeft_eq _ _).symm
  have hfull : 2 ^ 52 ≤ m₁ <<< k / m₂ := by
    rw [Nat.le_div_iff_mul_le h₂]
    have htop := Nat.lt_log2_self (n := m₂)
    calc 2 ^ 52 * m₂ ≤ 2 ^ 52 * 2 ^ (m₂.log2 + 1) := Nat.mul_le_mul_left _ htop.le
      _ = 2 ^ (m₂.log2 + 53) := by rw [← pow_add]; congr 1; omega
      _ ≤ m₁ <<< k := hshifted
  exact (Nat.le_log2 (by omega)).mpr hfull

theorem div_eq (hb : b.Legal) (hpos : 0 < b.mantissa) (hq : b.Rounds q)
    (h : q = m₁ * 2 ^ e₁ / (m₂ * 2 ^ e₂)) (h₁ : 0 < m₁) (h₂ : 0 < m₂) :
    UnpackedFloat.div .binary64 (.finite .positive m₁ e₁ h₁) (.finite .positive m₂ e₂ h₂) =
      .finite .positive b.mantissa b.exponent hpos := by
  generalize ht : min (e₁ - e₂)
    (max (totalExponent m₁ e₁ - totalExponent m₂ e₂ - 53) (-1074)) = t
  obtain ⟨k, hk⟩ : ∃ k : Nat, t + k = e₁ - e₂ := Int.le.dest (ht ▸ min_le_left _ _)
  have hshift : (e₁ - e₂ - t).toNat = k := by omega
  have hcore : divCore .binary64 m₁ e₁ m₂ e₂ =
      (m₁ <<< k / m₂, t, accuracyOfFraction (m₁ <<< k % m₂) m₂) := by
    unfold divCore
    rw [targetExponent_eq]
    dsimp only
    rw [ht, hshift]
  have hquotient : q / 2 ^ t = ((m₁ <<< k : ℕ) : ℚ) / m₂ := by
    have hpower : (2 : ℚ) ^ e₁ = 2 ^ k * 2 ^ t * 2 ^ e₂ := by
      rw [← zpow_natCast, ← zpow_add₀ (by norm_num), ← zpow_add₀ (by norm_num)]
      congr 1
      omega
    have hpos₂ : (m₂ : ℚ) ≠ 0 := by exact_mod_cast h₂.ne'
    rw [h, hpower, Nat.shiftLeft_eq]
    push_cast
    field_simp
  have hlies : Lies (m₁ <<< k / m₂) (q / 2 ^ t) (accuracyOfFraction (m₁ <<< k % m₂) m₂) :=
    hquotient ▸ lies_div h₂
  have htarget : t ≤ max (totalExponent (m₁ <<< k / m₂) t - 53) (-1074) := by
    unfold totalExponent at ht ⊢
    by_cases hmin : t ≤ -1074
    · omega
    · have := quotient_full h₁ h₂ (k := k) (by omega)
      omega
  unfold UnpackedFloat.div
  dsimp only
  rw [hcore]
  exact roundWithAccuracy_eq hb hpos hq hlies htarget .positive

end Arithmetic

/-! ### Whole numbers and decimals as doubles -/

section Decimals

variable {m : Nat} {e : Int} {q : ℚ} {b : Binary} {x : Float}

/-- A double is a positive whole number, with a full mantissa. -/
def IsWhole (x : Float) (k : Nat) : Prop :=
  ∃ n e h, x.toModel.unpack = .finite .positive n e h ∧ (n : ℚ) * 2 ^ e = k ∧ 2 ^ 52 ≤ n

/-- Below `2 ^ 53` a mantissa is made full. -/
theorem exists_full (hpos : 0 < m) (hm : m < 2 ^ 53) :
    ∃ k, m.log2 + k = 52 ∧ 2 ^ 52 ≤ m * 2 ^ k ∧ m * 2 ^ k < 2 ^ 53 := by
  have hlog : m.log2 ≤ 52 := by
    have := (Nat.log2_lt hpos.ne').mpr hm
    omega
  obtain ⟨k, hk⟩ : ∃ k, m.log2 + k = 52 := Nat.le.dest hlog
  refine ⟨k, hk, ?_, ?_⟩
  · calc 2 ^ 52 = 2 ^ m.log2 * 2 ^ k := by rw [← pow_add, hk]
      _ ≤ m * 2 ^ k := Nat.mul_le_mul_right _ (Nat.log2_self_le hpos.ne')
  · calc m * 2 ^ k < 2 ^ (m.log2 + 1) * 2 ^ k :=
          Nat.mul_lt_mul_of_pos_right Nat.lt_log2_self (by positivity)
      _ = 2 ^ 53 := by rw [← pow_add]; congr 1; omega

theorem ofUInt64_toUInt64 (hpos : 0 < m) (hm : m < 2 ^ 53) :
    UnpackedFloat.ofUInt64 .binary64 m.toUInt64 =
      UnpackedFloat.round .binary64 .positive m 0 := by
  have hgt : compare (m : Int) 0 = .gt := Int.compare_eq_gt.mpr (by omega)
  unfold UnpackedFloat.ofUInt64 UnpackedFloat.ofNat UnpackedFloat.ofInt UnpackedFloat.normalize
  rw [Nat.toUInt64, UInt64.toNat_ofNat_of_lt' (by simp only [UInt64.size]; omega), hgt]
  rfl

theorem round_eq {k : Nat} (hk : m.log2 + k = 52) (hlow : 2 ^ 52 ≤ m * 2 ^ k)
    (hhigh : m * 2 ^ k < 2 ^ 53) (hfull : 0 < m * 2 ^ k) :
    UnpackedFloat.round .binary64 .positive m 0 = .finite .positive (m * 2 ^ k) (-k) hfull := by
  have hlies : Lies (m * 2 ^ k) ((m : ℚ) / 2 ^ (-k : Int)) .exact := by
    change (m : ℚ) / 2 ^ (-k : Int) = (m * 2 ^ k : ℕ)
    rw [zpow_neg, zpow_natCast, div_inv_eq_mul]
    push_cast
    rfl
  obtain ⟨hlegal, hrounds⟩ := rounds_of_nearest hlies.nearest (by omega) hhigh fun _ => ⟨hlow, by
    have : (2 : ℚ) ^ 52 ≤ (m * 2 ^ k : ℕ) := by exact_mod_cast hlow
    have := hlies.bounds.1
    linarith⟩
  have hshift : (0 - max (totalExponent m 0 - 53) (-1074)).toNat = k := by
    unfold totalExponent
    omega
  have hlog : (m * 2 ^ k).log2 = 52 := (Nat.log2_eq_iff (by omega)).mpr ⟨hlow, hhigh⟩
  unfold UnpackedFloat.round decreaseExponent
  rw [targetExponent_eq]
  dsimp only
  rw [hshift, Nat.shiftLeft_eq, zero_sub]
  refine roundWithAccuracy_eq hlegal _ hrounds hlies ?_ .positive
  rw [totalExponent, hlog]
  omega

/-- A number below `2 ^ 53` is a double by itself. -/
theorem isWhole_toFloat (hpos : 0 < m) (hm : m < 2 ^ 53) : IsWhole m.toUInt64.toFloat m := by
  obtain ⟨k, hk, hlow, hhigh⟩ := exists_full hpos hm
  have hfull : 0 < m * 2 ^ k := by omega
  have hmodel : m.toUInt64.toFloat.toModel =
      Float.Model.pack (.finite .positive (m * 2 ^ k) (-k) hfull) :=
    congrArg Float.Model.pack ((ofUInt64_toUInt64 hpos hm).trans (round_eq hk hlow hhigh hfull))
  refine ⟨m * 2 ^ k, -k, hfull, ?_, ?_, hlow⟩
  · rw [hmodel]
    exact unpack_pack (b := ⟨m * 2 ^ k, -k, false⟩) hlow hhigh (by dsimp only; omega)
      (by dsimp only; omega) hfull
  · rw [zpow_neg, zpow_natCast]
    push_cast
    exact mul_inv_cancel_right₀ (by positivity) _

theorem powers_facts : ∀ i : Fin Float.exactlyRepresentablePowersOfTen.size,
    let bits := Float.exactlyRepresentablePowersOfTen[i].toBits
    bits.toNat < 2 ^ 63 ∧ bits.toNat / 2 ^ 52 % 2048 ≠ 2047 ∧ bits.toNat ≠ 0 ∧
      2 ^ 52 ≤ (Binary.ofBits bits).mantissa ∧
      (Binary.ofBits bits).mantissa * 2 ^ (Binary.ofBits bits).exponent.toNat =
        10 ^ i.val * 2 ^ (-(Binary.ofBits bits).exponent).toNat := by
  decide +kernel

/-- The powers of ten in the table are doubles by themselves. -/
theorem isWhole_power {i : Nat} (hi : i < Float.exactlyRepresentablePowersOfTen.size) :
    IsWhole Float.exactlyRepresentablePowersOfTen[i] (10 ^ i) := by
  obtain ⟨hsign, hfinite, hne, hfull, hvalue⟩ := powers_facts ⟨i, hi⟩
  dsimp only [Fin.getElem_fin] at hsign hfinite hne hfull hvalue
  generalize hx : Float.exactlyRepresentablePowersOfTen[i] = x at *
  have hunpacked := unpack_bits hfinite (by omega)
  have hpositive : signOf x.toBits = .positive := if_neg (by omega)
  rw [hpositive] at hunpacked
  refine ⟨_, _, _, hunpacked, ?_, hfull⟩
  have hscale := Binary.zpow_mul_toNat (a := 2) (by norm_num) (Binary.ofBits x.toBits).exponent
  have hvalue :
      ((Binary.ofBits x.toBits).mantissa : ℚ) * 2 ^ (Binary.ofBits x.toBits).exponent.toNat =
        10 ^ i * 2 ^ (-(Binary.ofBits x.toBits).exponent).toNat := by exact_mod_cast hvalue
  rw [← hscale, ← mul_assoc] at hvalue
  rw [mul_right_cancel₀ (by positivity) hvalue]
  push_cast
  rfl

theorem mul_of_isWhole {y : Float} {k l : Nat} (hx : IsWhole x k) (hy : IsWhole y l) (hb : b.Legal)
    (hpos : 0 < b.mantissa) (hq : b.Rounds (k * l)) :
    (x * y).toModel = Float.Model.pack (.finite .positive b.mantissa b.exponent hpos) := by
  obtain ⟨n₁, e₁, h₁, hx, hk, hfull⟩ := hx
  obtain ⟨n₂, e₂, h₂, hy, hl, -⟩ := hy
  change Float.Model.pack (UnpackedFloat.mul .binary64 x.toModel.unpack y.toModel.unpack) = _
  rw [hx, hy, mul_eq hb hpos hq ?_ (hfull.trans (Nat.le_mul_of_pos_right _ h₂)) h₁ h₂]
  rw [← hk, ← hl, zpow_add₀ (by norm_num)]
  ring

theorem div_of_isWhole {y : Float} {k l : Nat} (hx : IsWhole x k) (hy : IsWhole y l) (hb : b.Legal)
    (hpos : 0 < b.mantissa) (hq : b.Rounds (k / l)) :
    (x / y).toModel = Float.Model.pack (.finite .positive b.mantissa b.exponent hpos) := by
  obtain ⟨n₁, e₁, h₁, hx, hk, -⟩ := hx
  obtain ⟨n₂, e₂, h₂, hy, hl, -⟩ := hy
  change Float.Model.pack (UnpackedFloat.div .binary64 x.toModel.unpack y.toModel.unpack) = _
  rw [hx, hy, div_eq hb hpos hq (by rw [hk, hl]) h₁ h₂]

/-- What rounds to a double that is not zero is within the range of doubles. -/
theorem range_of_rounds (hb : b.Legal) (hpos : 0 < b.mantissa) (hmax : b.exponent ≤ 971)
    (hq : b.Rounds q) : (2 : ℚ) ^ (-1075 : Int) ≤ q ∧ q ≤ 2 ^ (1025 : Int) := by
  have hunit : (2 : ℚ) ^ (-1074 : Int) ≤ 2 ^ b.exponent :=
    zpow_le_zpow_right₀ (by norm_num) hb.lowest
  have hhigh : (2 : ℚ) ^ b.exponent ≤ 2 ^ (971 : Int) :=
    zpow_le_zpow_right₀ (by norm_num) hmax
  have hmantissa : (1 : ℚ) ≤ b.mantissa := by exact_mod_cast hpos
  have hmantissa' : (b.mantissa : ℚ) + 1 ≤ 2 ^ 53 := by exact_mod_cast hb.mantissa
  constructor
  · have hgap : (if b.narrowBelow then (1 : ℚ) else 2) ≤ 2 := by split <;> norm_num
    have hlow : 2 * (2 : ℚ) ^ (-1074 : Int) ≤ b.low :=
      mul_le_mul (by linarith) hunit (by positivity) (by linarith)
    have hhalf : (2 : ℚ) ^ (-1074 : Int) = 2 * 2 ^ (-1075 : Int) := by
      rw [← zpow_one_add₀ (by norm_num)]
      norm_num
    have := hq.above
    linarith
  · have htop : b.high ≤ 2 ^ 56 * 2 ^ (971 : Int) :=
      mul_le_mul (by linarith) hhigh (by positivity) (by positivity)
    have hpower : (2 : ℚ) ^ 56 * 2 ^ (971 : Int) = 4 * 2 ^ (1025 : Int) := by
      rw [← zpow_natCast, ← zpow_add₀ (by norm_num), show (4 : ℚ) = 2 ^ (2 : Int) by norm_num,
        ← zpow_add₀ (by norm_num)]
      norm_num
    rw [hpower] at htop
    exact le_of_mul_le_mul_left (hq.below.trans htop) (by norm_num)

theorem ne_zero_of_range (hlow : (2 : ℚ) ^ (-1075 : Int) ≤ m * 10 ^ e) : m ≠ 0 := by
  rintro rfl
  rw [Nat.cast_zero, zero_mul] at hlow
  exact absurd hlow (not_le.mpr (by positivity))

theorem exponent_le_of_range (hm : m ≠ 0) (hhigh : m * 10 ^ e ≤ (2 : ℚ) ^ (1025 : Int)) :
    e ≤ 1025 := by
  by_contra hbig
  have hm : (1 : ℚ) ≤ m := by exact_mod_cast Nat.one_le_iff_ne_zero.mpr hm
  have hover : (2 : ℚ) ^ (1025 : Int) < m * 10 ^ e :=
    calc (2 : ℚ) ^ (1025 : Int) < 2 ^ e := zpow_lt_zpow_right₀ (by norm_num) (by omega)
      _ ≤ 10 ^ e := zpow_le_zpow_left₀ (by omega) (by norm_num) (by norm_num)
      _ ≤ m * 10 ^ e := le_mul_of_one_le_left (by positivity) hm
  exact absurd hhigh (not_le.mpr hover)

theorem le_exponent_of_range (hlow : (2 : ℚ) ^ (-1075 : Int) ≤ m * 10 ^ e) :
    -1076 - (m.log2 : Int) ≤ e := by
  by_contra hsmall
  have hpower : (10 : ℚ) ^ e ≤ 2 ^ e := by
    rw [← neg_neg e, zpow_neg _ (-e), zpow_neg _ (-e)]
    exact inv_anti₀ (by positivity) (zpow_le_zpow_left₀ (by omega) (by norm_num) (by norm_num))
  have htop : (m : ℚ) < 2 ^ (m.log2 + 1) := by exact_mod_cast Nat.lt_log2_self
  have hunder : (m : ℚ) * 10 ^ e < 2 ^ (-1075 : Int) :=
    calc (m : ℚ) * 10 ^ e ≤ 2 ^ (m.log2 + 1) * 2 ^ e :=
          mul_le_mul htop.le hpower (by positivity) (by positivity)
      _ = 2 ^ ((m.log2 + 1 : ℕ) + e : Int) := by
        rw [← zpow_natCast, ← zpow_add₀ (by norm_num)]
      _ < 2 ^ (-1075 : Int) := zpow_lt_zpow_right₀ (by norm_num) (by push_cast; omega)
  exact absurd hlow (not_le.mpr hunder)

/-- The model's reader, on decimals that round to a double. -/
theorem unpacked_ofScientific (hb : b.Legal) (hpos : 0 < b.mantissa) (hmax : b.exponent ≤ 971)
    (hq : b.Rounds (m * 10 ^ e)) : UnpackedFloat.ofScientific .binary64 m e =
      .finite .positive b.mantissa b.exponent hpos := by
  obtain ⟨hlow, hhigh⟩ := range_of_rounds hb hpos hmax hq
  have hm := ne_zero_of_range hlow
  have hbits : (2 : Int) ^ Format.binary64.exponentBits = 2048 := rfl
  have hsmall : ¬ e > 2048 := by
    have := exponent_le_of_range hm hhigh
    omega
  have hlarge : ¬ e < -(2048 + m.log2) := by
    have := le_exponent_of_range hlow
    omega
  unfold UnpackedFloat.ofScientific
  rw [hbits, dif_neg hm, if_neg hsmall, if_neg hlarge]
  split
  · next hnonneg =>
    obtain ⟨k, rfl⟩ := Int.eq_ofNat_of_zero_le hnonneg
    have hpower : 0 < 10 ^ k := by positivity
    refine mul_eq hb hpos hq ?_ ?_ _ _
    · have hscale : (2 : ℚ) ^ Format.binary64.mantissaBits *
          2 ^ (-(Format.binary64.mantissaBits : Int) + 0) = 1 := by
        rw [add_zero, ← zpow_natCast, ← zpow_add₀ (by norm_num), add_neg_cancel, zpow_zero]
      rw [Nat.shiftLeft_eq, Int.toNat_natCast, zpow_natCast]
      push_cast
      rw [mul_right_comm (m : ℚ), mul_assoc _ ((2 : ℚ) ^ _), hscale, mul_one]
    · have hwide : 2 ^ 52 ≤ m <<< Format.binary64.mantissaBits := by
        rw [Nat.shiftLeft_eq]
        exact (by norm_num : 2 ^ 52 ≤ 2 ^ 53).trans (Nat.le_mul_of_pos_left _ (by omega))
      exact hwide.trans (Nat.le_mul_of_pos_right _ hpower)
  · next hneg =>
    obtain ⟨k, rfl⟩ := Int.eq_negSucc_of_lt_zero (not_le.mp hneg)
    refine div_eq hb hpos hq ?_ _ _
    rw [zpow_zero, mul_one, mul_one]
    rw [zpow_negSucc, Int.neg_negSucc, Int.toNat_natCast, div_eq_mul_inv]
    push_cast
    rfl

/-- A finite double is told by its parts. -/
theorem eq_of_toModel {y : Float} (hfinite : isFinite x = true)
    (hy : y.toModel = Float.Model.pack x.toModel.unpack) : y = x := by
  apply Float.toBits_inj.mp
  apply UInt64.toBitVec_inj.mp
  change y.toModel.toBits.toBitVec = _
  rw [hy]
  exact pack_unpack_bits (of_decide_eq_true hfinite)

/-- The reader's way for short decimals: one product or quotient with a power from the table. -/
theorem short_eq (hb : b.Legal) (hpos : 0 < b.mantissa) (hmax : b.exponent ≤ 971)
    (hq : b.Rounds (m * 10 ^ e)) (hm : m < 2 ^ 53)
    (he : e.natAbs < Float.exactlyRepresentablePowersOfTen.size) :
    (if e < 0 then m.toUInt64.toFloat / Float.exactlyRepresentablePowersOfTen[e.natAbs]
      else m.toUInt64.toFloat * Float.exactlyRepresentablePowersOfTen[e.natAbs]).toModel =
        Float.Model.pack (.finite .positive b.mantissa b.exponent hpos) := by
  have hm0 := ne_zero_of_range (range_of_rounds hb hpos hmax hq).1
  have hwhole := isWhole_toFloat (Nat.pos_of_ne_zero hm0) hm
  have hten : IsWhole _ (10 ^ e.natAbs) := isWhole_power he
  split
  · next hneg =>
    obtain ⟨k, rfl⟩ := Int.eq_negSucc_of_lt_zero hneg
    refine div_of_isWhole hwhole hten hb hpos ?_
    rw [Int.natAbs_negSucc]
    rw [zpow_negSucc, ← div_eq_mul_inv] at hq
    exact_mod_cast hq
  · next hneg =>
    obtain ⟨k, rfl⟩ := Int.eq_ofNat_of_zero_le (not_lt.mp hneg)
    refine mul_of_isWhole hwhole hten hb hpos ?_
    rw [Int.natAbs_natCast]
    rw [zpow_natCast] at hq
    exact_mod_cast hq

/-- A decimal that rounds to a double is read as that double. -/
theorem ofScientific_eq (hfinite : isFinite x = true) (hsign : x.toBits.toNat < 2 ^ 63)
    (hne : x.toBits.toNat ≠ 0) (hq : (Binary.ofBits x.toBits).Rounds (m * 10 ^ e)) :
    Float.ofScientific m (e < 0) e.natAbs = x := by
  have hb := Binary.legal_ofBits x.toBits
  have hpos : 0 < (Binary.ofBits x.toBits).mantissa := Binary.mantissa_pos (by omega)
  have hbits : x.toBits.toNat / 2 ^ 52 % 2048 ≠ 2047 := of_decide_eq_true hfinite
  have hmax := Binary.exponent_ofBits_le hbits
  have hunpacked : x.toModel.unpack = .finite .positive (Binary.ofBits x.toBits).mantissa
      (Binary.ofBits x.toBits).exponent hpos := by
    have hpositive : signOf x.toBits = .positive := if_neg (by omega)
    exact hpositive ▸ unpack_bits hbits (by omega)
  apply eq_of_toModel hfinite
  rw [hunpacked]
  unfold Float.ofScientific
  split
  · next hshort =>
    dsimp only
    simp only [decide_eq_true_eq]
    exact short_eq hb hpos hmax hq hshort.1 (Nat.lt_succ_of_le hshort.2)
  · have hexponent :
        (if decide (e < 0) = true then Int.negOfNat e.natAbs else Int.ofNat e.natAbs) = e := by
      cases e with
      | ofNat k => rfl
      | negSucc k =>
        rw [if_pos (decide_eq_true (Int.negSucc_lt_zero k))]
        rfl
    dsimp only
    rw [hexponent]
    exact congrArg Float.Model.pack (unpacked_ofScientific hb hpos hmax hq)

end Decimals

end Marginalia.Decimal
