import Mathlib
import Marginalia.Proofs.Decimal.Notation
import Marginalia.Proofs.Decimal.Rounding

/-! Numerals read as doubles: a finite double is read from the text that it is written as. -/

namespace Marginalia.Decimal

section Reading

variable {n : Notation} {x y : Float} {cs : List Char} {s : Shortest} {m k : Nat} {e : Int}

theorem digits_bounds (k : Nat) :
    k < 10 ^ (digits k).length ∧ (0 < k → 10 ^ (digits k).length ≤ 10 * k) := by
  fun_induction digits k with
  | case1 k h => simp; omega
  | case2 k h ih =>
    obtain ⟨hlt, hle⟩ := ih
    have hle := hle (by omega)
    rw [List.length_append, List.length_singleton, pow_succ]
    omega

/-- A decimal in the range of doubles is not decided by its magnitude. -/
theorem magnitude_bounds (hlow : (2 : ℚ) ^ (-1075 : Int) ≤ m * 10 ^ e)
    (hhigh : m * 10 ^ e ≤ (2 : ℚ) ^ (1025 : Int)) :
    -400 ≤ e + (digits m).length ∧ e + (digits m).length ≤ 400 := by
  obtain ⟨hlt, hle⟩ := digits_bounds m
  have hle := hle (Nat.pos_of_ne_zero (ne_zero_of_range hlow))
  generalize (digits m).length = l at hlt hle ⊢
  have hlt : (m : ℚ) < 10 ^ l := by exact_mod_cast hlt
  have hle : (10 : ℚ) ^ l ≤ 10 * m := by exact_mod_cast hle
  have hpower : (10 : ℚ) ^ l * 10 ^ e = 10 ^ (e + l) := by
    rw [zpow_add₀ (by norm_num), zpow_natCast, mul_comm]
  have hten : (0 : ℚ) < 10 ^ e := by positivity
  constructor
  · by_contra hsmall
    have hpowers : (10 : ℚ) ^ (-401 : Int) < 2 ^ (-1075 : Int) :=
      (ten_zpow_neg_le 401).trans_lt (zpow_lt_zpow_right₀ (by norm_num) (by norm_num))
    have hunder : (m : ℚ) * 10 ^ e < 2 ^ (-1075 : Int) :=
      calc (m : ℚ) * 10 ^ e < 10 ^ l * 10 ^ e := mul_lt_mul_of_pos_right hlt hten
        _ = 10 ^ (e + l) := hpower
        _ ≤ 10 ^ (-401 : Int) := zpow_le_zpow_right₀ (by norm_num) (by omega)
        _ < 2 ^ (-1075 : Int) := hpowers
    exact absurd hlow (not_le.mpr hunder)
  · by_contra hbig
    have hpowers : (10 : ℚ) * 2 ^ (1025 : Int) < 10 ^ (401 : Int) :=
      calc (10 : ℚ) * 2 ^ (1025 : Int) < 2 ^ (4 : Int) * 2 ^ (1025 : Int) :=
            mul_lt_mul_of_pos_right (by norm_num) (by positivity)
        _ = 2 ^ (4 + 1025 : Int) := (zpow_add₀ (by norm_num) _ _).symm
        _ ≤ 2 ^ ((3 * 401 : ℕ) : Int) := zpow_le_zpow_right₀ (by norm_num) (by norm_num)
        _ ≤ 10 ^ ((401 : ℕ) : Int) := by
          rw [zpow_natCast, zpow_natCast]
          exact two_pow_le_ten_pow 401
    have hscaled : (10 : ℚ) ^ (401 : Int) ≤ 10 * (m * 10 ^ e) :=
      calc (10 : ℚ) ^ (401 : Int) ≤ 10 ^ (e + l) := zpow_le_zpow_right₀ (by norm_num) (by omega)
        _ = 10 ^ l * 10 ^ e := hpower.symm
        _ ≤ 10 * m * 10 ^ e := mul_le_mul_of_nonneg_right hle hten.le
        _ = 10 * (m * 10 ^ e) := mul_assoc _ _ _
    have hover : (2 : ℚ) ^ (1025 : Int) < m * 10 ^ e :=
      lt_of_mul_lt_mul_left (hpowers.trans_le hscaled) (by norm_num)
    exact absurd hhigh (not_le.mpr hover)

/-- Where the decimal rounds to a double, the double is nearest to it. -/
theorem nearest_eq (hfinite : isFinite x = true) (hsign : x.toBits.toNat < 2 ^ 63)
    (hne : x.toBits.toNat ≠ 0) (hq : (Binary.ofBits x.toBits).Rounds (m * 10 ^ e)) :
    nearest m e = x := by
  have hpos : 0 < (Binary.ofBits x.toBits).mantissa := Binary.mantissa_pos (by omega)
  obtain ⟨hlow, hhigh⟩ := range_of_rounds (Binary.legal_ofBits x.toBits) hpos
    (Binary.exponent_ofBits_le (of_decide_eq_true hfinite)) hq
  obtain ⟨hsmall, hbig⟩ := magnitude_bounds hlow hhigh
  unfold nearest
  dsimp only
  rw [if_neg (ne_zero_of_range hlow), if_neg (not_lt.mpr hbig), if_neg (not_lt.mpr hsmall)]
  exact ofScientific_eq hfinite hsign hne hq

/-- A numeral that begins with a digit is read by the decimal that it stands for. -/
theorem readUnsigned?_eq {c : Char} (hc : Text.isDigit c = true) :
    readUnsigned? (c :: cs) = (numeral? (c :: cs)).map fun s => nearest s.digits s.exponent := by
  have hlower : Text.lower c = c := by
    simp only [Text.isDigit, Bool.and_eq_true, decide_eq_true_eq, Char.le_def] at hc
    apply if_neg
    rintro ⟨hupper, -⟩
    exact absurd (hupper.trans hc.2) (by decide)
  have hword {w : List Char} {d : Char} (hd : Text.isDigit d = false) :
      (c :: cs).map Text.lower ≠ d :: w := by
    intro h
    rw [List.map_cons, hlower] at h
    obtain ⟨rfl, -⟩ := List.cons.inj h
    rw [hc] at hd
    cases hd
  have hinfinite : ¬ ((c :: cs).map Text.lower = "inf".toList ∨
      (c :: cs).map Text.lower = "infinity".toList) :=
    not_or.mpr ⟨hword (by decide), hword (by decide)⟩
  have hnone : (c :: cs).map Text.lower ≠ "nan".toList := hword (by decide)
  have hsplit : ¬ ((splitMantissa (c :: cs)).1 = [] ∧ (splitMantissa (c :: cs)).2.1 = []) := by
    rintro ⟨hwhole, -⟩
    unfold splitMantissa at hwhole
    rw [List.takeWhile_cons_of_pos hc] at hwhole
    split at hwhole
    · cases hwhole
    · cases hwhole
  unfold readUnsigned?
  dsimp only
  rw [if_neg hinfinite, if_neg hnone, if_neg hsplit]
  unfold numeral?
  rw [Option.map_map]
  rfl

theorem readReal?_eq {c : Char} (hc : Text.isDigit c = true) :
    readReal? (c :: cs) = readUnsigned? (c :: cs) := by
  unfold readReal?
  split
  · next he =>
    obtain ⟨rfl, -⟩ := List.cons.inj he
    exact absurd hc (by decide)
  · next he =>
    obtain ⟨rfl, -⟩ := List.cons.inj he
    exact absurd hc (by decide)
  · rfl

theorem eq_zero_of_bits (h : x.toBits.toNat = 0) : x = 0 :=
  Float.toBits_inj.mp (UInt64.toNat_inj.mp h)

theorem ofBits_congr {bits bits' : UInt64} (h : bits.toNat % 2 ^ 63 = bits'.toNat % 2 ^ 63) :
    Binary.ofBits bits = Binary.ofBits bits' := by
  have hfraction : bits.toNat % 2 ^ 52 = bits'.toNat % 2 ^ 52 := by omega
  have hexponent : bits.toNat / 2 ^ 52 % 2048 = bits'.toNat / 2 ^ 52 % 2048 := by omega
  simp only [Binary.ofBits, Nat.pow_eq, hfraction, hexponent]

/-- A finite double without its sign. -/
theorem exists_unsigned (hx : isFinite x = true) : ∃ y : Float, isFinite y = true ∧
    y.toBits.toNat = x.toBits.toNat % 2 ^ 63 := by
  have hbits : (UInt64.ofNat (x.toBits.toNat % 2 ^ 63)).toNat = x.toBits.toNat % 2 ^ 63 :=
    UInt64.toNat_ofNat_of_lt' (by simp only [UInt64.size]; omega)
  have hx : x.toBits.toNat / 2 ^ 52 % 2048 ≠ 2047 := of_decide_eq_true hx
  have hfinite : (UInt64.ofNat (x.toBits.toNat % 2 ^ 63)).toNat / 2 ^ 52 % 2048 ≠ 2047 := by omega
  have hsame : (Float.ofBits (UInt64.ofNat (x.toBits.toNat % 2 ^ 63))).toBits =
      UInt64.ofNat (x.toBits.toNat % 2 ^ 63) :=
    UInt64.toBitVec_inj.mp (pack_unpack_bits hfinite)
  refine ⟨.ofBits (UInt64.ofNat (x.toBits.toNat % 2 ^ 63)), ?_, ?_⟩
  · apply decide_eq_true
    rw [hsame]
    exact hfinite
  · rw [hsame, hbits]

theorem neg_eq (hx : isFinite x = true) (hy : isFinite y = true)
    (hsign : x.toBits.toNat / 2 ^ 63 = 1) (hbits : y.toBits.toNat = x.toBits.toNat % 2 ^ 63) :
    -y = x := by
  by_cases hzero : x.toBits.toNat % 2 ^ 63 = 0
  · have hyzero : y = 0 := eq_zero_of_bits (hbits.trans hzero)
    have hvalue : (-0 : Float).toBits.toNat = 2 ^ 63 := by decide
    apply Float.toBits_inj.mp
    apply UInt64.toNat_inj.mp
    rw [hyzero, hvalue]
    omega
  · have hxparts := unpack_bits (of_decide_eq_true hx) hzero
    have hne : y.toBits.toNat % 2 ^ 63 ≠ 0 := by omega
    have hyparts := unpack_bits (of_decide_eq_true hy) hne
    have hxsign : signOf x.toBits = .negative := if_pos hsign
    have hysign : signOf y.toBits = .positive := if_neg (by omega)
    have hsame : Binary.ofBits y.toBits = Binary.ofBits x.toBits := ofBits_congr (by omega)
    rw [hxsign] at hxparts
    simp only [hysign, hsame] at hyparts
    apply eq_of_toModel hx
    change Float.Model.pack (Float.Model.UnpackedFloat.neg y.toModel.unpack) = _
    change y.toModel.unpack = _ at hyparts
    change x.toModel.unpack = _ at hxparts
    rw [hyparts, hxparts]
    rfl

/-- The text of a double without its sign is read as the double without its sign. -/
theorem readUnsigned?_unsigned (hn : n.Readable) (hy : isFinite y = true)
    (hbits : y.toBits.toNat = x.toBits.toNat % 2 ^ 63) :
    readUnsigned? (n.unsigned x.toBits) = some y := by
  obtain ⟨c, r, hc, hdigit⟩ := (isNumeral_unsigned hn x.toBits).begins
  obtain ⟨t, ht, hvalue⟩ := numeral?_unsigned hn x.toBits
  have hnearest : nearest t.digits t.exponent = y := by
    split at hvalue
    · next hzero =>
      have hdigits : t.digits = 0 := by
        have hten : (10 : ℚ) ^ t.exponent ≠ 0 := by positivity
        exact_mod_cast (mul_eq_zero.mp hvalue).resolve_right hten
      rw [nearest, if_pos hdigits]
      exact (eq_zero_of_bits (hbits.trans hzero)).symm
    · next hne =>
      have hrounds := (rounds_shortest (Binary.mantissa_pos hne)).2
      have hsame : Binary.ofBits x.toBits = Binary.ofBits y.toBits := ofBits_congr (by omega)
      rw [← hvalue, hsame] at hrounds
      exact nearest_eq hy (by omega) (by omega) hrounds
  rw [hc] at ht ⊢
  rw [readUnsigned?_eq hdigit, ht, Option.map_some, hnearest]

/-- A finite double is read from its text in a notation. -/
theorem readReal?_write (hn : n.Readable) (hx : isFinite x = true) :
    readReal? (n.write x) = some x := by
  obtain ⟨c, r, hc, hdigit⟩ := (isNumeral_unsigned hn x.toBits).begins
  obtain ⟨y, hy, hbits⟩ := exists_unsigned hx
  have hunsigned := readUnsigned?_unsigned hn hy hbits
  rw [write_eq]
  split
  · next hsign =>
    change (readUnsigned? (n.unsigned x.toBits)).map (fun x => -x) = _
    rw [hunsigned, Option.map_some, neg_eq hx hy hsign hbits]
  · next hsign =>
    have hlt := x.toBits.toNat_lt
    have hsame : y = x := Float.toBits_inj.mp (UInt64.toNat_inj.mp (by omega))
    rw [List.nil_append, hc, readReal?_eq hdigit, ← hc, hunsigned, hsame]

end Reading

end Marginalia.Decimal
