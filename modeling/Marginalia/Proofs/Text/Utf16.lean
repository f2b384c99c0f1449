import Mathlib.Data.List.Basic
import Marginalia.Text.Utf16

/-! Sixteen-bit units are read as the characters that they were written for: one unit for a
character of the first plane, and the two surrogates of any other, in either order of bytes. -/

namespace Marginalia.Text.Utf16

variable {c : Char} {us : List Nat} {u v : Nat}

theorem toNat_bounds (c : Char) :
    c.toNat < 0xD800 ∨ 0xDFFF < c.toNat ∧ c.toNat < 0x110000 := c.valid

theorem not_surrogate (c : Char) : isHigh c.toNat = false ∧ isLow c.toNat = false := by
  have h := toNat_bounds c
  simp only [isHigh, isLow, Bool.and_eq_false_iff, decide_eq_false_iff_not]
  omega

theorem ofUnits?_toNat (c : Char) (us : List Nat) :
    ofUnits? (c.toNat :: us) = (ofUnits? us).map (c :: ·) := by
  obtain ⟨hhigh, hlow⟩ := not_surrogate c
  cases us with
  | nil => simp [ofUnits?, hhigh, hlow]
  | cons v us => simp [ofUnits?, hhigh, hlow]

theorem ofUnits?_pair (hu : isHigh u = true) (hv : isLow v = true) (us : List Nat) :
    ofUnits? (u :: v :: us) = (ofUnits? us).map (pair u v :: ·) := by
  rw [ofUnits?, if_pos hu, if_pos hv]

theorem isHigh_highUnit (h : 0x10000 ≤ c.toNat) :
    isHigh (0xD800 + (c.toNat - 0x10000) / 0x400) = true := by
  have hc := toNat_bounds c
  simp only [isHigh, Bool.and_eq_true, decide_eq_true_eq]
  omega

theorem isLow_lowUnit (n : Nat) : isLow (0xDC00 + n % 0x400) = true := by
  simp only [isLow, Bool.and_eq_true, decide_eq_true_eq]
  omega

theorem pair_surrogates (h : 0x10000 ≤ c.toNat) :
    pair (0xD800 + (c.toNat - 0x10000) / 0x400) (0xDC00 + (c.toNat - 0x10000) % 0x400) = c := by
  have hn : 0x10000 + (0xD800 + (c.toNat - 0x10000) / 0x400 - 0xD800) * 0x400 +
      (0xDC00 + (c.toNat - 0x10000) % 0x400 - 0xDC00) = c.toNat := by omega
  rw [pair, hn, Char.ofNat_toNat]

/-- A character is read from its units, whatever follows them. -/
theorem ofUnits?_unitsOfChar (c : Char) (us : List Nat) :
    ofUnits? (unitsOfChar c ++ us) = (ofUnits? us).map (c :: ·) := by
  unfold unitsOfChar
  split
  · rw [List.singleton_append, ofUnits?_toNat]
  · next h =>
    have hc : 0x10000 ≤ c.toNat := Nat.le_of_not_lt h
    rw [List.cons_append, List.singleton_append, ofUnits?_pair (isHigh_highUnit hc)
      (isLow_lowUnit _), pair_surrogates hc]

theorem ofUnits?_flatMap (cs : List Char) : ofUnits? (cs.flatMap unitsOfChar) = some cs := by
  induction cs with
  | nil => rfl
  | cons c cs ih => rw [List.flatMap_cons, ofUnits?_unitsOfChar, ih, Option.map_some]

theorem lt_of_mem_unitsOfChar (h : u ∈ unitsOfChar c) : u < 0x10000 := by
  have hc := toNat_bounds c
  unfold unitsOfChar at h
  split at h
  · next hlt => exact List.mem_singleton.mp h ▸ hlt
  · rcases List.mem_pair.mp h with h | h
    · omega
    · omega

theorem units?_bytesOfUnit (e : Endian) (h : u < 0x10000) (bytes : List UInt8) :
    units? e (bytesOfUnit e u ++ bytes) = (units? e bytes).map (u :: ·) := by
  have hlow : (UInt8.ofNat (u % 256)).toNat = u % 256 :=
    UInt8.toNat_ofNat_of_lt' (Nat.mod_lt u (by decide))
  have hhigh : (UInt8.ofNat (u / 256)).toNat = u / 256 :=
    UInt8.toNat_ofNat_of_lt' (Nat.div_lt_of_lt_mul h)
  have hu : u / 256 * 256 + u % 256 = u := by omega
  cases e with
  | little => simp [bytesOfUnit, units?, unit, hlow, hhigh, hu]
  | big => simp [bytesOfUnit, units?, unit, hlow, hhigh, hu]

theorem units?_flatMap (e : Endian) (h : ∀ u ∈ us, u < 0x10000) :
    units? e (us.flatMap (bytesOfUnit e)) = some us := by
  induction us with
  | nil => rfl
  | cons u us ih =>
    obtain ⟨hu, hus⟩ := List.forall_mem_cons.mp h
    rw [List.flatMap_cons, units?_bytesOfUnit e hu, ih hus, Option.map_some]

/-- A text is read from its units in the order of bytes that they were written in. -/
theorem decode?_encode (e : Endian) (cs : List Char) : decode? e (encode e cs) = some cs := by
  have hunits : ∀ u ∈ cs.flatMap unitsOfChar, u < 0x10000 := by
    intro u hu
    obtain ⟨c, -, hc⟩ := List.mem_flatMap.mp hu
    exact lt_of_mem_unitsOfChar hc
  rw [decode?, encode, units?_flatMap e hunits, Option.bind_some, ofUnits?_flatMap]

end Marginalia.Text.Utf16
