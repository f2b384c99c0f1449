import Mathlib.Tactic.SplitIfs
import Marginalia.Text.Utf8

/-! What a lenient reading of bytes leaves alone. A byte below 0x80 is a character by itself
wherever it stands, and bytes from 0x80 on are read in groups, each as one character beyond ASCII,
whether they are text or not. The bytes that a text is written as are read as that text. -/

namespace Marginalia.Text.Utf8

/-- Bytes, and the characters that they are read as. -/
inductive Reads : List UInt8 → List Char → Prop
  | nil : Reads [] []
  | ascii {b : UInt8} {bs : List UInt8} {cs : List Char} (hb : b < 0x80) (h : Reads bs cs) :
      Reads (b :: bs) (Char.ofNat b.toNat :: cs)
  | beyond {b : UInt8} {group bs : List UInt8} {c : Char} {cs : List Char}
      (hg : ∀ x ∈ b :: group, 0x80 ≤ x) (hc : 0x80 ≤ c.toNat) (h : Reads bs cs) :
      Reads (b :: (group ++ bs)) (c :: cs)

variable {lead b c d : UInt8}

theorem le_of_isTail (h : isTail b = true) : 0x80 ≤ b := by
  simp only [isTail, Bool.and_eq_true, decide_eq_true_eq] at h
  exact h.1

/-- What may follow the first byte of a longer character keeps its value away from those that have
shorter forms, from the surrogates and from what is past the last character. -/
theorem followsLead_bounds (h : followsLead lead b = true) :
    0x80 ≤ b.toNat ∧ b.toNat ≤ 0xBF ∧ (lead.toNat = 0xE0 → 0xA0 ≤ b.toNat) ∧
      (lead.toNat = 0xED → b.toNat ≤ 0x9F) ∧ (lead.toNat = 0xF0 → 0x90 ≤ b.toNat) ∧
      (lead.toNat = 0xF4 → b.toNat ≤ 0x8F) := by
  simp only [followsLead, isTail, ← UInt8.toNat_inj, UInt8.reduceToNat] at h
  split_ifs at h <;>
    simp only [Bool.and_eq_true, decide_eq_true_eq, UInt8.le_iff_toNat_le,
      UInt8.reduceToNat] at h <;>
    omega

theorem le_of_followsLead (h : followsLead lead b = true) : 0x80 ≤ b := by
  rw [UInt8.le_iff_toNat_le]
  exact (followsLead_bounds h).1

theorem toNat_ofNat {n : Nat} (h : n.isValidChar) : (Char.ofNat n).toNat = n := by
  unfold Char.ofNat
  rw [dif_pos h]
  rfl

theorem le_toNat_ofNat {n : Nat} (h : n.isValidChar) (hn : 0x80 ≤ n) :
    0x80 ≤ (Char.ofNat n).toNat := by
  rwa [toNat_ofNat h]

theorem two_beyond (h : 0xC2 ≤ lead ∧ lead ≤ 0xDF) :
    0x80 ≤ (Char.ofNat (lead.toNat % 32 * 64 + tailBits b)).toNat := by
  simp only [UInt8.le_iff_toNat_le, UInt8.reduceToNat] at h
  have hb : tailBits b < 64 := Nat.mod_lt _ (by omega)
  exact le_toNat_ofNat (Or.inl (by omega)) (by omega)

theorem three_beyond (h : 0xE0 ≤ lead ∧ lead ≤ 0xEF) (hb : followsLead lead b = true) :
    0x80 ≤ (Char.ofNat ((lead.toNat % 16 * 64 + tailBits b) * 64 + tailBits c)).toNat := by
  simp only [UInt8.le_iff_toNat_le, UInt8.reduceToNat] at h
  have hbounds := followsLead_bounds hb
  have hc : tailBits c < 64 := Nat.mod_lt _ (by omega)
  simp only [tailBits] at hc ⊢
  refine le_toNat_ofNat ?_ (by omega)
  unfold Nat.isValidChar
  omega

theorem four_beyond (h : 0xF0 ≤ lead ∧ lead ≤ 0xF4) (hb : followsLead lead b = true) :
    0x80 ≤ (Char.ofNat
      (((lead.toNat % 8 * 64 + tailBits b) * 64 + tailBits c) * 64 + tailBits d)).toNat := by
  simp only [UInt8.le_iff_toNat_le, UInt8.reduceToNat] at h
  have hbounds := followsLead_bounds hb
  have hc : tailBits c < 64 := Nat.mod_lt _ (by omega)
  have hd : tailBits d < 64 := Nat.mod_lt _ (by omega)
  simp only [tailBits] at hc hd ⊢
  refine le_toNat_ofNat (Or.inr ?_) (by omega)
  omega

/-- A byte beyond ASCII begins a character beyond ASCII. -/
theorem Reads.exists_char {bs : List UInt8} {cs : List Char} (h : Reads (b :: bs) cs)
    (hb : 0x80 ≤ b) : ∃ v vs, cs = v :: vs ∧ 0x80 ≤ v.toNat := by
  cases h with
  | ascii hlt => exact absurd hb (UInt8.not_le.mpr hlt)
  | beyond _ hv => exact ⟨_, _, rfl, hv⟩

theorem Reads.exists_byte {bs : List UInt8} {v : Char} {vs : List Char} (h : Reads bs (v :: vs))
    (hv : 0x80 ≤ v.toNat) : ∃ b r, bs = b :: r ∧ 0x80 ≤ b := by
  cases h with
  | @ascii b _ _ hb =>
    have hlt : b.toNat < 0x80 := UInt8.lt_iff_toNat_lt.mp hb
    rw [toNat_ofNat (Or.inl (by omega))] at hv
    omega
  | beyond hg => exact ⟨_, _, rfl, hg _ List.mem_cons_self⟩

theorem front_ascii (h : b < 0x80) (r : List UInt8) :
    front b r = (some (Char.ofNat b.toNat), 0) := by
  unfold front
  rw [if_pos h]

/-- A part at the front of bytes that keeps off ASCII: in the bytes that belong to it after the
first one, and in the character that it is or that stands for it. -/
structure Beyond (r : List UInt8) (f : Option Char × Nat) : Prop where
  bytes : ∀ x ∈ r.take f.2, 0x80 ≤ x
  char : 0x80 ≤ (f.1.getD '\uFFFD').toNat

theorem beyond_some {v : Char} (h : 0x80 ≤ v.toNat) (r : List UInt8) : Beyond r (some v, 0) :=
  ⟨by simp, h⟩

theorem beyond_none (r : List UInt8) : Beyond r (none, 0) :=
  ⟨by simp, show 0x80 ≤ '\uFFFD'.toNat by decide⟩

theorem Beyond.cons {o : Option Char} {r : List UInt8} {k : Nat} (h : Beyond r (o, k))
    (hb : 0x80 ≤ b) : Beyond (b :: r) (o, k + 1) :=
  ⟨List.forall_mem_cons.mpr ⟨hb, h.bytes⟩, h.char⟩

theorem front_beyond (hb : 0x80 ≤ b) (r : List UInt8) : Beyond r (front b r) := by
  have hlt : ¬ b < 0x80 := UInt8.not_lt.mpr hb
  unfold front
  rw [if_neg hlt]
  -- one case for each length of a character, and in it one for each place where it may break off
  split_ifs with h2 h3 h4
  · split
    · split_ifs with hc
      · exact (beyond_some (two_beyond h2) _).cons (le_of_isTail hc)
      · exact beyond_none _
    · exact beyond_none _
  · split
    · split_ifs with hc
      · have hc' := le_of_followsLead hc
        split
        · split_ifs with hd
          · exact ((beyond_some (three_beyond h3 hc) _).cons (le_of_isTail hd)).cons hc'
          · exact (beyond_none _).cons hc'
        · exact (beyond_none _).cons hc'
      · exact beyond_none _
    · exact beyond_none _
  · split
    · split_ifs with hc
      · have hc' := le_of_followsLead hc
        split
        · split_ifs with hd
          · have hd' := le_of_isTail hd
            split
            · split_ifs with he
              · exact (((beyond_some (four_beyond h4 hc) _).cons (le_of_isTail he)).cons hd').cons hc'
              · exact ((beyond_none _).cons hd').cons hc'
            · exact ((beyond_none _).cons hd').cons hc'
          · exact (beyond_none _).cons hc'
        · exact (beyond_none _).cons hc'
      · exact beyond_none _
    · exact beyond_none _
  · exact beyond_none r

theorem reads_parts (bytes : List UInt8) :
    Reads bytes ((parts bytes).map fun c => c.getD '\uFFFD') := by
  fun_induction parts bytes with
  | case1 => exact .nil
  | case2 b r f ih =>
    rw [List.map_cons]
    by_cases hb : b < 0x80
    · have hf : f = (some (Char.ofNat b.toNat), 0) := front_ascii hb r
      rw [hf] at ih ⊢
      exact .ascii hb ih
    · have hle : 0x80 ≤ b := UInt8.not_lt.mp hb
      have hf := front_beyond hle r
      have hread := Reads.beyond (List.forall_mem_cons.mpr ⟨hle, hf.bytes⟩) hf.char ih
      rwa [List.take_append_drop] at hread

/-- All bytes are read leniently. -/
theorem reads_decodeLossy (bytes : List UInt8) : Reads bytes (decodeLossy bytes) :=
  reads_parts bytes


/-! ### Bytes that a text is written as -/

theorem toNat_byte {n : Nat} (h : n < 256) : (UInt8.ofNat n).toNat = n :=
  UInt8.toNat_ofNat_of_lt' h

theorem isTail_byte {n : Nat} (h : n < 64) : isTail (UInt8.ofNat (n + 128)) = true := by
  have hn := toNat_byte (n := n + 128) (by omega)
  simp only [isTail, Bool.and_eq_true, decide_eq_true_eq, UInt8.le_iff_toNat_le, hn,
    UInt8.reduceToNat]
  omega

theorem tailBits_byte {n : Nat} (h : n < 64) : tailBits (UInt8.ofNat (n + 128)) = n := by
  rw [tailBits, toNat_byte (by omega)]
  omega

/-- The bounds on what follows a first byte leave out nothing else. -/
theorem followsLead_of_bounds (htail : 0x80 ≤ b.toNat ∧ b.toNat ≤ 0xBF)
    (hE0 : lead.toNat = 0xE0 → 0xA0 ≤ b.toNat) (hED : lead.toNat = 0xED → b.toNat ≤ 0x9F)
    (hF0 : lead.toNat = 0xF0 → 0x90 ≤ b.toNat) (hF4 : lead.toNat = 0xF4 → b.toNat ≤ 0x8F) :
    followsLead lead b = true := by
  simp only [followsLead, isTail, ← UInt8.toNat_inj, UInt8.reduceToNat]
  split_ifs with h1 h2 h3 h4 <;>
    simp only [Bool.and_eq_true, decide_eq_true_eq, UInt8.le_iff_toNat_le, UInt8.reduceToNat]
  · exact ⟨hE0 h1, htail.2⟩
  · exact ⟨htail.1, hED h2⟩
  · exact ⟨hF0 h3, htail.2⟩
  · exact ⟨htail.1, hF4 h4⟩
  · exact htail

theorem front_two (h : 0xC2 ≤ lead.toNat ∧ lead.toNat ≤ 0xDF) (hb : isTail b = true)
    (r : List UInt8) :
    front lead (b :: r) = (some (Char.ofNat (lead.toNat % 32 * 64 + tailBits b)), 1) := by
  unfold front
  simp only [UInt8.lt_iff_toNat_lt, UInt8.le_iff_toNat_le, UInt8.reduceToNat]
  rw [if_neg (by omega), if_pos h, if_pos hb]

theorem front_three (h : 0xE0 ≤ lead.toNat ∧ lead.toNat ≤ 0xEF)
    (hb : followsLead lead b = true) (hc : isTail c = true) (r : List UInt8) :
    front lead (b :: c :: r) =
      (some (Char.ofNat ((lead.toNat % 16 * 64 + tailBits b) * 64 + tailBits c)), 2) := by
  unfold front
  simp only [UInt8.lt_iff_toNat_lt, UInt8.le_iff_toNat_le, UInt8.reduceToNat]
  rw [if_neg (by omega), if_neg (by omega), if_pos h, if_pos hb, if_pos hc]

theorem front_four (h : 0xF0 ≤ lead.toNat ∧ lead.toNat ≤ 0xF4)
    (hb : followsLead lead b = true) (hc : isTail c = true) (hd : isTail d = true)
    (r : List UInt8) :
    front lead (b :: c :: d :: r) = (some (Char.ofNat
      (((lead.toNat % 8 * 64 + tailBits b) * 64 + tailBits c) * 64 + tailBits d)), 3) := by
  unfold front
  simp only [UInt8.lt_iff_toNat_lt, UInt8.le_iff_toNat_le, UInt8.reduceToNat]
  rw [if_neg (by omega), if_neg (by omega), if_neg (by omega), if_pos h, if_pos hb, if_pos hc,
    if_pos hd]

/-- A character is read from the bytes that it is written as, whatever follows them. -/
theorem front_encodeChar (v : Char) (r : List UInt8) : ∃ b bs,
    String.utf8EncodeChar v = b :: bs ∧ front b (bs ++ r) = (some v, bs.length) := by
  have hvalid : v.val.toNat < 0xD800 ∨ 0xDFFF < v.val.toNat ∧ v.val.toNat < 0x110000 := v.valid
  have hv : Char.ofNat v.val.toNat = v := Char.ofNat_toNat v
  unfold String.utf8EncodeChar
  generalize v.val.toNat = n at hvalid hv ⊢
  dsimp only
  split_ifs with h1 h2 h3
  · have hlt : UInt8.ofNat n < 0x80 := by
      rw [UInt8.lt_iff_toNat_lt, toNat_byte (by omega)]
      exact Nat.lt_succ_of_le h1
    refine ⟨_, _, rfl, ?_⟩
    rw [front_ascii hlt, toNat_byte (by omega), hv]
    rfl
  · have hlead := toNat_byte (n := n / 64 % 32 + 192) (by omega)
    refine ⟨_, _, rfl, ?_⟩
    rw [List.singleton_append, front_two (by omega) (isTail_byte (by omega)),
      tailBits_byte (by omega), hlead]
    have hn : (n / 64 % 32 + 192) % 32 * 64 + n % 64 = n := by omega
    rw [hn, hv]
    rfl
  · have hlead := toNat_byte (n := n / 4096 % 16 + 224) (by omega)
    have hnext := toNat_byte (n := n / 64 % 64 + 128) (by omega)
    have hfollows : followsLead (UInt8.ofNat (n / 4096 % 16 + 224))
        (UInt8.ofNat (n / 64 % 64 + 128)) = true := by
      apply followsLead_of_bounds <;> omega
    refine ⟨_, _, rfl, ?_⟩
    rw [List.cons_append, List.singleton_append, front_three (by omega) hfollows
      (isTail_byte (by omega)), tailBits_byte (by omega), tailBits_byte (by omega), hlead]
    have hn : ((n / 4096 % 16 + 224) % 16 * 64 + n / 64 % 64) * 64 + n % 64 = n := by omega
    rw [hn, hv]
    rfl
  · have hlead := toNat_byte (n := n / 262144 % 8 + 240) (by omega)
    have hnext := toNat_byte (n := n / 4096 % 64 + 128) (by omega)
    have hfollows : followsLead (UInt8.ofNat (n / 262144 % 8 + 240))
        (UInt8.ofNat (n / 4096 % 64 + 128)) = true := by
      apply followsLead_of_bounds <;> omega
    refine ⟨_, _, rfl, ?_⟩
    rw [List.cons_append, List.cons_append, List.singleton_append, front_four (by omega) hfollows
      (isTail_byte (by omega)) (isTail_byte (by omega)), tailBits_byte (by omega),
      tailBits_byte (by omega), tailBits_byte (by omega), hlead]
    have hn : (((n / 262144 % 8 + 240) % 8 * 64 + n / 4096 % 64) * 64 + n / 64 % 64) * 64 +
        n % 64 = n := by omega
    rw [hn, hv]
    rfl

theorem parts_encodeChars (cs : List Char) :
    parts (cs.flatMap String.utf8EncodeChar) = cs.map some := by
  induction cs with
  | nil => rw [List.flatMap_nil, parts, List.map_nil]
  | cons v cs ih =>
    obtain ⟨b, bs, hbytes, hfront⟩ := front_encodeChar v (cs.flatMap String.utf8EncodeChar)
    rw [List.flatMap_cons, hbytes, List.cons_append, parts]
    simp only [hfront, List.drop_left, ih, List.map_cons]

theorem toList_loop (bytes : ByteArray) (i : Nat) (r : List UInt8) :
    ByteArray.toList.loop bytes i r = r.reverse ++ bytes.data.toList.drop i := by
  fun_induction ByteArray.toList.loop bytes i r with
  | case1 i r h ih =>
    have hi : i < bytes.data.toList.length := by simpa using h
    rw [ih, List.drop_eq_getElem_cons hi]
    simp [ByteArray.get!, h]
  | case2 i r h =>
    have hi : bytes.data.toList.length ≤ i := by simpa using Nat.le_of_not_lt h
    rw [List.drop_eq_nil_of_le hi, List.append_nil]

theorem encode_eq (s : String) : encode s = s.toList.flatMap String.utf8EncodeChar := by
  have hbytes : s.toUTF8 = (s.toList.flatMap String.utf8EncodeChar).toByteArray :=
    String.utf8Encode_toList.symm
  unfold encode ByteArray.toList
  rw [toList_loop, hbytes, List.toList_data_toByteArray]
  rfl

/-- A text is read from the bytes that it is written as. -/
theorem decode?_encode (s : String) : decode? (encode s) = some s.toList := by
  have hchars : (s.toList.map some).mapM id = (some s.toList : Option (List Char)) := by
    rw [List.mapM_map]
    exact (List.mapM_pure (m := Option) (f := id)).trans (congrArg some (List.map_id _))
  rw [decode?, encode_eq, parts_encodeChars, hchars]

end Marginalia.Text.Utf8
