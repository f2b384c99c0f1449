import Marginalia.Decimal.Notation
import Marginalia.Decimal.Real
import Marginalia.Proofs.Decimal.Digits
import Marginalia.Proofs.Decimal.Shortest
import Marginalia.Proofs.Text.Runs

/-! Doubles that are written in a notation: the text is a numeral, and it stands for a decimal that
rounds to the double. -/

namespace Marginalia.Decimal

/-- A notation whose marks can be read. -/
structure Notation.Readable (n : Notation) : Prop where
  whole : n.wholeMark = [] ∨ n.wholeMark = ['.', '0']
  exponent : n.exponentMark = ['e'] ∨ n.exponentMark = ['e', '+']

/-- The decimal that a numeral without a sign stands for. -/
def numeral? (cs : List Char) : Option Shortest :=
  let (whole, fraction, rest) := splitMantissa cs
  (readExponent? rest).map fun e => ⟨value (whole ++ fraction), e - fraction.length⟩

/-! ### Reading numerals -/

section Numerals

variable {cs ds fs tail : List Char} {c : Char}

theorem value_append (cs ds : List Char) :
    value (cs ++ ds) = value cs * 10 ^ ds.length + value ds := by
  induction ds using List.reverseRecOn with
  | nil => simp [value]
  | append_singleton ds c ih =>
    rw [← List.append_assoc, value_concat, value_concat, ih, List.length_append,
      List.length_singleton, pow_succ]
    ring

theorem value_zeros (k : Nat) : value (List.replicate k '0') = 0 := by
  induction k with
  | zero => rfl
  | succ k ih =>
    rw [List.replicate_succ', value_concat, ih]
    rfl

theorem isDigit_zeros {k : Nat} : ∀ c ∈ List.replicate k '0', Text.isDigit c = true := by
  intro c hc
  rw [List.eq_of_mem_replicate hc]
  decide

theorem readDigits?_eq (hne : ds ≠ []) (hds : ∀ c ∈ ds, Text.isDigit c = true) :
    readDigits? ds = some (value ds) :=
  if_pos ⟨hne, List.all_eq_true.mpr hds⟩

theorem readDigits?_digits (n : Nat) : readDigits? (digits n) = some n := by
  rw [readDigits?_eq (digits_ne_nil n) fun c hc => isDigit_of_mem_digits hc, value_digits]

theorem splitMantissa_whole (hds : ∀ c ∈ ds, Text.isDigit c = true)
    (htail : Stops Text.isDigit tail) (hpoint : tail.head? ≠ some '.') :
    splitMantissa (ds ++ tail) = (ds, [], tail) := by
  unfold splitMantissa
  rw [takeWhile_run hds htail, dropWhile_run hds htail]
  dsimp only
  split
  · next r => simp at hpoint
  · rfl

theorem splitMantissa_point (hds : ∀ c ∈ ds, Text.isDigit c = true)
    (hfs : ∀ c ∈ fs, Text.isDigit c = true) (htail : Stops Text.isDigit tail) :
    splitMantissa (ds ++ '.' :: (fs ++ tail)) = (ds, fs, tail) := by
  have hstop : Stops Text.isDigit ('.' :: (fs ++ tail)) := stops_cons.mpr (by decide)
  have hmark : splitMantissa (ds ++ '.' :: (fs ++ tail)) =
      (ds, (fs ++ tail).takeWhile Text.isDigit, (fs ++ tail).dropWhile Text.isDigit) := by
    unfold splitMantissa
    rw [takeWhile_run hds hstop, dropWhile_run hds hstop]
    rfl
  rw [hmark, takeWhile_run hfs htail, dropWhile_run hfs htail]

theorem numeral?_whole (hds : ∀ c ∈ ds, Text.isDigit c = true) (htail : Stops Text.isDigit tail)
    (hpoint : tail.head? ≠ some '.') :
    numeral? (ds ++ tail) = (readExponent? tail).map fun e => ⟨value ds, e⟩ := by
  simp only [numeral?, splitMantissa_whole hds htail hpoint, List.append_nil, List.length_nil,
    Nat.cast_zero, sub_zero]

theorem numeral?_point (ds fs : List Char) (hds : ∀ c ∈ ds, Text.isDigit c = true)
    (hfs : ∀ c ∈ fs, Text.isDigit c = true) (htail : Stops Text.isDigit tail) :
    numeral? (ds ++ '.' :: (fs ++ tail)) =
      (readExponent? tail).map fun e => ⟨value (ds ++ fs), e - fs.length⟩ := by
  simp only [numeral?, splitMantissa_point hds hfs htail]

/-- An exponent is read from behind its mark. -/
theorem readExponent?_positive {mark : List Char} (hmark : mark = ['e'] ∨ mark = ['e', '+'])
    (e : Nat) : readExponent? (mark ++ digits e) = some (e : Int) := by
  have hread : (readDigits? (digits e)).map (fun n => (n : Int)) = some (e : Int) := by
    rw [readDigits?_digits]
    rfl
  rcases hmark with rfl | rfl
  · obtain ⟨c, cs, hcs⟩ := List.exists_cons_of_ne_nil (digits_ne_nil e)
    have hc : Text.isDigit c = true := isDigit_of_mem_digits (hcs ▸ List.mem_cons_self)
    rw [hcs] at hread ⊢
    rw [List.singleton_append, readExponent?, if_pos (Or.inl rfl)]
    · exact hread
    · intro ds he
      obtain ⟨rfl, -⟩ := List.cons.inj he
      exact absurd hc (by decide)
    · intro ds he
      obtain ⟨rfl, -⟩ := List.cons.inj he
      exact absurd hc (by decide)
  · exact hread

theorem readExponent?_negative (e : Nat) :
    readExponent? ('e' :: '-' :: digits e) = some (-(e : Int)) := by
  have hread : (readDigits? (digits e)).map (fun n => -(n : Int)) = some (-(e : Int)) := by
    rw [readDigits?_digits]
    rfl
  exact hread

end Numerals

/-! ### Writing decimals -/

section Written

variable {n : Notation} {s : Shortest}

theorem numeral?_positional_whole (hn : n.Readable) (d e : Nat) :
    ∃ t, numeral? (n.positional ⟨d, e⟩) = some t ∧ t.value = Shortest.value ⟨d, e⟩ := by
  have hend : readExponent? [] = some 0 := rfl
  have hall : ∀ c ∈ digits d ++ List.replicate e '0', Text.isDigit c = true := by
    intro c hc
    exact (List.mem_append.mp hc).elim isDigit_of_mem_digits (isDigit_zeros c)
  have hvalue : value (digits d ++ List.replicate e '0') = d * 10 ^ e := by
    rw [value_append, value_digits, value_zeros, List.length_replicate, Nat.add_zero]
  unfold Notation.positional
  rcases hn.whole with hwhole | hwhole
  · rw [hwhole, numeral?_whole hall stops_nil (by simp), hend]
    refine ⟨_, rfl, ?_⟩
    simp [Shortest.value, hvalue]
  · have hpoint := numeral?_point _ ['0'] hall (isDigit_zeros (k := 1)) stops_nil
    rw [List.append_nil, hend] at hpoint
    rw [hwhole, hpoint]
    refine ⟨_, rfl, ?_⟩
    rw [value_append, hvalue]
    simp [Shortest.value, value, digitValue]

theorem numeral?_positional_point (d e : Nat) :
    ∃ t, numeral? (n.positional ⟨d, .negSucc e⟩) = some t ∧
      t.value = Shortest.value ⟨d, .negSucc e⟩ := by
  have hend : readExponent? [] = some 0 := rfl
  have hdigits : ∀ c ∈ digits d, Text.isDigit c = true := fun c hc => isDigit_of_mem_digits hc
  unfold Notation.positional
  dsimp only
  split
  · next hshort =>
    have hsplit := List.take_append_drop ((digits d).length - (e + 1)) (digits d)
    have hlength : ((digits d).drop ((digits d).length - (e + 1))).length = e + 1 := by
      rw [List.length_drop]
      omega
    have hpoint := numeral?_point ((digits d).take ((digits d).length - (e + 1)))
      ((digits d).drop ((digits d).length - (e + 1)))
      (fun c hc => hdigits c (List.mem_of_mem_take hc))
      (fun c hc => hdigits c (List.mem_of_mem_drop hc)) stops_nil
    rw [List.append_nil, hend, hsplit, hlength, value_digits] at hpoint
    refine ⟨_, hpoint, ?_⟩
    simp [Shortest.value, Int.negSucc_eq]
  · next hlong =>
    have hpoint := numeral?_point ['0']
      (List.replicate (e + 1 - (digits d).length) '0' ++ digits d) (isDigit_zeros (k := 1))
      (fun c hc => (List.mem_append.mp hc).elim (isDigit_zeros c) (hdigits c)) stops_nil
    rw [List.append_nil, hend] at hpoint
    refine ⟨_, hpoint, ?_⟩
    have hvalue :
        value (['0'] ++ (List.replicate (e + 1 - (digits d).length) '0' ++ digits d)) = d := by
      rw [value_append, value_append, value_zeros, value_digits]
      simp [value, digitValue]
    have hlength :
        (List.replicate (e + 1 - (digits d).length) '0' ++ digits d).length = e + 1 := by
      rw [List.length_append, List.length_replicate]
      omega
    rw [hvalue]
    simp [Shortest.value, Int.negSucc_eq, hlength]

/-- The positional form stands for the decimal. -/
theorem numeral?_positional (hn : n.Readable) (s : Shortest) :
    ∃ t, numeral? (n.positional s) = some t ∧ t.value = s.value := by
  obtain ⟨d, e⟩ := s
  cases e with
  | ofNat e => exact numeral?_positional_whole hn d e
  | negSucc e => exact numeral?_positional_point d e

/-- The exponent of a scientific form, with its mark. -/
def Notation.exponentText (n : Notation) (magnitude : Int) : List Char :=
  match magnitude with
  | .ofNat e => n.exponentMark ++ digits e
  | .negSucc e => 'e' :: '-' :: digits (e + 1)

/-- The digits of a scientific form, one before the point. -/
def pointed : List Char → List Char
  | d :: e :: r => d :: '.' :: e :: r
  | ds => ds

theorem scientific_eq (n : Notation) (s : Shortest) (magnitude : Int) :
    n.scientific s magnitude = pointed (digits s.digits) ++ n.exponentText magnitude :=
  rfl

theorem readExponent?_exponentText (hn : n.Readable) (magnitude : Int) :
    readExponent? (n.exponentText magnitude) = some magnitude ∧
      (n.exponentText magnitude).head? = some 'e' := by
  cases magnitude with
  | ofNat e =>
    refine ⟨readExponent?_positive hn.exponent e, ?_⟩
    rcases hn.exponent with hmark | hmark <;> simp [Notation.exponentText, hmark]
  | negSucc e => exact ⟨readExponent?_negative (e + 1), rfl⟩

/-- The scientific form stands for the decimal. -/
theorem numeral?_scientific (hn : n.Readable) (s : Shortest) :
    ∃ t, numeral? (n.scientific s (s.exponent + (digits s.digits).length - 1)) = some t ∧
      t.value = s.value := by
  generalize hmagnitude : s.exponent + (digits s.digits).length - 1 = magnitude
  obtain ⟨hexponent, hhead⟩ := readExponent?_exponentText hn magnitude
  have hstop : Stops Text.isDigit (n.exponentText magnitude) := by
    intro c hc
    rw [hhead] at hc
    obtain rfl := Option.some.inj hc
    decide
  have hdigits : ∀ c ∈ digits s.digits, Text.isDigit c = true :=
    fun c hc => isDigit_of_mem_digits hc
  have hvalue := value_digits s.digits
  rw [scientific_eq]
  match hds : digits s.digits with
  | [] => exact absurd hds (digits_ne_nil s.digits)
  | [d] =>
    rw [hds] at hdigits hvalue hmagnitude
    have hwhole := numeral?_whole hdigits hstop (by rw [hhead]; decide)
    rw [hexponent] at hwhole
    refine ⟨_, hwhole, ?_⟩
    have he : magnitude = s.exponent := by simpa using hmagnitude.symm
    rw [Shortest.value, Shortest.value, hvalue, he]
  | d :: e :: r =>
    rw [hds] at hdigits hvalue hmagnitude
    have hpoint := numeral?_point [d] (e :: r)
      (by simpa using hdigits d List.mem_cons_self)
      (fun c hc => hdigits c (List.mem_cons_of_mem d hc)) hstop
    rw [hexponent] at hpoint
    refine ⟨_, hpoint, ?_⟩
    have he : magnitude - ((e :: r).length : Int) = s.exponent := by
      rw [List.length_cons] at hmagnitude
      push_cast at hmagnitude
      omega
    rw [List.singleton_append, hvalue]
    dsimp only
    rw [Shortest.value, Shortest.value, he]

/-- A numeral without a sign: a digit, then digits and marks. -/
structure IsNumeral (cs : List Char) : Prop where
  begins : ∃ c r, cs = c :: r ∧ Text.isDigit c = true
  chars : ∀ c ∈ cs, Text.isDigit c = true ∨ c ∈ ['.', 'e', '+', '-']

theorem mem_wholeMark {c : Char} (hn : n.Readable) (hc : c ∈ n.wholeMark) :
    Text.isDigit c = true ∨ c ∈ ['.', 'e', '+', '-'] := by
  rcases hn.whole with hwhole | hwhole
  · rw [hwhole] at hc
    cases hc
  · rw [hwhole] at hc
    rcases List.mem_cons.mp hc with rfl | hc
    · exact Or.inr (by decide)
    · rw [List.mem_singleton.mp hc]
      exact Or.inl (by decide)

theorem isNumeral_positional (hn : n.Readable) (s : Shortest) : IsNumeral (n.positional s) := by
  have hdigits : ∀ c ∈ digits s.digits, Text.isDigit c = true :=
    fun c hc => isDigit_of_mem_digits hc
  obtain ⟨d, e⟩ := s
  obtain ⟨c, r, hcr⟩ := List.exists_cons_of_ne_nil (digits_ne_nil d)
  unfold Notation.positional
  cases e with
  | ofNat e =>
    dsimp only at hdigits ⊢
    refine ⟨⟨c, _, by rw [hcr]; rfl, hdigits c (hcr ▸ List.mem_cons_self)⟩, fun c hc => ?_⟩
    rcases List.mem_append.mp hc with hc | hc
    · rcases List.mem_append.mp hc with hc | hc
      · exact Or.inl (hdigits c hc)
      · exact Or.inl (isDigit_zeros c hc)
    · exact mem_wholeMark hn hc
  | negSucc e =>
    dsimp only at hdigits ⊢
    split
    · next hshort =>
      obtain ⟨k, hk⟩ : ∃ k, (digits d).length - (e + 1) = k + 1 :=
        ⟨(digits d).length - (e + 1) - 1, by omega⟩
      rw [hk]
      refine ⟨⟨c, _, by rw [hcr]; rfl, hdigits c (hcr ▸ List.mem_cons_self)⟩, fun c hc => ?_⟩
      rcases List.mem_append.mp hc with hc | hc
      · exact Or.inl (hdigits c (List.mem_of_mem_take hc))
      · rcases List.mem_cons.mp hc with rfl | hc
        · exact Or.inr (by decide)
        · exact Or.inl (hdigits c (List.mem_of_mem_drop hc))
    · refine ⟨⟨'0', _, rfl, by decide⟩, fun c hc => ?_⟩
      rcases List.mem_cons.mp hc with rfl | hc
      · exact Or.inl (by decide)
      · rcases List.mem_cons.mp hc with rfl | hc
        · exact Or.inr (by decide)
        · exact Or.inl ((List.mem_append.mp hc).elim (isDigit_zeros c) (hdigits c))

theorem isNumeral_scientific (hn : n.Readable) (s : Shortest) (magnitude : Int) :
    IsNumeral (n.scientific s magnitude) := by
  have hdigits : ∀ c ∈ digits s.digits, Text.isDigit c = true :=
    fun c hc => isDigit_of_mem_digits hc
  have htail : ∀ c ∈ n.exponentText magnitude,
      Text.isDigit c = true ∨ c ∈ ['.', 'e', '+', '-'] := by
    intro c hc
    cases magnitude with
    | ofNat e =>
      rcases List.mem_append.mp hc with hc | hc
      · right
        rcases hn.exponent with hmark | hmark
        · have hmarks : n.exponentMark ⊆ ['.', 'e', '+', '-'] := by rw [hmark]; decide
          exact hmarks hc
        · have hmarks : n.exponentMark ⊆ ['.', 'e', '+', '-'] := by rw [hmark]; decide
          exact hmarks hc
      · exact Or.inl (isDigit_of_mem_digits hc)
    | negSucc e =>
      rcases List.mem_cons.mp hc with rfl | hc
      · exact Or.inr (by decide)
      · rcases List.mem_cons.mp hc with rfl | hc
        · exact Or.inr (by decide)
        · exact Or.inl (isDigit_of_mem_digits hc)
  rw [scientific_eq]
  match hds : digits s.digits with
  | [] => exact absurd hds (digits_ne_nil s.digits)
  | [d] =>
    rw [hds] at hdigits
    refine ⟨⟨d, _, rfl, hdigits d List.mem_cons_self⟩, fun c hc => ?_⟩
    exact (List.mem_append.mp hc).elim (fun hc => Or.inl (hdigits c hc)) (htail c)
  | d :: e :: r =>
    rw [hds] at hdigits
    refine ⟨⟨d, _, rfl, hdigits d List.mem_cons_self⟩, fun c hc => ?_⟩
    rcases List.mem_append.mp hc with hc | hc
    · rcases List.mem_cons.mp hc with rfl | hc
      · exact Or.inl (hdigits c List.mem_cons_self)
      · rcases List.mem_cons.mp hc with rfl | hc
        · exact Or.inr (by decide)
        · exact Or.inl (hdigits c (List.mem_cons_of_mem d hc))
    · exact htail c hc

end Written

/-! ### Writing doubles -/

/-- The text of a double without its sign. -/
def Notation.unsigned (n : Notation) (bits : UInt64) : List Char :=
  if bits.toNat % 2 ^ 63 = 0 then '0' :: n.wholeMark
  else
    let s := Shortest.ofBits bits
    let magnitude : Int := s.exponent + (digits s.digits).length - 1
    if n.lowest ≤ magnitude ∧ magnitude ≤ n.highest then n.positional s
    else n.scientific s magnitude

section Doubles

variable {n : Notation} {x : Float}

theorem write_eq (n : Notation) (x : Float) : n.write x =
    (if x.toBits.toNat / 2 ^ 63 = 1 then ['-'] else []) ++ n.unsigned x.toBits := by
  unfold Notation.write Notation.unsigned
  simp only [Nat.pow_eq]
  split <;> rfl

theorem isNumeral_unsigned (hn : n.Readable) (bits : UInt64) : IsNumeral (n.unsigned bits) := by
  unfold Notation.unsigned
  split
  · refine ⟨⟨'0', _, rfl, by decide⟩, fun c hc => ?_⟩
    rcases List.mem_cons.mp hc with rfl | hc
    · exact Or.inl (by decide)
    · exact mem_wholeMark hn hc
  · dsimp only
    split
    · exact isNumeral_positional hn _
    · exact isNumeral_scientific hn _ _

theorem numeral?_zero (hn : n.Readable) :
    ∃ t, numeral? ('0' :: n.wholeMark) = some t ∧ t.value = 0 := by
  rcases hn.whole with hwhole | hwhole
  · rw [hwhole]
    exact ⟨⟨0, 0⟩, by decide, by simp [Shortest.value]⟩
  · rw [hwhole]
    exact ⟨⟨0, -1⟩, by decide, by simp [Shortest.value]⟩

/-- The text of a double that is not zero stands for its shortest decimal. -/
theorem numeral?_unsigned (hn : n.Readable) (bits : UInt64) :
    ∃ t, numeral? (n.unsigned bits) = some t ∧
      t.value = if bits.toNat % 2 ^ 63 = 0 then 0 else (Shortest.ofBits bits).value := by
  unfold Notation.unsigned
  split
  · exact numeral?_zero hn
  · dsimp only
    split
    · exact numeral?_positional hn _
    · exact numeral?_scientific hn _

theorem mem_write {c : Char} (hn : n.Readable) (hc : c ∈ n.write x) :
    Text.isDigit c = true ∨ c ∈ ['.', 'e', '+', '-'] := by
  rw [write_eq] at hc
  rcases List.mem_append.mp hc with hsign | hrest
  · right
    split at hsign
    · rw [List.mem_singleton.mp hsign]
      decide
    · cases hsign
  · exact (isNumeral_unsigned hn _).chars c hrest

end Doubles

end Marginalia.Decimal
