import Marginalia.Diff.Fragment
import Marginalia.Proofs.Decimal.Digits
import Marginalia.Proofs.Text.Collapse
import Marginalia.Proofs.Xml.Lexing

/-! Extents as texts. Every extent is read back from its text, and the texts that are read as an
extent are those of a small grammar: nothing but white space, a zero, or two numerals with a comma
between them. -/

namespace Marginalia

open Text (IsGap isBlank isDigit isGap_nil trim)

namespace Decimal

variable {cs : List Char} {limit n : Nat}

/-- A row of ASCII digits, behind a plus sign or not, that stands for a number. -/
def IsNumeralOf (n : Nat) (cs : List Char) : Prop :=
  ∃ ds, (cs = ds ∨ cs = '+' :: ds) ∧ ds ≠ [] ∧ (∀ c ∈ ds, isDigit c = true) ∧ value ds = n

theorem readDigits?_eq_some_iff :
    readDigits? cs = some n ↔ cs ≠ [] ∧ (∀ c ∈ cs, isDigit c = true) ∧ value cs = n := by
  simp [readDigits?, and_assoc]

theorem readBelow?_eq_some_iff : readBelow? limit cs = some n ↔ IsNumeralOf n cs ∧ n < limit := by
  have hplus : isDigit '+' = false := by decide
  unfold readBelow? IsNumeralOf
  simp only [Option.filter_eq_some_iff, decide_eq_true_eq, readDigits?_eq_some_iff]
  refine and_congr_left fun _ => ?_
  split
  · next r =>
    constructor
    · rintro ⟨hne, hds, hv⟩
      exact ⟨r, Or.inr rfl, hne, hds, hv⟩
    · rintro ⟨ds, rfl | hds, hne, hdigits, hv⟩
      · have hfirst := hdigits '+' List.mem_cons_self
        simp [hplus] at hfirst
      · obtain rfl := List.tail_eq_of_cons_eq hds
        exact ⟨hne, hdigits, hv⟩
  · next hno =>
    constructor
    · rintro ⟨hne, hds, hv⟩
      exact ⟨cs, Or.inl rfl, hne, hds, hv⟩
    · rintro ⟨ds, rfl | hds, hne, hdigits, hv⟩
      · exact ⟨hne, hdigits, hv⟩
      · exact (hno ds hds).elim

theorem readUInt32?_eq_some_iff {n : UInt32} :
    readUInt32? cs = some n ↔ IsNumeralOf n.toNat cs := by
  have hn := n.toNat_lt_size
  simp only [readUInt32?, Option.map_eq_some_iff, readBelow?_eq_some_iff]
  constructor
  · rintro ⟨m, ⟨hm, hlt⟩, rfl⟩
    rwa [UInt32.toNat_ofNat_of_lt' hlt]
  · intro h
    exact ⟨n.toNat, ⟨h, hn⟩, UInt32.ofNat_toNat⟩

theorem isNumeralOf_digits (n : Nat) : IsNumeralOf n (digits n) :=
  ⟨digits n, Or.inl rfl, digits_ne_nil n, fun _ hc => isDigit_of_mem_digits hc, value_digits n⟩

namespace IsNumeralOf

theorem ne_nil (h : IsNumeralOf n cs) : cs ≠ [] := by
  obtain ⟨ds, rfl | rfl, hne, -⟩ := h
  · exact hne
  · simp

/-- A numeral is made of digits and a plus sign. -/
theorem mem (h : IsNumeralOf n cs) {c : Char} (hc : c ∈ cs) : isDigit c = true ∨ c = '+' := by
  obtain ⟨ds, rfl | rfl, -, hds, -⟩ := h
  · exact Or.inl (hds c hc)
  · rcases List.mem_cons.mp hc with rfl | hc
    · exact Or.inr rfl
    · exact Or.inl (hds c hc)

theorem comma_notMem (h : IsNumeralOf n cs) : ',' ∉ cs := by
  intro hm
  rcases h.mem hm with hd | he
  · exact absurd hd (by decide)
  · exact absurd he (by decide)

theorem not_blank (h : IsNumeralOf n cs) {c : Char} (hc : c ∈ cs) : isBlank c = false := by
  rcases h.mem hc with hd | rfl
  · exact Text.isBlank_of_isDigit hd
  · decide

theorem front (h : IsNumeralOf n cs) : Stops isBlank cs := fun _ hc =>
  h.not_blank (List.mem_of_mem_head? hc)

theorem back (h : IsNumeralOf n cs) : Stops isBlank cs.reverse := fun _ hc =>
  h.not_blank (List.mem_reverse.mp (List.mem_of_mem_head? hc))

end IsNumeralOf

end Decimal

open Decimal (IsNumeralOf readUInt32?)

namespace Text

variable {a b cs : List Char} {p : List Char → Prop}

/-- A text of some form with white space around it. -/
def Padded (p : List Char → Prop) (cs : List Char) : Prop :=
  ∃ a core b, cs = a ++ core ++ b ∧ IsGap a ∧ IsGap b ∧ p core

theorem IsGap.comma_notMem (ha : IsGap a) : ',' ∉ a := fun hm => absurd (ha ',' hm) (by decide)

theorem Padded.extend (h : Padded p cs) (ha : IsGap a) (hb : IsGap b) :
    Padded p (a ++ cs ++ b) := by
  obtain ⟨a', core, b', rfl, ha', hb', hp⟩ := h
  exact ⟨a ++ a', core, b' ++ b, by simp, ha.append ha', hb'.append hb, hp⟩

theorem padded_of_trim (h : p (trim cs)) : Padded p cs := by
  obtain ⟨a, b, hcs, ha, hb⟩ := trim_between cs
  exact ⟨a, trim cs, b, hcs, ha, hb, h⟩

end Text

namespace Diff.Extent

open Text (Padded)

/-- The texts of an extent: white space alone, a zero, or two numerals with a comma between them;
white space may stand around each numeral. -/
inductive Spells : Extent → List Char → Prop where
  | whole {cs : List Char} (h : IsGap cs) : Spells .whole cs
  | hidden {cs : List Char} (h : Padded (IsNumeralOf 0) cs) : Spells .hidden cs
  | ends {above below : UInt32} {x y : List Char} (hx : Padded (IsNumeralOf above.toNat) x)
      (hy : Padded (IsNumeralOf below.toNat) y) : Spells (.ends above below) (x ++ ',' :: y)

variable {n : UInt32} {e : Extent} {cs : List Char}

theorem readUInt32?_trim : readUInt32? (trim cs) = some n ↔ Padded (IsNumeralOf n.toNat) cs := by
  rw [Decimal.readUInt32?_eq_some_iff]
  constructor
  · exact Text.padded_of_trim
  · rintro ⟨a, x, b, rfl, ha, hb, hx⟩
    rwa [Text.trim_surrounded ha hb hx.front hx.back]

theorem spells_of_ofChars? (h : ofChars? (trim cs) = some e) : Spells e cs := by
  obtain ⟨a, b, hcs, ha, hb⟩ := Text.trim_between cs
  unfold ofChars? at h
  split at h
  · next hnil =>
    obtain rfl := Option.some.inj h
    rw [hnil, List.append_nil] at hcs
    exact .whole (hcs ▸ ha.append hb)
  · split at h
    · split at h
      · next hread =>
        obtain rfl := Option.some.inj h
        exact .hidden (Text.padded_of_trim (Decimal.readUInt32?_eq_some_iff.mp hread))
      · cases h
    · next x y hsplit =>
      obtain ⟨above, hx, h⟩ := Option.bind_eq_some_iff.mp h
      obtain ⟨below, hy, h⟩ := Option.bind_eq_some_iff.mp h
      obtain rfl := Option.some.inj h
      have hends : cs = (a ++ x ++ []) ++ ',' :: ([] ++ y ++ b) := by
        rw [hcs, Text.append_eq_of_splitAt? hsplit]
        simp
      rw [hends]
      exact .ends ((readUInt32?_trim.mp hx).extend ha isGap_nil)
        ((readUInt32?_trim.mp hy).extend isGap_nil hb)

theorem ofChars?_of_spells (h : Spells e cs) : ofChars? (trim cs) = some e := by
  cases h with
  | whole h =>
    have hnil := Text.trim_surrounded h isGap_nil stops_nil stops_nil
    rw [List.append_nil, List.append_nil] at hnil
    rw [hnil]
    rfl
  | hidden h =>
    obtain ⟨a, x, b, rfl, ha, hb, hx⟩ := h
    have hread : readUInt32? x = some 0 := Decimal.readUInt32?_eq_some_iff.mpr hx
    rw [Text.trim_surrounded ha hb hx.front hx.back, ofChars?, if_neg hx.ne_nil, splitComma,
      splitAt?_single_none hx.comma_notMem]
    exact if_pos hread
  | ends hx hy =>
    obtain ⟨a, x, b, rfl, ha, hb, hx⟩ := hx
    obtain ⟨a', y, b', rfl, ha', hb', hy⟩ := hy
    have htrim : trim (a ++ x ++ b ++ ',' :: (a' ++ y ++ b')) = x ++ b ++ ',' :: (a' ++ y) := by
      have hfront : Stops isBlank (x ++ (b ++ ',' :: (a' ++ y))) :=
        stops_append hx.front hx.ne_nil
      have hback : Stops isBlank (y.reverse ++ (x ++ (b ++ ',' :: a')).reverse) :=
        stops_append hy.back (List.reverse_ne_nil_iff.mpr hy.ne_nil)
      rw [← List.reverse_append] at hback
      have h := Text.trim_surrounded ha hb' hfront (by simpa using hback)
      simpa using h
    have hsplit : splitComma (x ++ b ++ ',' :: (a' ++ y)) = some (x ++ b, a' ++ y) :=
      splitAt?_single fun hm => (List.mem_append.mp hm).elim hx.comma_notMem hb.comma_notMem
    have habove := readUInt32?_trim.mpr ⟨[], x, b, rfl, isGap_nil, hb, hx⟩
    rw [List.nil_append] at habove
    have hbelow := readUInt32?_trim.mpr ⟨a', y, [], (List.append_nil _).symm, ha', isGap_nil, hy⟩
    rw [htrim, ofChars?, if_neg (by simp), hsplit]
    simp only [habove, hbelow, Option.bind_eq_bind, Option.bind_some, Option.pure_def]

theorem parse_eq_ok_iff {s : String} : parse s = .ok e ↔ Spells e s.toList := by
  have hiff : ofChars? (trim s.toList) = some e ↔ Spells e s.toList :=
    ⟨spells_of_ofChars?, ofChars?_of_spells⟩
  rw [← hiff, parse]
  cases ofChars? (trim s.toList) <;> simp

theorem parse_eq_error_iff {s : String} :
    parse s = .error ⟨Text.trimmed s⟩ ↔ ∀ e, ¬ Spells e s.toList := by
  simp only [← parse_eq_ok_iff]
  rw [parse]
  cases ofChars? (trim s.toList) <;> simp [Text.trimmed]

theorem spells_text (e : Extent) : Spells e e.text.toList := by
  have hpadded (n : Nat) : Padded (IsNumeralOf n) (Decimal.digits n) :=
    ⟨[], Decimal.digits n, [], by simp, isGap_nil, isGap_nil, Decimal.isNumeralOf_digits n⟩
  cases e with
  | whole => exact .whole (by simp [text, IsGap])
  | hidden => exact .hidden (by simpa [text, Decimal.digits, Decimal.digitChar] using hpadded 0)
  | ends above below =>
    have h := Spells.ends (hpadded above.toNat) (hpadded below.toNat)
    simpa [text, Decimal.text] using h

/-- Every extent is read back from its text, so that a request that shows no lines is not taken for
one that hides a chunk, nor the other way round; a text is read as an extent exactly where it spells
that extent, and any other text is refused. -/
theorem parse_text :
    (∀ e : Extent, parse e.text = .ok e) ∧
    (∀ r : Request, (parse r.extent.text).map (fun e => { r with extent := e }.isCollapse) =
      .ok (decide (r.extent = .hidden))) ∧
    (∀ (s : String) (e : Extent), parse s = .ok e ↔ Spells e s.toList) ∧
    ∀ s : String, parse s = .error ⟨Text.trimmed s⟩ ↔ ∀ e, ¬ Spells e s.toList := by
  have hread (e : Extent) : parse e.text = .ok e := parse_eq_ok_iff.mpr (spells_text e)
  refine ⟨hread, fun r => ?_, fun s e => parse_eq_ok_iff, fun s => parse_eq_error_iff⟩
  rw [hread]
  rfl

end Diff.Extent

end Marginalia
