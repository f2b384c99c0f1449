import Marginalia.Xml.Prolog
import Marginalia.Xml.Reference
import Marginalia.Text.Markup
import Marginalia.Proofs.Text.Runs

/-! The marks, names, values, comments and instructions of XML, read back from where they are
written: a reader takes what was written before whatever follows it. -/

namespace Marginalia

open Text (dropLead? splitAt? startsWith)

/-! ### Texts cut by a mark -/

section Marks

variable {α : Type} [BEq α] {mark a b rest : List α}

/-- Whether a mark stands at the front shows in as many members as it has. -/
theorem dropLead?_append (h : mark.length ≤ a.length) :
    dropLead? mark (a ++ b) = (dropLead? mark a).map (· ++ b) := by
  induction mark generalizing a with
  | nil => simp [dropLead?]
  | cons c mark ih =>
    cases a with
    | nil => simp at h
    | cons d a =>
      simp only [List.cons_append, dropLead?]
      split
      · exact ih (by simpa using h)
      · rfl

variable [LawfulBEq α]

theorem dropLead?_self (mark rest : List α) : dropLead? mark (mark ++ rest) = some rest :=
  Text.dropLead?_eq_some.mpr rfl

theorem splitAt?_self (mark rest : List α) : splitAt? mark (mark ++ rest) = some ([], rest) := by
  cases mark with
  | nil => cases rest <;> simp [splitAt?, dropLead?]
  | cons c mark =>
    have hd := dropLead?_self (c :: mark) rest
    rw [List.cons_append] at hd ⊢
    rw [splitAt?, hd]

/-- The first place of a mark stays the first whatever follows the mark. -/
theorem splitAt?_append (h : splitAt? mark (a ++ mark ++ b) = some (a, b)) :
    splitAt? mark (a ++ mark ++ rest) = some (a, rest) := by
  induction a with
  | nil => exact splitAt?_self mark rest
  | cons c a ih =>
    simp only [List.cons_append, List.append_assoc] at h ih ⊢
    rw [splitAt?] at h ⊢
    have hlen : mark.length ≤ (c :: (a ++ mark)).length := by simp; omega
    have hb := dropLead?_append (b := b) hlen
    have hrest := dropLead?_append (b := rest) hlen
    simp only [List.cons_append, List.append_assoc] at hb hrest
    cases hd : dropLead? mark (c :: (a ++ mark)) with
    | some r =>
      rw [hb, hd] at h
      simp at h
    | none =>
      rw [hb, hd] at h
      rw [hrest, hd]
      simp only [Option.map_none, Option.map_eq_some_iff, Prod.mk.injEq, Prod.exists,
        List.cons.injEq, true_and] at h ⊢
      obtain ⟨a', b', hs, rfl, rfl⟩ := h
      exact ⟨a', rest, ih hs, rfl, rfl⟩

/-- A mark is found before the end of the text that it is found in. -/
theorem splitAt?_of_append (h : splitAt? mark b = some (a, rest)) :
    b = a ++ mark ++ rest ∧ ∀ r, splitAt? mark (a ++ mark ++ r) = some (a, r) := by
  have hb := Text.append_eq_of_splitAt? h
  exact ⟨hb, fun r => splitAt?_append (hb ▸ h)⟩

theorem splitAt?_eq_none_iff {s : List α} : splitAt? mark s = none ↔ ¬ mark <:+: s := by
  induction s with
  | nil => cases mark <;> simp [splitAt?, dropLead?]
  | cons c s ih =>
    rw [splitAt?, List.infix_cons_iff]
    cases hd : dropLead? mark (c :: s) with
    | some r =>
      have hpre : mark <+: c :: s := ⟨r, (Text.dropLead?_eq_some.mp hd).symm⟩
      simp [hpre]
    | none =>
      have hpre : ¬ mark <+: c :: s := by
        rintro ⟨r, hr⟩
        rw [← hr, dropLead?_self] at hd
        cases hd
      simp [hpre, ih]

/-- A mark is not found before its first element. -/
theorem splitAt?_past {c : α} {m s : List α} (ha : c ∉ a) :
    splitAt? (c :: m) (a ++ s) = (splitAt? (c :: m) s).map fun x => (a ++ x.1, x.2) := by
  induction a with
  | nil => simp
  | cons d a ih =>
    have hd : c ≠ d := fun he => ha (he ▸ List.mem_cons_self)
    have hlead : dropLead? (c :: m) (d :: (a ++ s)) = none := by
      rw [dropLead?, if_neg (by simpa using hd)]
    rw [List.cons_append, splitAt?, hlead, ih fun hm => ha (List.mem_cons_of_mem d hm)]
    cases splitAt? (c :: m) s <;> rfl

theorem splitAt?_lead {c : α} {m : List α} (ha : c ∉ a) :
    splitAt? (c :: m) (a ++ c :: (m ++ rest)) = some (a, rest) := by
  rw [splitAt?_past ha, ← List.cons_append, splitAt?_self, Option.map_some, List.append_nil]

theorem splitAt?_single {c : α} (ha : c ∉ a) : splitAt? [c] (a ++ c :: rest) = some (a, rest) :=
  splitAt?_lead ha

theorem splitAt?_single_none {c : α} (ha : c ∉ a) : splitAt? [c] a = none := by
  have hpast := splitAt?_past (m := []) (s := []) ha
  rwa [List.append_nil] at hpast

theorem not_mem_of_splitAt?_single {c : α} (h : splitAt? [c] b = some (a, rest)) : c ∉ a := by
  induction b generalizing a rest with
  | nil => simp [splitAt?, dropLead?] at h
  | cons d b ih =>
    simp only [splitAt?, dropLead?] at h
    split at h
    · simp only [Option.some.injEq, Prod.mk.injEq] at h
      simp [← h.1]
    · next hd =>
      simp only [Option.map_eq_some_iff, Prod.mk.injEq, Prod.exists] at h
      obtain ⟨a', b', hs, rfl, -⟩ := h
      have hcd : c ≠ d := by
        rintro rfl
        simp at hd
      simp [hcd, ih hs]

end Marks

namespace Xml

/-! ### Names -/

/-- A name without a colon, as it may stand on either side of one. -/
structure IsName (s : List Char) : Prop where
  nonempty : s ≠ []
  begins : beginsName s = true
  inner : ∀ c ∈ s, isNameChar c = true
  plain : ':' ∉ s

/-- A name in two parts that is read from a text. -/
structure QName.Legal (q : QName) : Prop where
  space : q.space = [] ∨ IsName q.space
  name : IsName q.name

/-- The name as it is written. -/
def QName.spell (q : QName) : List Char :=
  if q.space = [] then q.name else q.space ++ ':' :: q.name

theorem isNameChar_colon : isNameChar ':' = true := by decide

theorem QName.Legal.inner {q : QName} (h : q.Legal) : ∀ c ∈ q.spell, isNameChar c = true := by
  intro c hc
  unfold spell at hc
  split at hc
  · exact h.name.inner c hc
  · next hs =>
    rcases List.mem_append.mp hc with hc | hc
    · exact (h.space.resolve_left hs).inner c hc
    · rcases List.mem_cons.mp hc with rfl | hc
      · exact isNameChar_colon
      · exact h.name.inner c hc

theorem qname?_spell {q : QName} (h : q.Legal) {rest : List Char} (hr : Stops isNameChar rest) :
    qname? (q.spell ++ rest) = some (q, rest) := by
  have hname := h.name
  unfold qname?
  rw [takeWhile_run h.inner hr, dropWhile_run h.inner hr]
  obtain ⟨space, name⟩ := q
  rcases h.space with hs | hs
  · simp only at hs
    subst hs
    have hbegins : beginsName [] = true := rfl
    simp only [QName.spell, if_true]
    rw [splitAt?_single_none hname.plain]
    simp [hname.nonempty, hname.begins, hbegins]
  · have hne := hs.nonempty
    simp only at hne hs
    simp only [QName.spell, if_neg hne]
    rw [splitAt?_single hs.plain]
    simp [hname.plain, hname.nonempty, hname.begins, hs.begins]

theorem legal_of_qname? {cs rest : List Char} {q : QName} (h : qname? cs = some (q, rest)) :
    q.Legal ∧ ∃ word, cs = word ++ rest ∧ (∀ c ∈ word, isNameChar c = true) ∧ word ≠ [] ∧
      Stops isNameChar rest := by
  have hcs : cs = cs.takeWhile isNameChar ++ cs.dropWhile isNameChar :=
    List.takeWhile_append_dropWhile.symm
  have hinner : ∀ c ∈ cs.takeWhile isNameChar, isNameChar c = true := of_mem_takeWhile
  have hends : Stops isNameChar (cs.dropWhile isNameChar) := stops_dropWhile _ _
  unfold qname? at h
  dsimp only at h
  generalize cs.takeWhile isNameChar = word at *
  generalize cs.dropWhile isNameChar = tail at *
  split at h
  · next q' hq =>
    split at h
    · next hgood =>
      simp only [Option.some.injEq, Prod.mk.injEq] at h
      obtain ⟨rfl, rfl⟩ := h
      simp only [Bool.and_eq_true, decide_eq_true_eq] at hgood
      obtain ⟨⟨hspace, hne⟩, hbegins⟩ := hgood
      split at hq
      · next space name hsplit =>
        split at hq
        · cases hq
        · next hplain =>
          obtain rfl := Option.some.inj hq
          have hword := Text.append_eq_of_splitAt? hsplit
          have hcolon := not_mem_of_splitAt?_single hsplit
          have hname : IsName name :=
            ⟨hne, hbegins, fun c hc => hinner c (by simp [hword, hc]), by simpa using hplain⟩
          refine ⟨⟨?_, hname⟩, word, hcs, hinner, by simp [hword], hends⟩
          by_cases hs : space = []
          · exact Or.inl hs
          · exact Or.inr ⟨hs, hspace, fun c hc => hinner c (by simp [hword, hc]), hcolon⟩
      · next hsplit =>
        obtain rfl := Option.some.inj hq
        have hplain : ':' ∉ word := by
          intro hm
          obtain ⟨a, b, rfl, ha⟩ := List.eq_append_cons_of_mem hm
          rw [splitAt?_single ha] at hsplit
          cases hsplit
        exact ⟨⟨Or.inl rfl, hne, hbegins, hinner, hplain⟩, word, hcs, hinner, hne, hends⟩
    · cases h
  · cases h

theorem isNameChar_of_isSpace {c : Char} (h : isSpace c = true) : isNameChar c = false := by
  simp only [isSpace, Bool.or_eq_true, beq_iff_eq] at h
  rcases h with ((rfl | rfl) | rfl) | rfl <;> decide

theorem isNameChar_of_isNameStart {c : Char} (h : isNameStart c = true) :
    isNameChar c = true := by
  unfold isNameStart at h
  unfold isNameChar
  split at h
  · next hc =>
    rw [if_pos hc]
    simp only [Bool.or_eq_true] at h
    rcases h with (h | h) | h <;> simp [isAsciiName, h]
  · next hc =>
    rw [if_neg hc]
    simp [h]

/-- A name that may hold colons. -/
structure IsWord (s : List Char) : Prop where
  begins : ∃ c t, s = c :: t ∧ isNameStart c = true
  inner : ∀ c ∈ s, isNameChar c = true

theorem name?_word {s rest : List Char} (h : IsWord s) (hr : Stops isNameChar rest) :
    name? (s ++ rest) = some (s, rest) := by
  obtain ⟨c, t, rfl, hc⟩ := h.begins
  have ht : ∀ d ∈ t, isNameChar d = true := fun d hd => h.inner d (List.mem_cons_of_mem c hd)
  simp [name?, hc, takeWhile_run ht hr, dropWhile_run ht hr]

theorem isWord_of_name? {cs s rest : List Char} (h : name? cs = some (s, rest)) :
    cs = s ++ rest ∧ IsWord s ∧ Stops isNameChar rest := by
  cases cs with
  | nil => cases h
  | cons c cs =>
    rw [name?] at h
    split at h
    · next hc =>
      simp only [Option.some.injEq, Prod.mk.injEq] at h
      obtain ⟨rfl, rfl⟩ := h
      refine ⟨by simp [List.takeWhile_append_dropWhile], ⟨⟨c, _, rfl, hc⟩, ?_⟩, stops_dropWhile _ _⟩
      intro d hd
      rcases List.mem_cons.mp hd with rfl | hd
      · exact isNameChar_of_isNameStart hc
      · exact of_mem_takeWhile d hd
    · cases h

/-! ### Attribute values -/

theorem skipSpaces_cons {c : Char} {cs : List Char} (h : isSpace c = false) :
    skipSpaces (c :: cs) = c :: cs := by
  simp [skipSpaces, h]

/-- What stands for a character in a value is plain, and is read as the character. -/
theorem legal_escapeAttributeChar {c : Char} (h : isLegal c = true) :
    ∀ d ∈ Text.escapeAttributeChar c, isLegal d = true ∧ d ≠ '<' ∧ d ≠ '"' := by
  unfold Text.escapeAttributeChar Text.escapeChar
  split
  · simp; decide
  · split
    · simp; decide
    · split
      · simp; decide
      · split
        · simp; decide
        · intro d hd
          obtain rfl := List.mem_singleton.mp hd
          exact ⟨h, ‹_›, ‹_›⟩

theorem value?_written {raw rest : List Char}
    (h : ∀ c ∈ raw, isLegal c = true ∧ c ≠ '<' ∧ c ≠ '"') :
    value? ('"' :: raw ++ '"' :: rest) = some (raw, rest) := by
  have hu : ∀ c ∈ raw, decide (c ≠ '"') = true := fun c hc => by simpa using (h c hc).2.2
  have hstop : Stops (fun c => decide (c ≠ '"')) ('"' :: rest) := by simp
  have hquoted : quoted? ('"' :: raw ++ '"' :: rest) = some (raw, rest) := by
    simp only [List.cons_append, quoted?, quote?, Option.bind_eq_bind, Option.bind_some]
    rw [dropWhile_run hu hstop, takeWhile_run hu hstop]
    rfl
  have hlegal : ∀ c ∈ raw, isLegal c = true := fun c hc => (h c hc).1
  have hall : raw.all isLegal = true := List.all_eq_true.mpr hlegal
  have hopen : raw.contains '<' = false := by
    simpa using fun hm => (h '<' hm).2.1 rfl
  unfold value?
  rw [hquoted]
  simp only [Option.bind_eq_bind, Option.bind_some, hall, hopen]
  rfl

theorem attribute?_written {q : QName} (hq : q.Legal) {raw rest : List Char}
    (h : ∀ c ∈ raw, isLegal c = true ∧ c ≠ '<' ∧ c ≠ '"') :
    attribute? (q.spell ++ '=' :: '"' :: raw ++ '"' :: rest) = some (q, raw, rest) := by
  have hvalue := @value?_written _ rest h
  have hname := @qname?_spell _ hq ('=' :: '"' :: raw ++ '"' :: rest) (by simp; decide)
  simp only [List.append_assoc, List.cons_append] at hname hvalue ⊢
  simp only [attribute?, hname, Option.bind_eq_bind, Option.bind_some, equals?]
  rw [skipSpaces_cons (by decide)]
  simp only [Option.bind_some]
  rw [skipSpaces_cons (by decide), hvalue]
  rfl

theorem reference?_escape (rest : List Char) :
    reference? ("amp;".toList ++ rest) = some (.char '&', rest) ∧
      reference? ("lt;".toList ++ rest) = some (.char '<', rest) ∧
      reference? ("gt;".toList ++ rest) = some (.char '>', rest) ∧
      reference? ("quot;".toList ++ rest) = some (.char '"', rest) :=
  ⟨rfl, rfl, rfl, rfl⟩

/-- A value without white space other than spaces. -/
def IsFlat (v : List Char) : Prop := ∀ c ∈ v, c ≠ '\t' ∧ c ≠ '\n' ∧ c ≠ '\r'

theorem normalValue_escapeChar {es : List Entity} {fuel : Nat} {n : Nesting} (hn : n.depth = 0)
    {c : Char} (hc : c ≠ '\t' ∧ c ≠ '\n' ∧ c ≠ '\r') (rest : List Char) (b : Buffer) :
    normalValue es (fuel + 1) n (Text.escapeAttributeChar c ++ rest) b =
      normalValue es fuel n rest (c :: b) := by
  obtain ⟨hamp, hlt, hgt, hquot⟩ := reference?_escape rest
  have href {name : List Char} {d : Char} (h : reference? (name ++ rest) = some (.char d, rest)) :
      normalValue es (fuel + 1) n ('&' :: (name ++ rest)) b =
        normalValue es fuel n rest (d :: b) := by
    rw [normalValue]
    simp only [h, hn, if_true]
  unfold Text.escapeAttributeChar Text.escapeChar
  split
  · next h => exact h ▸ href hquot
  · split
    · next h => exact h ▸ href hamp
    · split
      · next h => exact h ▸ href hlt
      · split
        · next h => exact h ▸ href hgt
        · next hne _ _ =>
          rw [List.singleton_append, normalValue]
          · simp [Buffer.pushValue, hc.1, hc.2.1, hc.2.2]
          · simpa using hne

/-- A value that is written with references is read as it was. -/
theorem normalValue_escapeValue {es : List Entity} {n : Nesting} (hn : n.depth = 0)
    {v : List Char} (hv : IsFlat v) {fuel : Nat} (hfuel : v.length < fuel) (b : Buffer) :
    normalValue es fuel n (v.flatMap Text.escapeAttributeChar) b = some (n, v.reverse ++ b) := by
  induction v generalizing fuel b with
  | nil =>
    obtain ⟨fuel, rfl⟩ := Nat.exists_eq_add_of_lt hfuel
    simp [normalValue]
  | cons c v ih =>
    cases fuel with
    | zero => simp at hfuel
    | succ fuel =>
      rw [List.flatMap_cons, normalValue_escapeChar hn (hv c List.mem_cons_self),
        ih (fun d hd => hv d (List.mem_cons_of_mem c hd)) (by simpa using hfuel)]
      simp

/-! ### References -/

/-- What a reference is read as, from where it is written on. -/
theorem reference?_hex {ds rest : List Char} (hds : ∀ c ∈ ds, isHexDigit c = true) :
    reference? ('#' :: 'x' :: ds ++ ';' :: rest) =
      (numberedChar? (hexNumber? ds)).map (·, rest) := by
  have hstop : Stops isHexDigit (';' :: rest) := by
    simp
    decide
  unfold reference?
  simp only [List.cons_append, takeWhile_run hds hstop, dropWhile_run hds hstop]
  cases numberedChar? (hexNumber? ds) <;> rfl

theorem reference?_decimal {ds rest : List Char} (hds : ∀ c ∈ ds, Text.isDigit c = true) :
    reference? ('#' :: ds ++ ';' :: rest) =
      (numberedChar? (Decimal.readDigits? ds)).map (·, rest) := by
  have hstop : Stops Text.isDigit (';' :: rest) := by
    simp
    decide
  have hx : ∀ r, ds ++ ';' :: rest ≠ 'x' :: r := by
    intro r he
    cases ds with
    | nil => cases he
    | cons d ds =>
      obtain ⟨rfl, -⟩ := List.cons.inj he
      exact absurd (hds 'x' List.mem_cons_self) (by decide)
  unfold reference?
  rw [List.cons_append]
  split
  · next he => exact absurd (List.cons.inj he).2 (hx _)
  · next he =>
    obtain ⟨-, rfl⟩ := List.cons.inj he
    rw [takeWhile_run hds hstop, dropWhile_run hds hstop]
    cases numberedChar? (Decimal.readDigits? ds) <;> rfl
  · next hne => exact absurd rfl (hne _)

theorem reference?_name {name rest : List Char} (h : IsWord name) :
    reference? (name ++ ';' :: rest) =
      some (match predefined? name with
        | some c => .char c
        | none => .entity name, rest) := by
  have hstop : Stops isNameChar (';' :: rest) := by
    simp
    decide
  have hname := name?_word h hstop
  obtain ⟨c, t, rfl, hc⟩ := h.begins
  have hhash : c ≠ '#' := by
    rintro rfl
    exact absurd hc (by decide)
  unfold reference?
  rw [List.cons_append] at hname ⊢
  split
  · next he => exact absurd (List.cons.inj he).1 hhash
  · next he => exact absurd (List.cons.inj he).1 hhash
  · rw [hname]
    rfl

/-- A reference, and what follows the semicolon that ends it. -/
def Reference.ended? (x : Reference) : List Char → Option (Reference × List Char)
  | ';' :: rest => some (x, rest)
  | _ => none

theorem Reference.ended?_eq_some {x y : Reference} {tail rest : List Char}
    (h : y.ended? tail = some (x, rest)) : tail = ';' :: rest ∧ y = x := by
  unfold Reference.ended? at h
  split at h
  · simp only [Option.some.injEq, Prod.mk.injEq] at h
    exact ⟨by rw [h.2], h.1⟩
  · cases h

/-- A reference is read from where it is written, whatever follows. -/
theorem reference?_eq_some {cs rest : List Char} {x : Reference}
    (h : reference? cs = some (x, rest)) :
    ∃ raw, cs = raw ++ ';' :: rest ∧ (∀ r, reference? (raw ++ ';' :: r) = some (x, r)) ∧
      '\n' ∉ raw ∧ '<' ∉ raw := by
  unfold reference? at h
  dsimp only at h
  split at h
  · next ds =>
    obtain ⟨⟨y, tail⟩, hm, h⟩ := Option.bind_eq_some_iff.mp h
    obtain ⟨z, hz, he⟩ := Option.map_eq_some_iff.mp hm
    obtain ⟨rfl, rfl⟩ := Prod.mk.inj he
    obtain ⟨hd, rfl⟩ := Reference.ended?_eq_some h
    have hds := of_mem_takeWhile (p := isHexDigit) (l := ds)
    refine ⟨'#' :: 'x' :: ds.takeWhile isHexDigit, ?_, fun r => ?_, fun hn => ?_, fun hn => ?_⟩
    · rw [← hd, List.cons_append, List.cons_append, List.takeWhile_append_dropWhile]
    · rw [reference?_hex hds, hz]
      rfl
    all_goals
      simp only [List.mem_cons, Char.reduceEq, false_or] at hn
      exact absurd (hds _ hn) (by decide)
  · next ds _ =>
    obtain ⟨⟨y, tail⟩, hm, h⟩ := Option.bind_eq_some_iff.mp h
    obtain ⟨z, hz, he⟩ := Option.map_eq_some_iff.mp hm
    obtain ⟨rfl, rfl⟩ := Prod.mk.inj he
    obtain ⟨hd, rfl⟩ := Reference.ended?_eq_some h
    have hds := of_mem_takeWhile (p := Text.isDigit) (l := ds)
    refine ⟨'#' :: ds.takeWhile Text.isDigit, ?_, fun r => ?_, fun hn => ?_, fun hn => ?_⟩
    · rw [← hd, List.cons_append, List.takeWhile_append_dropWhile]
    · rw [reference?_decimal hds, hz]
      rfl
    all_goals
      simp only [List.mem_cons, Char.reduceEq, false_or] at hn
      exact absurd (hds _ hn) (by decide)
  · obtain ⟨⟨y, tail⟩, hm, h⟩ := Option.bind_eq_some_iff.mp h
    obtain ⟨⟨name, r⟩, hz, he⟩ := Option.map_eq_some_iff.mp hm
    obtain ⟨rfl, rfl⟩ := Prod.mk.inj he
    obtain ⟨rfl, rfl⟩ := Reference.ended?_eq_some h
    obtain ⟨rfl, hword, -⟩ := isWord_of_name? hz
    refine ⟨name, rfl, fun r => reference?_name hword, fun hn => ?_, fun hn => ?_⟩
    all_goals exact absurd (hword.inner _ hn) (by decide)

/-! ### Comments and instructions -/

theorem upTo?_eq_some {mark cs text rest : List Char} (h : upTo? mark cs = some (text, rest)) :
    cs = text ++ mark ++ rest ∧ (∀ c ∈ text, isLegal c = true) ∧
      ∀ r, upTo? mark (text ++ mark ++ r) = some (text, r) := by
  unfold upTo? at h
  split at h
  · next a b hs =>
    split at h
    · next hlegal =>
      simp only [Option.some.injEq, Prod.mk.injEq] at h
      obtain ⟨rfl, rfl⟩ := h
      obtain ⟨hcs, hlocal⟩ := splitAt?_of_append hs
      refine ⟨hcs, List.all_eq_true.mp hlegal, fun r => ?_⟩
      simp only [upTo?, hlocal r, hlegal, if_true]
    · cases h
  · cases h

/-- The text of a comment that may be written. -/
def IsCommentText (s : List Char) : Prop :=
  ∀ rest, comment? (s ++ "-->".toList ++ rest) = some (.comment s, rest)

theorem comment?_eq_some {cs rest : List Char} {n : Node} (h : comment? cs = some (n, rest)) :
    ∃ s, n = .comment s ∧ cs = s ++ "-->".toList ++ rest ∧ IsCommentText s := by
  unfold comment? at h
  obtain ⟨⟨text, r⟩, hup, h⟩ := Option.bind_eq_some_iff.mp h
  obtain ⟨hcs, -, hlocal⟩ := upTo?_eq_some hup
  dsimp only at h
  split at h
  · cases h
  · next hgood =>
    simp only [Option.pure_def, Option.some.injEq, Prod.mk.injEq] at h
    obtain ⟨rfl, rfl⟩ := h
    refine ⟨text, rfl, hcs, fun r' => ?_⟩
    unfold comment?
    rw [hlocal r']
    simp only [Option.bind_eq_bind, Option.bind_some, if_neg hgood]
    rfl

/-- An instruction as it is written. -/
def writtenInstruction (target : List Char) (value : Option (List Char)) : List Char :=
  "<?".toList ++ target ++ (match value with
    | some v => ' ' :: v
    | none => []) ++ "?>".toList

/-- The target and the value of an instruction that is read from a text. -/
structure IsInstruction (target : List Char) (value : Option (List Char)) : Prop where
  target : IsWord target
  value : ∀ v, value = some v → v ≠ [] ∧ Stops isSpace v ∧
    ∀ r, upTo? "?>".toList (v ++ "?>".toList ++ r) = some (v, r)

theorem startsWith_eq_true {mark cs : List Char} :
    startsWith mark cs = true ↔ ∃ r, cs = mark ++ r := by
  simp only [startsWith, Option.isSome_iff_exists, Text.dropLead?_eq_some]

/-- Behind a character that a mark does not have, nothing decides whether a text begins with it. -/
theorem startsWith_append_of_mem {c : Char} {mark u : List Char} (hc : c ∉ mark) (hu : c ∈ u)
    (x : List Char) : startsWith mark (u ++ x) = startsWith mark u := by
  rw [Bool.eq_iff_iff, startsWith_eq_true, startsWith_eq_true]
  constructor
  · rintro ⟨r, hr⟩
    obtain ⟨y, hy, -⟩ | ⟨y, hy, -⟩ := List.append_eq_append_iff.mp hr
    · exact absurd (hy ▸ List.mem_append_left y hu) hc
    · exact ⟨y, hy⟩
  · rintro ⟨r, rfl⟩
    exact ⟨r ++ x, List.append_assoc mark r x⟩

/-- Where an instruction ends, its value is read up to its end. -/
theorem instruction?_parts (target spaces value : List Char) {written : List Char}
    (hw : written = "<?".toList ++ target ++ spaces ++ value ++ "?>".toList)
    (ht : IsWord target) (hs : ∀ c ∈ spaces, isSpace c = true) (hv : Stops isSpace value)
    (hup : ∀ r, upTo? "?>".toList (value ++ "?>".toList ++ r) = some (value, r))
    (hstop : Stops isNameChar (spaces ++ value ++ "?>".toList))
    {rest : List Char} (hdecl : startsWith "<?xml ".toList (written ++ rest) = false) :
    instruction? (written ++ rest) =
      some (.instruction target (if value = [] then none else some value), rest) := by
  have hname := @name?_word _ (spaces ++ (value ++ ("?>".toList ++ rest))) ht (by
    simpa only [List.append_assoc] using @stops_append _ _ _ rest hstop (by simp))
  have hskip : skipSpaces (spaces ++ (value ++ ("?>".toList ++ rest))) =
      value ++ ("?>".toList ++ rest) := by
    have hmark : Stops isSpace ("?>".toList ++ rest) := stops_cons.mpr (by decide)
    exact dropWhile_run hs (hv.append hmark)
  have hlead : dropLead? "<?".toList (written ++ rest) =
      some (target ++ (spaces ++ (value ++ ("?>".toList ++ rest)))) := by
    rw [hw]
    simp only [List.append_assoc]
    exact dropLead?_self _ _
  have hvalue := hup rest
  simp only [List.append_assoc] at hvalue
  unfold instruction?
  rw [hdecl]
  simp only [Bool.false_eq_true, if_false, hlead, Option.bind_eq_bind, Option.bind_some, hname,
    hskip, hvalue]
  rfl

/-- An instruction is read from where it is written, whatever follows. -/
theorem instruction?_eq_some {cs rest : List Char} {n : Node}
    (h : instruction? cs = some (n, rest)) :
    ∃ t v, n = .instruction t v ∧ IsInstruction t v ∧
      ∃ u, cs = u ++ rest ∧ u ≠ [] ∧ ∀ r, instruction? (u ++ r) = some (n, r) := by
  have hcs := h
  unfold instruction? at h
  split at h
  · cases h
  · next hdecl =>
    rw [Bool.not_eq_true] at hdecl
    obtain ⟨r, hr, h⟩ := Option.bind_eq_some_iff.mp h
    obtain ⟨⟨target, r'⟩, hn, h⟩ := Option.bind_eq_some_iff.mp h
    obtain ⟨⟨value, r''⟩, hup, h⟩ := Option.bind_eq_some_iff.mp h
    simp only [Option.pure_def, Option.some.injEq, Prod.mk.injEq] at h
    obtain ⟨rfl, rfl⟩ := h
    obtain rfl := Text.dropLead?_eq_some.mp hr
    obtain ⟨rfl, htarget, hstop⟩ := isWord_of_name? hn
    obtain ⟨hvalue, -, hlocal⟩ := upTo?_eq_some hup
    have hsplit : r' = r'.takeWhile isSpace ++ skipSpaces r' :=
      List.takeWhile_append_dropWhile.symm
    rw [hvalue] at hsplit
    have hspaces := of_mem_takeWhile (p := isSpace) (l := r')
    have hstart : Stops isSpace (value ++ "?>".toList ++ r'') := hvalue ▸ stops_dropWhile _ _
    have hv : Stops isSpace value := hstart.of_append.of_append
    generalize r'.takeWhile isSpace = spaces at hsplit hspaces
    subst hsplit
    have hs : Stops isNameChar (spaces ++ value ++ "?>".toList) := by
      rw [List.append_assoc, ← List.append_assoc spaces] at hstop
      exact Stops.of_append (by simpa only [List.append_assoc] using hstop)
    refine ⟨target, _, rfl, ⟨htarget, fun v hv' => ?_⟩,
      "<?".toList ++ target ++ spaces ++ value ++ "?>".toList, by simp only [List.append_assoc],
      by simp, fun r => ?_⟩
    · split at hv'
      · cases hv'
      · next hne =>
        obtain rfl := Option.some.inj hv'
        exact ⟨hne, hv, hlocal⟩
    · refine instruction?_parts target spaces value rfl htarget hspaces hv hlocal hs ?_
      have hmem : '>' ∈ "<?".toList ++ target ++ spaces ++ value ++ "?>".toList := by simp
      rw [startsWith_append_of_mem (by decide) hmem,
        ← startsWith_append_of_mem (by decide) hmem r'']
      simpa only [List.append_assoc] using hdecl

theorem instruction?_begins {cs rest : List Char} {n : Node}
    (h : instruction? cs = some (n, rest)) :
    (∃ r, cs = "<?".toList ++ r) ∧ startsWith "<?xml ".toList cs = false := by
  unfold instruction? at h
  split at h
  · cases h
  · next hdecl =>
    obtain ⟨r, hr, -⟩ := Option.bind_eq_some_iff.mp h
    exact ⟨⟨r, Text.dropLead?_eq_some.mp hr⟩, by simpa using hdecl⟩

/-- An instruction is read back as it is written, unless it would be a declaration. -/
theorem instruction?_written {t : List Char} {v : Option (List Char)} (h : IsInstruction t v)
    (hxml : t = "xml".toList → v = none) (rest : List Char) :
    instruction? (writtenInstruction t v ++ rest) = some (.instruction t v, rest) := by
  have hdecl : startsWith "<?xml ".toList (writtenInstruction t v ++ rest) = false := by
    rw [← Bool.not_eq_true, startsWith_eq_true]
    rintro ⟨x, hx⟩
    have htail : ∃ d tail, writtenInstruction t v ++ rest = "<?".toList ++ (t ++ d :: tail) ∧
        (d = ' ' → v ≠ none) ∧ isNameChar d = false := by
      cases v with
      | none =>
        refine ⟨'?', '>' :: rest, ?_, by decide, by decide⟩
        simp [writtenInstruction]
      | some v =>
        refine ⟨' ', v ++ "?>".toList ++ rest, ?_, by simp, by decide⟩
        simp [writtenInstruction]
    obtain ⟨d, tail, htail, hd, hnd⟩ := htail
    rw [htail] at hx
    have hx' : t ++ d :: tail = "xml".toList ++ ' ' :: x := by simpa using hx
    have htake := congrArg (List.takeWhile isNameChar) hx'
    rw [takeWhile_run h.target.inner (by simpa using hnd),
      takeWhile_run (List.all_eq_true.mp (by decide)) (by simp; decide)] at htake
    subst htake
    have hcons := List.append_cancel_left hx'
    obtain ⟨rfl, -⟩ := List.cons.inj hcons
    exact hd rfl (hxml rfl)
  cases v with
  | none =>
    have hvalue (r : List Char) : upTo? "?>".toList ([] ++ "?>".toList ++ r) = some ([], r) := rfl
    refine (instruction?_parts t [] [] (by simp [writtenInstruction]) h.target (by simp)
      (by simp) hvalue (by simp; decide) hdecl).trans ?_
    simp
  | some v =>
    obtain ⟨hne, hstop, hvalue⟩ := h.value v rfl
    refine (instruction?_parts t [' '] v (by simp [writtenInstruction]) h.target
      (List.all_eq_true.mp (by decide)) hstop hvalue (by simp; decide) hdecl).trans ?_
    simp [hne]

end Xml

end Marginalia
