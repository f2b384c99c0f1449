import Mathlib.Data.List.Basic
import Marginalia.Xml.Encoding
import Marginalia.Proofs.Text.Utf8
import Marginalia.Proofs.Text.Utf16
import Marginalia.Proofs.Xml.Lexing

/-! The text of a file's bytes, or the encoding that they are not in. All bytes are one or the
other, except where the encoding's name has no answer: where a declaration in the first hundred
bytes has `encoding=` with a byte from 0x80 on directly behind it. A text that begins with `<` is
read from each form of bytes that it can be written in. -/

namespace Marginalia.Xml

open Text (dropLead? splitAt? startsWith)
open Text.Utf8 (Reads)

/-- The bytes of characters that are all ASCII. -/
def ascii (s : List Char) : List UInt8 := s.map fun c => UInt8.ofNat c.toNat

/-- The bytes behind the mark of UTF-8, all of them if they do not begin with it. -/
def unmarked : List UInt8 → List UInt8
  | 0xEF :: 0xBB :: 0xBF :: r => r
  | bytes => bytes

/-- The first place of a mark, between what is before it and what is behind it. -/
structure FirstAt {α : Type} (mark before after s : List α) : Prop where
  place : s = before ++ mark ++ after
  first : ∀ a b, s = a ++ mark ++ b → before.length ≤ a.length

/-- The beginning of a file with a declaration in which no quote, but a byte beyond ASCII is behind
the first `encoding=`. -/
inductive Misquotes (head : List UInt8) : Prop
  | intro {inner rest before after : List UInt8} {q : UInt8}
      (starts : ascii "<?xml".toList <+: head)
      (ends : FirstAt (ascii "?>".toList) inner rest head)
      (names : FirstAt (ascii "encoding=".toList) before (q :: after) inner)
      (beyond : 0x80 ≤ q) : Misquotes head

section First

variable {α : Type} [BEq α] [LawfulBEq α] {mark before after s : List α}

theorem length_le_of_splitAt? {a b : List α}
    (h : splitAt? mark (a ++ (mark ++ b)) = some (before, after)) : before.length ≤ a.length := by
  induction a generalizing before with
  | nil =>
    rw [List.nil_append, splitAt?_self] at h
    obtain ⟨rfl, -⟩ : [] = before ∧ b = after := by simpa using h
    simp
  | cons c a ih =>
    rw [List.cons_append, splitAt?] at h
    split at h
    · obtain ⟨rfl, -⟩ := Prod.mk.inj (Option.some.inj h)
      simp
    · obtain ⟨⟨x, y⟩, hs, he⟩ := Option.map_eq_some_iff.mp h
      obtain ⟨rfl, rfl⟩ := Prod.mk.inj he
      simpa using ih hs

theorem splitAt?_eq_some_iff :
    splitAt? mark s = some (before, after) ↔ FirstAt mark before after s := by
  constructor
  · intro h
    refine ⟨Text.append_eq_of_splitAt? h, fun a b hs => ?_⟩
    rw [hs, List.append_assoc] at h
    exact length_le_of_splitAt? h
  · intro h
    have hsome : splitAt? mark s ≠ none := by
      rw [Ne, splitAt?_eq_none_iff]
      exact not_not_intro ⟨before, after, h.place.symm⟩
    obtain ⟨⟨a, b⟩, hab⟩ := Option.ne_none_iff_exists'.mp hsome
    have hs := Text.append_eq_of_splitAt? hab
    have hle := h.first a b hs
    have he : before ++ (mark ++ after) = a ++ (mark ++ b) := by
      rw [← List.append_assoc, ← h.place, hs, List.append_assoc]
    have hge : a.length ≤ before.length := by
      rw [h.place, List.append_assoc] at hab
      exact length_le_of_splitAt? hab
    obtain ⟨rfl, hrest⟩ := List.append_inj he (by omega)
    rw [hab, List.append_cancel_left hrest]

end First

section Rel

variable {α β : Type} {r : α → β → Prop} {x : Option α} {y : Option β}

theorem exists_right_of_rel {a : α} (h : Option.Rel r x y) (hx : x = some a) :
    ∃ b, y = some b ∧ r a b := by
  subst hx
  cases h with
  | some h => exact ⟨_, rfl, h⟩

theorem exists_left_of_rel {b : β} (h : Option.Rel r x y) (hy : y = some b) :
    ∃ a, x = some a ∧ r a b := by
  subst hy
  cases h with
  | some h => exact ⟨_, rfl, h⟩

end Rel

section Marks

variable {bs : List UInt8} {cs : List Char}

theorem ofNat_lt {c : Char} (hc : c.toNat < 0x80) : UInt8.ofNat c.toNat < 0x80 := by
  rw [UInt8.lt_iff_toNat_lt, UInt8.toNat_ofNat', Nat.mod_eq_of_lt (by omega)]
  exact hc

theorem ofNat_eq_iff {c : Char} {b : UInt8} (hc : c.toNat < 0x80) (hb : b < 0x80) :
    UInt8.ofNat c.toNat = b ↔ c = Char.ofNat b.toNat := by
  have hb' : b.toNat < 0x80 := UInt8.lt_iff_toNat_lt.mp hb
  have hchar := Text.Utf8.toNat_ofNat (n := b.toNat) (Or.inl (by omega))
  rw [← UInt8.toNat_inj, ← Char.toNat_inj, hchar, UInt8.toNat_ofNat', Nat.mod_eq_of_lt (by omega)]

theorem dropLead?_reads (mark : List Char) (hm : ∀ c ∈ mark, c.toNat < 0x80)
    (h : Reads bs cs) : Option.Rel Reads (dropLead? (ascii mark) bs) (dropLead? mark cs) := by
  induction mark generalizing bs cs with
  | nil => exact .some h
  | cons c mark ih =>
    obtain ⟨hc, hm⟩ := List.forall_mem_cons.mp hm
    cases h with
    | nil => exact .none
    | ascii hb h =>
      rw [ascii, List.map_cons, dropLead?, dropLead?]
      simp only [beq_iff_eq, ofNat_eq_iff hc hb]
      split
      · exact ih hm h
      · exact .none
    | beyond hg hd h =>
      rw [ascii, List.map_cons, dropLead?, dropLead?, if_neg, if_neg]
      · exact .none
      · rw [beq_iff_eq]
        rintro rfl
        omega
      · rw [beq_iff_eq]
        rintro rfl
        exact absurd (ofNat_lt hc) (UInt8.not_lt.mpr (hg _ List.mem_cons_self))

/-- Two parts of bytes and what either is read as. -/
def ReadsBoth (p : List UInt8 × List UInt8) (q : List Char × List Char) : Prop :=
  Reads p.1 q.1 ∧ Reads p.2 q.2

theorem readsBoth_map {x : Option (List UInt8 × List UInt8)} {y : Option (List Char × List Char)}
    {f : List UInt8 → List UInt8} {g : List Char → List Char} (h : Option.Rel ReadsBoth x y)
    (hf : ∀ a a', Reads a a' → Reads (f a) (g a')) :
    Option.Rel ReadsBoth (x.map fun p => (f p.1, p.2)) (y.map fun q => (g q.1, q.2)) := by
  cases h with
  | none => exact .none
  | some h => exact .some ⟨hf _ _ h.1, h.2⟩

/-- Where a mark of ASCII characters first stands in bytes, it first stands in what they are read
as. -/
theorem splitAt?_reads (mark : List Char) (hne : mark ≠ []) (hm : ∀ c ∈ mark, c.toNat < 0x80)
    (h : Reads bs cs) : Option.Rel ReadsBoth (splitAt? (ascii mark) bs) (splitAt? mark cs) := by
  obtain ⟨c, mark, rfl⟩ := List.exists_cons_of_ne_nil hne
  induction h with
  | nil => exact .none
  | ascii hb h ih =>
    have hlead := dropLead?_reads _ hm (.ascii hb h)
    rw [splitAt?, splitAt?]
    generalize dropLead? (ascii (c :: mark)) _ = x at hlead ⊢
    generalize dropLead? (c :: mark) _ = y at hlead ⊢
    cases hlead with
    | some hrest => exact .some ⟨.nil, hrest⟩
    | none => exact readsBoth_map ih fun _ _ ha => .ascii hb ha
  | @beyond b group bs d cs hg hd h ih =>
    have hc : c.toNat < 0x80 := hm c List.mem_cons_self
    have hbytes : UInt8.ofNat c.toNat ∉ b :: group := by
      intro hmem
      exact absurd (ofNat_lt hc) (UInt8.not_lt.mpr (hg _ hmem))
    have hchars : c ∉ [d] := by
      rw [List.mem_singleton]
      rintro rfl
      omega
    have hpast := splitAt?_past (m := mark) (s := cs) hchars
    rw [List.singleton_append] at hpast
    rw [ascii, List.map_cons, ← List.cons_append, splitAt?_past hbytes, hpast]
    exact readsBoth_map ih fun _ _ ha => .beyond hg hd ha

end Marks

section Declaration

variable {bs : List UInt8} {cs inner before after : List Char} {q : Char}

theorem encodingName_eq_broken {d : List Char} :
    encodingName d = .broken ↔ ∃ before q after,
      splitAt? "encoding=".toList d = some (before, q :: after) ∧ 0x80 ≤ q.toNat := by
  unfold encodingName
  generalize splitAt? "encoding=".toList d = x
  rcases x with - | ⟨before, - | ⟨q, r⟩⟩
  · simp
  · simp
  · by_cases hq : q.toNat < 0x80
    · simp [hq]
    · simp [hq, Nat.le_of_not_lt hq]

/-- A member that stands in front of what is not among the last ones stands before these. -/
theorem exists_of_append_cons {α : Type} {inner last u v : List α} {c : α}
    (h : inner ++ last = u ++ c :: v) (hc : c ∉ last) : ∃ t, inner = u ++ c :: t := by
  rcases List.append_eq_append_iff.mp h with ⟨t, -, hlast⟩ | ⟨t, ht, hlast⟩
  · exact absurd (by simp [hlast]) hc
  · cases t with
    | nil =>
      rw [List.nil_append] at hlast
      exact absurd (hlast ▸ List.mem_cons_self) hc
    | cons d t =>
      obtain ⟨rfl, -⟩ := List.cons.inj hlast
      exact ⟨t, ht⟩

/-- The end of a declaration has no part in what its encoding is read from. -/
theorem splitAt?_declaration (hq : 0x80 ≤ q.toNat) :
    (∃ after, splitAt? "encoding=".toList (inner ++ "?>".toList) = some (before, q :: after)) ↔
      ∃ after, splitAt? "encoding=".toList inner = some (before, q :: after) := by
  constructor
  · rintro ⟨after, h⟩
    have hs := Text.append_eq_of_splitAt? h
    have hends : ∀ c ∈ "?>".toList, c.toNat < 0x80 := by simp
    obtain ⟨t, ht⟩ := exists_of_append_cons hs fun hm => absurd (hends q hm) (Nat.not_lt.mpr hq)
    rw [hs] at h
    refine ⟨t, ?_⟩
    rw [ht]
    exact splitAt?_append h
  · rintro ⟨after, h⟩
    obtain ⟨hs, hrest⟩ := splitAt?_of_append h
    refine ⟨after ++ "?>".toList, ?_⟩
    rw [hs, List.append_assoc]
    exact hrest _

theorem declaration_eq_broken :
    encodingName (declaration cs) = .broken ↔
      startsWith "<?xml".toList cs = true ∧ ∃ inner rest before q after,
        splitAt? "?>".toList cs = some (inner, rest) ∧
        splitAt? "encoding=".toList inner = some (before, q :: after) ∧ 0x80 ≤ q.toNat := by
  have hempty : encodingName [] ≠ .broken := by decide
  unfold declaration
  split
  · rename_i hstarts
    cases hs : splitAt? "?>".toList cs with
    | none => simp [hempty]
    | some p =>
      rw [encodingName_eq_broken]
      constructor
      · rintro ⟨before, q, after, hsplit, hq⟩
        obtain ⟨after, hsplit⟩ := (splitAt?_declaration hq).mp ⟨after, hsplit⟩
        exact ⟨hstarts, p.1, p.2, before, q, after, rfl, hsplit, hq⟩
      · rintro ⟨-, inner, rest, before, q, after, hp, hsplit, hq⟩
        obtain rfl := Option.some.inj hp
        obtain ⟨after, hsplit⟩ := (splitAt?_declaration hq).mpr ⟨after, hsplit⟩
        exact ⟨before, q, after, hsplit, hq⟩
  · rename_i hstarts
    exact iff_of_false hempty fun h => hstarts h.1

theorem misquotes_iff (h : Reads bs cs) :
    Misquotes bs ↔ encodingName (declaration cs) = .broken := by
  have hlead := dropLead?_reads "<?xml".toList (by simp) h
  have hends := splitAt?_reads "?>".toList (by decide) (by simp) h
  rw [declaration_eq_broken]
  constructor
  · rintro ⟨⟨r, hr⟩, ends, names, beyond⟩
    obtain ⟨_, hstarts, -⟩ := exists_right_of_rel hlead (Text.dropLead?_eq_some.mpr hr.symm)
    obtain ⟨⟨inner, rest⟩, hsplit, hinner, -⟩ :=
      exists_right_of_rel hends (splitAt?_eq_some_iff.mpr ends)
    have hnames := splitAt?_reads "encoding=".toList (by decide) (by simp) hinner
    obtain ⟨⟨before, after⟩, hname, -, hafter⟩ :=
      exists_right_of_rel hnames (splitAt?_eq_some_iff.mpr names)
    obtain ⟨q, r, rfl, hq⟩ := hafter.exists_char beyond
    refine ⟨?_, inner, rest, before, q, r, hsplit, hname, hq⟩
    rw [startsWith, hstarts]
    rfl
  · rintro ⟨hstarts, inner, rest, before, q, after, hsplit, hname, hq⟩
    obtain ⟨_, hstarts⟩ := Option.isSome_iff_exists.mp hstarts
    obtain ⟨r, hr, -⟩ := exists_left_of_rel hlead hstarts
    obtain ⟨⟨inner, rest⟩, hsplit, hinner, -⟩ := exists_left_of_rel hends hsplit
    have hnames := splitAt?_reads "encoding=".toList (by decide) (by simp) hinner
    obtain ⟨⟨before, after⟩, hname, -, hafter⟩ := exists_left_of_rel hnames hname
    obtain ⟨b, t, rfl, hb⟩ := hafter.exists_byte hq
    exact ⟨⟨r, (Text.dropLead?_eq_some.mp hr).symm⟩, splitAt?_eq_some_iff.mp hsplit,
      splitAt?_eq_some_iff.mp hname, hb⟩

end Declaration

theorem decodeUnits_ne_broken (e : Text.Utf16.Endian) (bytes : List UInt8) :
    decodeUnits e bytes ≠ .error .broken := by
  unfold decodeUnits
  split <;> simp

theorem decodeBytes_eq_broken_iff (bytes : List UInt8) :
    decodeBytes bytes = .error .broken ↔
      Text.Utf8.decode? bytes = none ∧ Misquotes (bytes.take 100) := by
  rw [misquotes_iff (Text.Utf8.reads_decodeLossy (bytes.take 100))]
  unfold decodeBytes
  split
  · simp_all
  · split <;> simp_all

/-- Bytes that begin otherwise than with `<?` hold no declaration. -/
theorem not_misquotes {a b : UInt8} {r : List UInt8} (h : a ≠ 0x3C ∨ b ≠ 0x3F) :
    ¬ Misquotes (a :: b :: r) := by
  rintro ⟨⟨t, ht⟩, -⟩
  have hmark : ascii "<?xml".toList = [0x3C, 0x3F, 0x78, 0x6D, 0x6C] := by decide
  rw [hmark] at ht
  obtain ⟨rfl, hb⟩ := List.cons.inj ht
  obtain ⟨rfl, -⟩ := List.cons.inj hb
  simp at h

theorem decode_eq_broken_iff (bytes : List UInt8) :
    decode bytes = .error .broken ↔
      Text.Utf8.decode? (unmarked bytes) = none ∧ Misquotes ((unmarked bytes).take 100) := by
  unfold decode
  split
  · exact iff_of_false (decodeUnits_ne_broken _ _) fun h => not_misquotes (by decide) h.2
  · exact iff_of_false (decodeUnits_ne_broken _ _) fun h => not_misquotes (by decide) h.2
  · exact iff_of_false (decodeUnits_ne_broken _ _) fun h => not_misquotes (by decide) h.2
  · exact iff_of_false (decodeUnits_ne_broken _ _) fun h => not_misquotes (by decide) h.2
  · exact decodeBytes_eq_broken_iff _
  · rename_i hmark
    rw [unmarked]
    · exact decodeBytes_eq_broken_iff _
    · exact hmark

/-- Every sequence of bytes has a text or an encoding that it is not in, unless it is no UTF-8 and
begins with a declaration that has a byte beyond ASCII in the place of a quote. -/
theorem decode_answers_iff (bytes : List UInt8) :
    ((∃ cs, decode bytes = .ok cs) ∨ ∃ e, decode bytes = .error (.invalid e)) ↔
      ¬ (Text.Utf8.decode? (unmarked bytes) = none ∧ Misquotes ((unmarked bytes).take 100)) := by
  rw [← decode_eq_broken_iff]
  cases h : decode bytes with
  | ok cs => simp
  | error e => cases e <;> simp

/-- A declaration that has bytes 0xFF for quotes. -/
theorem decode_misquoted :
    let bytes := ascii "<?xml encoding=".toList ++ 0xFF :: (ascii "latin1".toList ++
      0xFF :: ascii "?>".toList)
    ¬ ((∃ cs, decode bytes = .ok cs) ∨ ∃ e, decode bytes = .error (.invalid e)) := by
  intro bytes
  have h : decode bytes = .error .broken := by decide +kernel
  simp [h]

/-! ### The forms of a file -/

/-- How a text is written as bytes, with or without a mark in front. -/
inductive ByteForm where
  | utf8 (marked : Bool)
  | utf16 (e : Text.Utf16.Endian) (marked : Bool)
deriving DecidableEq, Repr

def ByteForm.mark : ByteForm → List UInt8
  | .utf8 true => [0xEF, 0xBB, 0xBF]
  | .utf16 .little true => [0xFF, 0xFE]
  | .utf16 .big true => [0xFE, 0xFF]
  | .utf8 false | .utf16 _ false => []

def ByteForm.bytes (f : ByteForm) (s : String) : List UInt8 :=
  f.mark ++ match f with
    | .utf8 _ => Text.Utf8.encode s
    | .utf16 e _ => Text.Utf16.encode e s.toList

section Forms

variable {s : String} {cs : List Char} {r : List UInt8}

theorem decodeBytes_encode (s : String) : decodeBytes (Text.Utf8.encode s) = .ok s.toList := by
  rw [decodeBytes, Text.Utf8.decode?_encode]

theorem decodeUnits_encode (e : Text.Utf16.Endian) (cs : List Char) :
    decodeUnits e (Text.Utf16.encode e cs) = .ok cs := by
  rw [decodeUnits, Text.Utf16.decode?_encode]

theorem zero_notMem_encodeChar {c : Char} (h : c ≠ '\x00') : 0 ∉ String.utf8EncodeChar c := by
  have hc : c.val.toNat ≠ 0 := by
    intro he
    exact h (Char.toNat_inj.mp he)
  have hbyte {n : Nat} (hn : n < 256) (hne : n ≠ 0) : 0 ≠ UInt8.ofNat n := by
    intro he
    have := congrArg UInt8.toNat he
    rw [Text.Utf8.toNat_byte hn] at this
    exact hne this.symm
  unfold String.utf8EncodeChar
  generalize c.val.toNat = n at hc ⊢
  dsimp only
  intro hmem
  -- only the byte of an ASCII character can be below 0x80
  split_ifs at hmem with h1
  all_goals
    simp only [List.mem_cons, List.not_mem_nil, or_false] at hmem
  · exact hbyte (by omega) hc hmem
  · rcases hmem with he | he
    all_goals exact hbyte (by omega) (by omega) he
  · rcases hmem with he | he | he
    all_goals exact hbyte (by omega) (by omega) he
  · rcases hmem with he | he | he | he
    all_goals exact hbyte (by omega) (by omega) he

/-- Bytes that begin with `<` and do not go on with zero have no units. -/
theorem decode_lead (h : 0 ∉ r) : decode (0x3C :: r) = decodeBytes (0x3C :: r) := by
  unfold decode
  split <;> simp_all

end Forms

/-- A text that begins with `<` and holds no zero is read from each of its forms. -/
theorem decode_bytes (f : ByteForm) {s : String} (hs : s.toList.head? = some '<')
    (hz : '\x00' ∉ s.toList) : decode (f.bytes s) = .ok s.toList := by
  obtain ⟨cs, hcs⟩ := List.head?_eq_some_iff.mp hs
  have hbytes : Text.Utf8.encode s = 0x3C :: cs.flatMap String.utf8EncodeChar := by
    rw [Text.Utf8.encode_eq, hcs, List.flatMap_cons]
    rfl
  have hrest : 0 ∉ cs.flatMap String.utf8EncodeChar := by
    intro hmem
    obtain ⟨c, hc, hzero⟩ := List.mem_flatMap.mp hmem
    refine zero_notMem_encodeChar (fun he => hz ?_) hzero
    rw [hcs, ← he]
    exact List.mem_cons_of_mem _ hc
  cases f with
  | utf8 marked =>
    have hread := decodeBytes_encode s
    cases marked with
    | true => exact hread
    | false =>
      rw [hbytes] at hread
      rw [ByteForm.bytes, ByteForm.mark, List.nil_append, hbytes, decode_lead hrest, hread]
  | utf16 e marked =>
    have hread := decodeUnits_encode e s.toList
    cases marked with
    | true =>
      cases e with
      | little => exact hread
      | big => exact hread
    | false =>
      have hunits : Text.Utf16.encode e ('<' :: cs) =
          Text.Utf16.bytesOfUnit e 0x3C ++ Text.Utf16.encode e cs := rfl
      rw [ByteForm.bytes, ByteForm.mark, List.nil_append, hcs, hunits]
      rw [hcs, hunits] at hread
      cases e with
      | little => exact hread
      | big => exact hread

/-- A text with characters of two, three and four bytes, the last of them two units. -/
theorem decode_bytes_beyond_ascii :
    let s := "<é€😀>"
    s.toList.head? = some '<' ∧ '\x00' ∉ s.toList ∧
      ∀ f ∈ [.utf8 false, .utf8 true, .utf16 .little true, .utf16 .big true,
        .utf16 .little false, .utf16 .big false], decode (ByteForm.bytes f s) = .ok s.toList := by
  intro s
  have hs : s.toList.head? = some '<' := by decide
  have hz : '\x00' ∉ s.toList := by decide
  exact ⟨hs, hz, fun f _ => decode_bytes f hs hz⟩

end Marginalia.Xml
