import Mathlib.Data.List.Forall2
import Marginalia.Proofs.Xml.Outside

/-! Lines for display. Each line of the pretty form stands escaped between the tags that preformat
it: it adds no tag of its own, and is read back with its entities as the characters they stand
for. -/

namespace Marginalia

open List (Forall₂)
open Text (escapeChar escapeChars)

namespace Text

variable {a r s t w : List Char} {c : Char}

/-- The names of the entities of an escaped text, with their ends. -/
def entityNames : List (List Char) := ["amp;".toList, "lt;".toList, "gt;".toList]

/-- A text with the entities of tags as the characters that they stand for. -/
def unescape : List Char → List Char
  | '&' :: 'a' :: 'm' :: 'p' :: ';' :: s => '&' :: unescape s
  | '&' :: 'l' :: 't' :: ';' :: s => '<' :: unescape s
  | '&' :: 'g' :: 't' :: ';' :: s => '>' :: unescape s
  | c :: s => c :: unescape s
  | [] => []

/-- The escaped form of a text: no tag begins or ends in it, an ampersand begins an entity, and it
is read back as the text. -/
structure Escaped (s body : List Char) : Prop where
  opens : '<' ∉ body
  closes : '>' ∉ body
  entities : ∀ a r, body = a ++ '&' :: r → ∃ name ∈ entityNames, name <+: r
  read : unescape body = s

theorem escapeChar_cases (c : Char) :
    (∃ name ∈ entityNames, escapeChar c = '&' :: name) ∨
      escapeChar c = [c] ∧ c ≠ '&' ∧ c ≠ '<' ∧ c ≠ '>' := by
  unfold escapeChar
  split
  · exact Or.inl ⟨"amp;".toList, by decide, rfl⟩
  · split
    · exact Or.inl ⟨"lt;".toList, by decide, rfl⟩
    · split
      · exact Or.inl ⟨"gt;".toList, by decide, rfl⟩
      · next hamp hopen hclose => exact Or.inr ⟨rfl, hamp, hopen, hclose⟩

theorem unescape_cons (hc : c ≠ '&') (s : List Char) : unescape (c :: s) = c :: unescape s := by
  rw [unescape] <;> (rintro _ rfl; exact absurd rfl hc)

theorem unescape_escapeChar (c : Char) (s : List Char) :
    unescape (escapeChar c ++ s) = c :: unescape s := by
  unfold escapeChar
  split
  · next h => rw [h]; rfl
  · split
    · next h => rw [h]; rfl
    · split
      · next h => rw [h]; rfl
      · next hamp _ _ => exact unescape_cons hamp s

theorem unescape_escapeChars (s : List Char) : unescape (escapeChars s) = s := by
  induction s with
  | nil => rfl
  | cons c s ih =>
    rw [escapeChars, List.flatMap_cons, unescape_escapeChar]
    exact congrArg _ ih

theorem notMem_escapeChars (hname : ∀ name ∈ entityNames, c ∉ '&' :: name)
    (hc : escapeChar c ≠ [c]) (s : List Char) : c ∉ escapeChars s := by
  intro hm
  obtain ⟨d, -, hd⟩ := List.mem_flatMap.mp hm
  rcases escapeChar_cases d with ⟨name, hmem, he⟩ | ⟨he, -⟩
  · exact hname name hmem (he ▸ hd)
  · rw [he] at hd
    obtain rfl := List.mem_singleton.mp hd
    exact hc he

/-- An ampersand that is not in the front of a text is in what follows. -/
theorem amp_past (hw : '&' ∉ w) (h : w ++ t = a ++ '&' :: r) : ∃ a', t = a' ++ '&' :: r := by
  rcases List.append_eq_append_iff.mp h with ⟨a', -, ht⟩ | ⟨w', hw', hr⟩
  · exact ⟨a', ht⟩
  · cases w' with
    | nil => exact ⟨[], hr.symm⟩
    | cons c w' =>
      obtain ⟨rfl, -⟩ := List.cons.inj hr
      exact absurd (hw' ▸ List.mem_append_right a List.mem_cons_self) hw

theorem entity_of_escapeChars (h : escapeChars s = a ++ '&' :: r) :
    ∃ name ∈ entityNames, name <+: r := by
  induction s generalizing a with
  | nil => simp [escapeChars] at h
  | cons c s ih =>
    rw [escapeChars, List.flatMap_cons] at h
    rcases escapeChar_cases c with ⟨name, hmem, he⟩ | ⟨he, hamp, -⟩
    · rw [he, List.cons_append] at h
      cases a with
      | nil =>
        -- The entity of the character itself.
        obtain ⟨-, rfl⟩ := List.cons.inj h
        exact ⟨name, hmem, List.prefix_append name _⟩
      | cons d a =>
        have hnames : ∀ name ∈ entityNames, '&' ∉ name := by decide
        have hname := hnames name hmem
        obtain ⟨a', ha'⟩ := amp_past hname (List.cons.inj h).2
        exact ih ha'
    · rw [he] at h
      obtain ⟨a', ha'⟩ := amp_past (by simpa using hamp.symm) h
      exact ih ha'

theorem escaped_escapeChars (s : List Char) : Escaped s (escapeChars s) where
  opens := notMem_escapeChars (by decide) (by decide) s
  closes := notMem_escapeChars (by decide) (by decide) s
  entities _ _ h := entity_of_escapeChars h
  read := unescape_escapeChars s

end Text

namespace Xml

variable {xml : List Char}

/-- A line on display: between the tags stands its escaped form. -/
def Displayed (line shown : List Char) : Prop :=
  ∃ body, shown = "<pre>".toList ++ body ++ "</pre>".toList ∧ Text.Escaped line body

theorem displayed_preformatted (line : List Char) : Displayed line (preformatted line) :=
  ⟨escapeChars line, rfl, Text.escaped_escapeChars line⟩

/-- No two lines look the same on display. -/
theorem preformatted_injective : Function.Injective preformatted := by
  intro l l' h
  have hbody : escapeChars l = escapeChars l' :=
    List.append_cancel_left (List.append_cancel_right h)
  rw [← Text.unescape_escapeChars l, hbody, Text.unescape_escapeChars]

/-- The lines of a pretty form with more than white space. -/
def shownLines (pretty : List Char) : List (List Char) :=
  (Text.lines pretty).filter fun l => Text.trim l ≠ []

end Xml

end Marginalia
