import Marginalia.Json.Parser
import Marginalia.Json.Printer
import Marginalia.Proofs.Decimal.Digits
import Marginalia.Proofs.Json.Members
import Marginalia.Proofs.Text.Runs

/-! The text of a plain value is read back as the value, whatever follows the text as long as it
does not carry on a number. -/

namespace Marginalia.Json

/-! ### Numbers -/

/-- Whether a character carries on a number. -/
def goesOn (c : Char) : Bool := Text.isDigit c || c == '.' || c == 'e' || c == 'E'

variable {rest : List Char} {fuel : Nat}

theorem stops_isDigit (h : Stops goesOn rest) : Stops Text.isDigit rest := by
  intro c hc
  have hgo := h c hc
  simp only [goesOn, Bool.or_eq_false_iff] at hgo
  exact hgo.1.1.1

/-- A word takes all the digits of a number that fits it. -/
theorem absorb_digits {cs : List Char} {n : Nat} (hcs : ∀ c ∈ cs, Text.isDigit c = true)
    (hn : cs.foldl (fun n c => n * 10 + Decimal.digitValue c) n < UInt64.size) :
    Number.absorb n cs =
      (cs.foldl (fun n c => n * 10 + Decimal.digitValue c) n, cs.length, []) := by
  induction cs generalizing n with
  | nil => rfl
  | cons c cs ih =>
    have hc := hcs c List.mem_cons_self
    rw [List.foldl_cons] at hn
    have hfits : n * 10 + Decimal.digitValue c < UInt64.size :=
      Nat.lt_of_le_of_lt (Decimal.le_foldl_digits cs _) hn
    have hrest := ih (fun d hd => hcs d (List.mem_cons_of_mem c hd)) hn
    rw [Number.absorb]
    simp only [hc, hfits, hrest, and_self, if_true, List.foldl_cons, List.length_cons]

theorem scan_digits {n : Nat} (hn : n < UInt64.size) (hr : Stops goesOn rest) :
    Number.scan (Decimal.digits n ++ rest) = some (⟨n, 0, true⟩, rest) := by
  have hdigits : ∀ c ∈ Decimal.digits n, Text.isDigit c = true :=
    fun c => Decimal.isDigit_of_mem_digits
  have habsorb : Number.absorb 0 (Decimal.digits n) = (n, (Decimal.digits n).length, []) := by
    have hvalue := Decimal.value_digits n
    rw [Decimal.value] at hvalue
    have h := absorb_digits hdigits (n := 0) (by rw [hvalue]; exact hn)
    rwa [hvalue] at h
  have hlead : ¬ ((Decimal.digits n).head? = some '0' ∧ (Decimal.digits n).length ≠ 1) := by
    rintro ⟨hzero, hlen⟩
    rcases Nat.eq_zero_or_pos n with rfl | hpos
    · exact hlen (by simp [Decimal.digits])
    · exact Decimal.head?_digits_ne_zero hpos hzero
  rw [Number.scan, takeWhile_run hdigits (stops_isDigit hr),
    dropWhile_run hdigits (stops_isDigit hr)]
  simp only [Decimal.digits_ne_nil, hlead, if_false, habsorb, Option.bind_eq_bind]
  cases rest with
  | nil => rfl
  | cons c rest =>
    have hc := stops_cons.mp hr
    simp only [goesOn, Bool.or_eq_false_iff, beq_eq_false_iff_ne] at hc
    obtain ⟨⟨⟨-, hpoint⟩, he⟩, hE⟩ := hc
    split
    · next heq =>
      cases heq
      exact absurd rfl hpoint
    · next heq =>
      cases heq
      rw [if_neg (by simp [he, hE])]
      rfl
    · next heq => cases heq

theorem digits_eq_cons (n : Nat) : ∃ c cs, Decimal.digits n = c :: cs ∧ Text.isDigit c = true := by
  obtain ⟨c, cs, hcs⟩ := List.exists_cons_of_ne_nil (Decimal.digits_ne_nil n)
  exact ⟨c, cs, hcs, Decimal.isDigit_of_mem_digits (hcs ▸ List.mem_cons_self)⟩

theorem read_digits {n : Nat} (hn : n < UInt64.size) (hr : Stops goesOn rest) :
    Number.read (Decimal.digits n ++ rest) = some (.int n, rest) := by
  have hscan := scan_digits hn hr
  obtain ⟨c, cs, hcs, hc⟩ := digits_eq_cons n
  rw [hcs, List.cons_append] at hscan ⊢
  rw [Number.read, hscan]
  · rfl
  · rintro cs' heq
    cases heq
    exact absurd hc (by decide)

/-! ### Quoted texts -/

theorem unit?_hex4 {n : Nat} (h : n < 0x20) (rest : List Char) :
    unit? (hex4 n ++ rest) = some (n, rest) := by
  have hdigits : (hex4 n).map Text.hexValue? = [some 0, some 0, some (n / 16), some (n % 16)] := by
    revert n
    decide
  simp only [hex4, List.map_cons, List.map_nil, List.cons.injEq, and_true] at hdigits
  obtain ⟨h3, h2, h1, h0⟩ := hdigits
  simp only [hex4, List.cons_append, List.nil_append, unit?, h3, h2, h1, h0, Option.bind_eq_bind,
    Option.bind_some, Option.pure_def, Option.some.injEq, Prod.mk.injEq, and_true]
  omega

theorem piece_escapeChar (c : Char) (rest : List Char) :
    piece (escapeChar c ++ rest) = some (.char c, rest) := by
  unfold escapeChar
  split
  case h_8 =>
    rename_i hquote hslash _ _ _ _ _
    split
    · next hc =>
      have hsmall : ¬ (0xD800 ≤ c.toNat ∧ c.toNat ≤ 0xDBFF) := by omega
      have hsmall' : ¬ (0xDC00 ≤ c.toNat ∧ c.toNat ≤ 0xDFFF) := by omega
      simp only [List.cons_append, piece, unit?_hex4 hc, Option.bind_eq_bind, Option.bind_some,
        if_neg hsmall, if_neg hsmall', Char.ofNat_toNat, Option.pure_def]
    · next hc =>
      have hplain : ¬ (c.toNat < 0x20 ∨ c = '\\') := by
        rintro (hsmall | rfl)
        · exact hc hsmall
        · exact hslash rfl
      rw [List.singleton_append, piece, if_neg hplain]
      · exact hquote
      · intro _ hc' _
        exact hslash hc'
      · intro _ _ hc' _
        exact hslash hc'
  all_goals rfl

theorem length_le_escaped (cs : List Char) : cs.length ≤ (cs.flatMap escapeChar).length := by
  induction cs with
  | nil => exact Nat.le_refl 0
  | cons c cs ih =>
    have hc : 0 < (escapeChar c).length := by
      unfold escapeChar
      split
      case h_8 => split <;> simp
      all_goals exact Nat.succ_pos _
    rw [List.flatMap_cons, List.length_append, List.length_cons]
    omega

theorem quotedText_escaped {cs : List Char} (hfuel : cs.length < fuel) :
    quotedText fuel (cs.flatMap escapeChar ++ '"' :: rest) = some (some cs, rest) := by
  induction cs generalizing fuel with
  | nil =>
    cases fuel with
    | zero => exact absurd hfuel (Nat.not_lt_zero _)
    | succ fuel => rfl
  | cons c cs ih =>
    cases fuel with
    | zero => exact absurd hfuel (Nat.not_lt_zero _)
    | succ fuel =>
      have hrest := ih (Nat.lt_of_succ_lt_succ hfuel)
      rw [List.flatMap_cons, List.append_assoc, quotedText, piece_escapeChar]
      simp only [hrest, Option.map_some]

/-- A quoted text is read up to and with its closing quote. -/
theorem quotedText_quote (s : String) (rest : List Char) :
    ∃ r, quote s ++ rest = '"' :: r ∧ quotedText (r.length + 1) r = some (some s.toList, rest) := by
  refine ⟨s.toList.flatMap escapeChar ++ '"' :: rest, by simp [quote], quotedText_escaped ?_⟩
  have hlen := length_le_escaped s.toList
  rw [List.length_append]
  omega

/-! ### Values -/

theorem isSpace_of_isDigit {c : Char} (h : Text.isDigit c = true) : isSpace c = false := by
  apply Bool.eq_false_iff.mpr
  intro hspace
  simp only [isSpace, Bool.or_eq_true, beq_iff_eq] at hspace
  rcases hspace with ((rfl | rfl) | rfl) | rfl <;> exact absurd h (by decide)

theorem skipSpace_cons {c : Char} {cs : List Char} (h : isSpace c = false) :
    skipSpace (c :: cs) = c :: cs :=
  dropWhile_eq_self (stops_cons.mpr h)

/-- A value is read off its text, whatever follows that does not carry on a number. -/
def Reads (j : Json) : Prop :=
  -- A bracket costs two steps, one for the value and one for the first thing in it.
  ∀ (fuel : Nat) (rest : List Char), 2 * (render j).length ≤ fuel → Stops goesOn rest →
    readValue fuel (render j ++ rest) = some (j, rest)

/-- A value's text begins neither with white space nor with the end of an array. -/
theorem render_eq_cons {j : Json} (h : Plain j) :
    ∃ c cs, render j = c :: cs ∧ isSpace c = false ∧ c ≠ ']' := by
  cases h with
  | null => exact ⟨_, _, rfl, rfl, by decide⟩
  | bool b => cases b <;> exact ⟨_, _, rfl, rfl, by decide⟩
  | word h =>
    rename_i n
    obtain ⟨c, cs, hcs, hc⟩ := digits_eq_cons n
    refine ⟨c, cs, ?_, ?_, ?_⟩
    · rw [render, ← hcs]
      exact String.toList_ofList
    · exact isSpace_of_isDigit hc
    · rintro rfl
      exact absurd hc (by decide)
  | text s => exact ⟨_, _, rfl, rfl, by decide⟩
  | array h => exact ⟨_, _, rfl, rfl, by decide⟩
  | object h => exact ⟨_, _, rfl, rfl, by decide⟩

theorem renderItems_eq_cons {x : Json} (h : Plain x) (xs : List Json) :
    ∃ c cs, renderItems (x :: xs) = c :: cs ∧ isSpace c = false ∧ c ≠ ']' := by
  obtain ⟨c, cs, hcs, hc⟩ := render_eq_cons h
  cases xs with
  | nil => exact ⟨c, cs, hcs, hc⟩
  | cons y ys => exact ⟨c, _, by rw [renderItems, hcs, List.cons_append], hc⟩

theorem renderMembers_eq_cons (m : String × Json) (ms : List (String × Json)) :
    ∃ cs, renderMembers (m :: ms) = '"' :: cs := by
  cases ms <;> exact ⟨_, rfl⟩

theorem skipSpace_render {j : Json} (h : Plain j) (rest : List Char) :
    skipSpace (render j ++ rest) = render j ++ rest := by
  obtain ⟨c, cs, hcs, hspace, -⟩ := render_eq_cons h
  rw [hcs]
  exact skipSpace_cons hspace

theorem reads_null : Reads .null := by
  intro fuel rest hfuel _
  cases fuel with
  | zero => simp [render] at hfuel
  | succ fuel => rfl

theorem reads_bool (b : Bool) : Reads (.bool b) := by
  intro fuel rest hfuel _
  cases fuel with
  | zero => cases b <;> simp [render] at hfuel
  | succ fuel => cases b <;> rfl

theorem reads_word {n : Nat} (h : n < UInt64.size) : Reads (.int n) := by
  intro fuel rest hfuel hrest
  have hread := read_digits h hrest
  have htext : render (.int n) = Decimal.digits n := by
    rw [render]
    exact String.toList_ofList
  obtain ⟨c, cs, hcs, hc⟩ := digits_eq_cons n
  rw [htext, hcs] at hfuel ⊢
  rw [hcs] at hread
  cases fuel with
  | zero => simp at hfuel
  | succ fuel =>
    rw [List.cons_append] at hread ⊢
    rw [readValue]
    · exact hread
    -- No other kind of value begins with a digit.
    all_goals
      intro _ heq
      injection heq with hhead _
      subst hhead
      exact absurd hc (by decide)

theorem reads_text (s : String) : Reads (.text s) := by
  intro fuel rest hfuel _
  obtain ⟨r, hr, hread⟩ := quotedText_quote s rest
  cases fuel with
  | zero => simp [render, quote] at hfuel
  | succ fuel =>
    rw [render, hr, readValue, hread]
    simp only [Option.map_some, String.ofList_toList]

/-- The values of an array, one after another; each of them begins with no white space. -/
theorem readItems_render {xs : List Json} (hne : xs ≠ []) (hplain : ∀ x ∈ xs, Plain x)
    (h : ∀ x ∈ xs, Reads x) (hfuel : 2 * (renderItems xs).length < fuel) :
    readItems fuel (renderItems xs ++ ']' :: rest) = some (xs, rest) := by
  induction xs generalizing fuel with
  | nil => exact absurd rfl hne
  | cons x xs ih =>
    cases fuel with
    | zero => exact absurd hfuel (Nat.not_lt_zero _)
    | succ fuel =>
      have hx := h x List.mem_cons_self
      cases xs with
      | nil =>
        rw [renderItems] at hfuel ⊢
        rw [readItems, hx fuel _ (by omega) (stops_cons.mpr rfl)]
        rfl
      | cons y ys =>
        rw [renderItems, List.length_append, List.length_cons] at hfuel
        have hys : readItems fuel (renderItems (y :: ys) ++ ']' :: rest) = some (y :: ys, rest) :=
          ih (List.cons_ne_nil y ys) (fun z hz => hplain z (List.mem_cons_of_mem x hz))
            (fun z hz => h z (List.mem_cons_of_mem x hz)) (by omega)
        obtain ⟨c, cs, hcs, hspace, -⟩ := renderItems_eq_cons (hplain y (by simp)) ys
        have hskip : skipSpace (renderItems (y :: ys) ++ ']' :: rest) =
            renderItems (y :: ys) ++ ']' :: rest := by
          rw [hcs]
          exact skipSpace_cons hspace
        rw [renderItems, List.append_assoc, List.cons_append, readItems,
          hx fuel _ (by omega) (stops_cons.mpr rfl)]
        simp only [skipSpace_cons (c := ',') rfl, hskip, hys, Option.map_some]

/-- What stands behind a member of an object decides whether there are others. -/
def afterMember (fuel : Nat) (m : String × Json) :
    List Char → Option (Option (List (String × Json)) × List Char)
  | ',' :: r => (readMembers fuel (skipSpace r)).map fun (ms, r) => (ms.map (m :: ·), r)
  | '\x7d' :: r => some (some [m], r)
  | _ => none

theorem readMembers_member {k : String} {v : Json} (hplain : Plain v) (h : Reads v)
    (hfuel : 2 * (render v).length ≤ fuel) (hrest : Stops goesOn rest) :
    readMembers (fuel + 1) (quote k ++ ':' :: (render v ++ rest)) =
      afterMember fuel (k, v) (skipSpace rest) := by
  obtain ⟨r, hr, hkey⟩ := quotedText_quote k (':' :: (render v ++ rest))
  have hvalue := h fuel rest hfuel hrest
  rw [hr, readMembers, hkey]
  simp only [skipSpace_cons (c := ':') rfl, skipSpace_render hplain, hvalue, Option.map_some,
    String.ofList_toList]
  -- What is left is the same split on the character behind the value on both sides.
  generalize skipSpace rest = s
  split
  · rw [afterMember]
    congr 1
    funext p
    obtain ⟨ms, r'⟩ := p
    cases ms <;> rfl
  · rfl
  · next hcomma hend =>
    rw [afterMember]
    · exact hcomma
    · exact hend

theorem readMembers_render {ms : List (String × Json)} (hne : ms ≠ [])
    (hplain : ∀ m ∈ ms, Plain m.2) (h : ∀ m ∈ ms, Reads m.2)
    (hfuel : 2 * (renderMembers ms).length < fuel) :
    readMembers fuel (renderMembers ms ++ '\x7d' :: rest) = some (some ms, rest) := by
  induction ms generalizing fuel with
  | nil => exact absurd rfl hne
  | cons m ms ih =>
    obtain ⟨k, v⟩ := m
    cases fuel with
    | zero => exact absurd hfuel (Nat.not_lt_zero _)
    | succ fuel =>
      have hv : ∀ rest : List Char, 2 * (render v).length ≤ fuel → Stops goesOn rest → _ :=
        fun rest => readMembers_member (k := k) (hplain (k, v) List.mem_cons_self)
          (h (k, v) List.mem_cons_self)
      cases ms with
      | nil =>
        rw [renderMembers, List.length_append, List.length_cons] at hfuel
        have hlast := hv ('\x7d' :: rest) (by omega) (stops_cons.mpr rfl)
        rw [renderMembers, List.append_assoc, List.cons_append, hlast]
        rfl
      | cons m' ms =>
        obtain ⟨k', v'⟩ := m'
        rw [renderMembers] at hfuel
        simp only [List.length_append, List.length_cons] at hfuel
        have hms : readMembers fuel (renderMembers ((k', v') :: ms) ++ '\x7d' :: rest) =
            some (some ((k', v') :: ms), rest) :=
          ih (List.cons_ne_nil _ ms) (fun n hn => hplain n (List.mem_cons_of_mem _ hn))
            (fun n hn => h n (List.mem_cons_of_mem _ hn)) (by omega)
        have hfirst := hv (',' :: (renderMembers ((k', v') :: ms) ++ '\x7d' :: rest)) (by omega)
          (stops_cons.mpr rfl)
        obtain ⟨cs, hcs⟩ := renderMembers_eq_cons (k', v') ms
        have hskip : skipSpace (renderMembers ((k', v') :: ms) ++ '\x7d' :: rest) =
            renderMembers ((k', v') :: ms) ++ '\x7d' :: rest := by
          rw [hcs]
          exact skipSpace_cons rfl
        rw [renderMembers]
        simp only [List.append_assoc, List.cons_append]
        rw [hfirst]
        simp only [skipSpace_cons (c := ',') rfl, afterMember, hskip, hms, Option.map_some]

theorem reads_array {xs : List Json} (hplain : ∀ x ∈ xs, Plain x) (h : ∀ x ∈ xs, Reads x) :
    Reads (.array xs) := by
  intro fuel rest hfuel _
  rw [render, List.cons_append, List.length_cons, List.length_append] at hfuel
  cases fuel with
  | zero => exact absurd hfuel (by omega)
  | succ fuel =>
    rw [render, List.cons_append, List.cons_append, List.append_assoc, List.singleton_append,
      readValue]
    cases xs with
    | nil => rfl
    | cons x xs =>
      obtain ⟨c, cs, hcs, hspace, hend⟩ := renderItems_eq_cons (hplain x List.mem_cons_self) xs
      have hitems : readItems fuel (renderItems (x :: xs) ++ ']' :: rest) = some (x :: xs, rest) :=
        readItems_render (List.cons_ne_nil x xs) hplain h (by omega)
      rw [hcs, List.cons_append] at hitems ⊢
      rw [skipSpace_cons hspace]
      split
      · next heq =>
        injection heq with hhead _
        exact absurd hhead hend
      · rw [hitems]
        rfl

theorem reads_object {ms : List (String × Json)} (hplain : ∀ m ∈ ms, Plain m.2)
    (h : ∀ m ∈ ms, Reads m.2) : Reads (.object ms) := by
  intro fuel rest hfuel _
  rw [render, List.cons_append, List.length_cons, List.length_append] at hfuel
  cases fuel with
  | zero => exact absurd hfuel (by omega)
  | succ fuel =>
    rw [render, List.cons_append, List.cons_append, List.append_assoc, List.singleton_append,
      readValue]
    cases ms with
    | nil => rfl
    | cons m ms =>
      obtain ⟨cs, hcs⟩ := renderMembers_eq_cons m ms
      have hmembers : readMembers fuel (renderMembers (m :: ms) ++ '\x7d' :: rest) =
          some (some (m :: ms), rest) :=
        readMembers_render (List.cons_ne_nil m ms) hplain h (by omega)
      rw [hcs, List.cons_append] at hmembers ⊢
      rw [skipSpace_cons rfl]
      show (readMembers fuel ('"' :: (cs ++ '\x7d' :: rest))).map _ = _
      rw [hmembers]
      rfl

theorem reads_of_plain {j : Json} (h : Plain j) : Reads j := by
  induction h with
  | null => exact reads_null
  | bool b => exact reads_bool b
  | word h => exact reads_word h
  | text s => exact reads_text s
  | array h ih => exact reads_array h ih
  | object h ih => exact reads_object h ih

/-- The compact text of a plain value holds the value. -/
theorem parse?_compact {j : Json} (h : Plain j) : parse? (compact j) = some j := by
  have htext : (compact j).toList = render j := String.toList_ofList
  have hskip := skipSpace_render h []
  have hread := reads_of_plain h (2 * (render j).length + 2) [] (by omega) stops_nil
  rw [List.append_nil] at hskip hread
  simp only [parse?, htext, hskip, hread]
  rfl

end Marginalia.Json
