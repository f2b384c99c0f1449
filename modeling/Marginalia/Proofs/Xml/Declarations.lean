import Marginalia.Xml.Pretty
import Marginalia.Proofs.Text.Collapse
import Marginalia.Proofs.Xml.Decoding

/-! Declarations of an internal subset. The subset is cut at every `<` outside of a declaration, and
a declaration goes on to its end: the first closing mark of a comment, the first `>` outside quotes
of anything else. However much fuel is left over, the pieces are the same. -/

namespace Marginalia.Xml

open Text (IsGap isBlank splitAt? startsWith trim)

/-! ### Texts outside quotes -/

/-- A text in which every quote that opens is closed again. What follows it is outside quotes. -/
inductive Unquoted : List Char → Prop where
  | nil : Unquoted []
  | plain {c : Char} {u : List Char} (hdouble : c ≠ '"') (hsingle : c ≠ '\'') (h : Unquoted u) :
      Unquoted (c :: u)
  | quoted {q : Char} {v u : List Char} (hq : q = '"' ∨ q = '\'') (hv : q ∉ v) (h : Unquoted u) :
      Unquoted (q :: (v ++ q :: u))

/-- A text that ends with its first `>` outside quotes. -/
def EndsMarkup (d : List Char) : Prop :=
  ∃ body, d = body ++ ['>'] ∧ Unquoted body ∧ ∀ a b, body = a ++ '>' :: b → ¬ Unquoted a

/-- A text that closes the quote which is open in front of it, if there is one, and goes on outside
quotes. -/
def ClosesQuote : Option Char → List Char → Prop
  | none, u => Unquoted u
  | some q, u => ∃ v w, u = v ++ q :: w ∧ q ∉ v ∧ Unquoted w

/-- The quote that is open behind a character, by the one that is open before it. -/
def quoteStep : Option Char → Char → Option Char
  | some q, c => if c = q then none else some q
  | none, c => if c = '"' ∨ c = '\'' then some c else none

section Quotes

variable {a b body cs d r s u v x : List Char} {c q : Char} {o : Option Char}

theorem quoteStep_open (hc : c = '"' ∨ c = '\'') : quoteStep none c = some c := if_pos hc

theorem quoteStep_plain (hc : ¬ (c = '"' ∨ c = '\'')) : quoteStep none c = none := if_neg hc

theorem quoteStep_close (q : Char) : quoteStep (some q) q = none := if_pos rfl

theorem quoteStep_inside (hc : c ≠ q) : quoteStep (some q) c = some q := if_neg hc

theorem foldl_quoteStep_inside (hv : q ∉ v) : v.foldl quoteStep (some q) = some q := by
  induction v with
  | nil => rfl
  | cons c v ih =>
    have hc : c ≠ q := fun he => hv (he ▸ List.mem_cons_self)
    rw [List.foldl_cons, quoteStep_inside hc]
    exact ih fun hm => hv (List.mem_cons_of_mem c hm)

theorem foldl_quoteStep_of_unquoted (h : Unquoted u) : u.foldl quoteStep none = none := by
  induction h with
  | nil => rfl
  | plain hdouble hsingle _ ih =>
    rw [List.foldl_cons, quoteStep_plain (not_or.mpr ⟨hdouble, hsingle⟩)]
    exact ih
  | quoted hq hv _ ih =>
    rw [List.foldl_cons, quoteStep_open hq, List.foldl_append, foldl_quoteStep_inside hv,
      List.foldl_cons, quoteStep_close]
    exact ih

theorem closesQuote_of_foldl (h : u.foldl quoteStep o = none) : ClosesQuote o u := by
  induction u generalizing o with
  | nil =>
    obtain rfl : o = none := h
    exact .nil
  | cons c u ih =>
    have hrest : ClosesQuote (quoteStep o c) u := ih h
    cases o with
    | none =>
      by_cases hc : c = '"' ∨ c = '\''
      · rw [quoteStep_open hc] at hrest
        obtain ⟨v, w, rfl, hv, hw⟩ := hrest
        exact .quoted hc hv hw
      · rw [quoteStep_plain hc] at hrest
        obtain ⟨hdouble, hsingle⟩ := not_or.mp hc
        exact .plain hdouble hsingle hrest
    | some q =>
      by_cases hc : c = q
      · subst hc
        rw [quoteStep_close] at hrest
        exact ⟨[], u, rfl, List.not_mem_nil, hrest⟩
      · rw [quoteStep_inside hc] at hrest
        obtain ⟨v, w, rfl, hv, hw⟩ := hrest
        have hnot : q ∉ c :: v := List.not_mem_cons_of_ne_of_not_mem (Ne.symm hc) hv
        exact ⟨c :: v, w, rfl, hnot, hw⟩

theorem unquoted_iff : Unquoted u ↔ u.foldl quoteStep none = none :=
  ⟨foldl_quoteStep_of_unquoted, closesQuote_of_foldl⟩

theorem afterTag?_cons (o : Option Char) (c : Char) (cs : List Char) :
    afterTag? o (c :: cs) =
      if o = none ∧ c = '>' then some cs else afterTag? (quoteStep o c) cs := by
  cases o with
  | none =>
    by_cases hc : c = '"' ∨ c = '\''
    · have hclose : c ≠ '>' := by
        rintro rfl
        revert hc
        decide
      simp [afterTag?, quoteStep, hc, hclose]
    · simp [afterTag?, quoteStep, hc]
  | some q => simp [afterTag?, quoteStep]

/-- The text behind the first `>` outside quotes, where one quote may be open in front. -/
theorem afterTag?_of_first (hbody : body.foldl quoteStep o = none)
    (hfirst : ∀ a b, body = a ++ '>' :: b → a.foldl quoteStep o ≠ none) :
    afterTag? o (body ++ '>' :: r) = some r := by
  induction body generalizing o with
  | nil =>
    obtain rfl : o = none := hbody
    simp [afterTag?_cons]
  | cons c body ih =>
    have hstep : ¬ (o = none ∧ c = '>') := by
      rintro ⟨rfl, rfl⟩
      exact hfirst [] body rfl rfl
    rw [List.cons_append, afterTag?_cons, if_neg hstep]
    refine ih hbody fun a b hab => ?_
    exact hfirst (c :: a) b (by rw [hab, List.cons_append])

theorem first_of_afterTag? (h : afterTag? o s = some r) :
    ∃ body, s = body ++ '>' :: r ∧ body.foldl quoteStep o = none ∧
      ∀ a b, body = a ++ '>' :: b → a.foldl quoteStep o ≠ none := by
  induction s generalizing o with
  | nil => simp [afterTag?] at h
  | cons c s ih =>
    rw [afterTag?_cons] at h
    split at h
    · next hend =>
      obtain ⟨rfl, rfl⟩ := hend
      obtain rfl := Option.some.inj h
      exact ⟨[], rfl, rfl, by simp⟩
    · next hend =>
      obtain ⟨body, rfl, hbody, hfirst⟩ := ih h
      refine ⟨c :: body, rfl, hbody, fun a b hab => ?_⟩
      cases a with
      | nil =>
        obtain ⟨rfl, -⟩ := List.cons.inj hab
        exact fun ho => hend ⟨ho, rfl⟩
      | cons d a =>
        obtain ⟨rfl, htail⟩ := List.cons.inj hab
        exact hfirst a b htail

theorem afterTag?_eq_some_iff :
    afterTag? none s = some r ↔ ∃ d, s = d ++ r ∧ EndsMarkup d := by
  constructor
  · intro h
    obtain ⟨body, rfl, hbody, hfirst⟩ := first_of_afterTag? h
    refine ⟨body ++ ['>'], by simp, body, rfl, unquoted_iff.mpr hbody, fun a b hab ha => ?_⟩
    exact hfirst a b hab (unquoted_iff.mp ha)
  · rintro ⟨d, rfl, body, rfl, hbody, hfirst⟩
    rw [List.append_assoc, List.singleton_append]
    exact afterTag?_of_first (unquoted_iff.mp hbody) fun a b hab ha =>
      hfirst a b hab (unquoted_iff.mpr ha)

end Quotes

/-! ### Pieces of a subset -/

/-- A declaration up to and with its end. A comment ends with its first closing mark, any other
declaration with its first `>` outside quotes. -/
inductive Complete : List Char → Prop where
  | comment {d body : List Char} (starts : "<!--".toList <+: d)
      (ends : FirstAt "-->".toList body [] d) : Complete d
  | markup {d : List Char} (opens : d.head? = some '<') (starts : ¬ "<!--".toList <+: d)
      (ends : EndsMarkup d) : Complete d

/-- The declarations in a subset, in order. Nothing that begins with `<` stands between them, and
one that does not end reaches to the end of the subset; it is trimmed. -/
inductive DeclaredIn : List Char → List (List Char) → Prop where
  | done {s : List Char} (hs : '<' ∉ s) : DeclaredIn s []
  | next {s d rest : List Char} {ds : List (List Char)} (hs : '<' ∉ s) (hd : Complete d)
      (h : DeclaredIn rest ds) : DeclaredIn (s ++ d ++ rest) (d :: ds)
  | last {s d : List Char} (hs : '<' ∉ s) (hd : d.head? = some '<')
      (hopen : ∀ p, p <+: d → ¬ Complete p) : DeclaredIn (s ++ d) [trim d]

/-- What follows the end of the declaration that a text begins with. -/
def behind? (rest : List Char) : Option (List Char) :=
  if startsWith "<!--".toList rest then (splitAt? "-->".toList rest).map Prod.snd
  else afterTag? none rest

section Pieces

variable {body d rest r s : List Char} {ds : List (List Char)}

theorem dropWhile_open (hs : '<' ∉ s) (hr : rest = [] ∨ rest.head? = some '<') :
    (s ++ rest).dropWhile (· ≠ '<') = rest := by
  refine dropWhile_run (fun c hc => decide_eq_true fun he => hs (he ▸ hc)) ?_
  intro c hc
  rcases hr with rfl | hr
  · cases hc
  · obtain rfl : '<' = c := Option.some.inj (hr.symm.trans hc)
    exact decide_eq_false (not_not_intro rfl)

theorem splitDeclarations_none (hs : '<' ∉ s) (fuel : Nat) :
    splitDeclarations (fuel + 1) s = [] := by
  have hdrop := dropWhile_open hs (Or.inl (Eq.refl []))
  rw [List.append_nil] at hdrop
  rw [splitDeclarations, hdrop]

theorem splitDeclarations_at (hs : '<' ∉ s) (hd : d.head? = some '<') (fuel : Nat) :
    splitDeclarations (fuel + 1) (s ++ d) =
      match behind? d with
      | some r => d.take (d.length - r.length) :: splitDeclarations fuel r
      | none => [trim d] := by
  rw [splitDeclarations, dropWhile_open hs (Or.inr hd)]
  cases d with
  | nil => cases hd
  | cons c cs => rfl

theorem startsWith_iff {p : List Char} : startsWith p s = true ↔ p <+: s :=
  startsWith_eq_true.trans (exists_congr fun _ => eq_comm)

theorem Complete.head? (h : Complete d) : d.head? = some '<' := by
  cases h with
  | comment starts _ =>
    obtain ⟨r, rfl⟩ := starts
    rfl
  | markup opens _ _ => exact opens

theorem Complete.length_pos (h : Complete d) : 0 < d.length := by
  cases d with
  | nil => cases h.head?
  | cons c d => exact Nat.succ_pos _

/-- The closing mark of a comment shares no character with the opening mark's first two. -/
theorem starts_of_firstAt (hstarts : "<!--".toList <+: rest)
    (h : FirstAt "-->".toList body r rest) : "<!--".toList <+: body ++ "-->".toList := by
  have hrest : body ++ "-->".toList <+: rest := ⟨r, h.place.symm⟩
  refine List.prefix_of_prefix_length_le hstarts hrest ?_
  obtain ⟨x, hx⟩ := hstarts
  have hplace := h.place
  rw [← hx] at hplace
  match body with
  | [] => simp at hplace
  | [c] => simp at hplace
  | c :: d :: body => simp

/-- The first place of a mark does not hang on what follows it. -/
theorem FirstAt.followed {mark r' : List Char} (h : FirstAt mark body r s) :
    FirstAt mark body r' (body ++ mark ++ r') := by
  have hplace := h.place
  rw [← splitAt?_eq_some_iff, hplace] at h
  exact splitAt?_eq_some_iff.mp (splitAt?_append h)

/-- Markup at the front of a text begins like a comment where the text does. -/
theorem starts_of_endsMarkup (h : EndsMarkup d) (hstarts : "<!--".toList <+: d ++ r) :
    "<!--".toList <+: d := by
  rcases List.prefix_or_prefix_of_prefix hstarts (List.prefix_append d r) with hlong | hshort
  · exact hlong
  · obtain ⟨body, rfl, -⟩ := h
    have hclose : '>' ∈ "<!--".toList := hshort.subset (by simp)
    exact absurd hclose (by decide)

theorem splitAt?_comment_iff (hstarts : "<!--".toList <+: rest) :
    (splitAt? "-->".toList rest).map Prod.snd = some r ↔ ∃ d, rest = d ++ r ∧ Complete d := by
  constructor
  · intro h
    obtain ⟨⟨body, r'⟩, hsplit, rfl⟩ := Option.map_eq_some_iff.mp h
    have hfirst := splitAt?_eq_some_iff.mp hsplit
    have hbegins := starts_of_firstAt hstarts hfirst
    have hends : FirstAt "-->".toList body [] (body ++ "-->".toList ++ []) := hfirst.followed
    rw [List.append_nil] at hends
    exact ⟨body ++ "-->".toList, hfirst.place, .comment hbegins hends⟩
  · rintro ⟨d, rfl, hcomplete⟩
    cases hcomplete with
    | @comment body starts ends =>
      have hd := ends.place
      rw [List.append_nil] at hd
      rw [hd, splitAt?_eq_some_iff.mpr ends.followed]
      rfl
    | markup _ starts ends => exact absurd (starts_of_endsMarkup ends hstarts) starts

theorem afterTag?_markup_iff (hd : rest.head? = some '<') (hstarts : ¬ "<!--".toList <+: rest) :
    afterTag? none rest = some r ↔ ∃ d, rest = d ++ r ∧ Complete d := by
  rw [afterTag?_eq_some_iff]
  constructor
  · rintro ⟨d, rfl, hends⟩
    have hopens : d.head? = some '<' := by
      obtain ⟨body, rfl, -⟩ := hends
      cases body with
      | nil => cases hd
      | cons c body => exact hd
    exact ⟨d, rfl, .markup hopens (fun h => hstarts (h.trans (List.prefix_append d r))) hends⟩
  · rintro ⟨d, rfl, hcomplete⟩
    cases hcomplete with
    | comment starts _ => exact absurd (starts.trans (List.prefix_append d r)) hstarts
    | markup _ _ ends => exact ⟨d, rfl, ends⟩

theorem behind?_eq_some_iff (hd : rest.head? = some '<') :
    behind? rest = some r ↔ ∃ d, rest = d ++ r ∧ Complete d := by
  unfold behind?
  split
  · next hstarts => exact splitAt?_comment_iff (startsWith_iff.mp hstarts)
  · next hstarts => exact afterTag?_markup_iff hd fun h => hstarts (startsWith_iff.mpr h)

theorem behind?_eq_none_iff (hd : rest.head? = some '<') :
    behind? rest = none ↔ ∀ p, p <+: rest → ¬ Complete p := by
  rw [Option.eq_none_iff_forall_ne_some]
  constructor
  · rintro h p ⟨r, rfl⟩ hp
    exact h r ((behind?_eq_some_iff hd).mpr ⟨p, rfl, hp⟩)
  · intro h r hr
    obtain ⟨p, rfl, hp⟩ := (behind?_eq_some_iff hd).mp hr
    exact h p (List.prefix_append p r) hp

theorem take_append_sub (d r : List Char) : (d ++ r).take ((d ++ r).length - r.length) = d := by
  rw [List.length_append, Nat.add_sub_cancel, List.take_left]

theorem declaredIn_splitDeclarations {fuel : Nat} (hfuel : s.length < fuel) :
    DeclaredIn s (splitDeclarations fuel s) := by
  induction fuel generalizing s with
  | zero => exact absurd hfuel (Nat.not_lt_zero _)
  | succ fuel ih =>
    by_cases hs : '<' ∈ s
    · -- The text splits at its first `<`.
      obtain ⟨a, b, rfl, ha⟩ := List.eq_append_cons_of_mem hs
      have hd : ('<' :: b).head? = some '<' := rfl
      rw [splitDeclarations_at ha hd]
      cases hb : behind? ('<' :: b) with
      | none => exact .last ha hd ((behind?_eq_none_iff hd).mp hb)
      | some r =>
        obtain ⟨d, hdr, hcomplete⟩ := (behind?_eq_some_iff hd).mp hb
        have hlen : r.length < fuel := by
          have hpos := hcomplete.length_pos
          have hsum := congrArg List.length hdr
          simp only [List.length_append, List.length_cons] at hsum hfuel
          omega
        rw [hdr]
        dsimp only
        rw [take_append_sub, ← List.append_assoc]
        exact .next ha hcomplete (ih hlen)
    · rw [splitDeclarations_none hs]
      exact .done hs

theorem splitDeclarations_of_declaredIn (h : DeclaredIn s ds) {fuel : Nat}
    (hfuel : s.length < fuel) : splitDeclarations fuel s = ds := by
  induction h generalizing fuel with
  | done hs =>
    obtain ⟨fuel, rfl⟩ := Nat.exists_eq_succ_of_ne_zero (Nat.ne_zero_of_lt hfuel)
    exact splitDeclarations_none hs fuel
  | @next s d rest ds hs hd _ ih =>
    obtain ⟨fuel, rfl⟩ := Nat.exists_eq_succ_of_ne_zero (Nat.ne_zero_of_lt hfuel)
    have hpos := hd.length_pos
    have hhead : (d ++ rest).head? = some '<' := by
      rw [List.head?_append_of_ne_nil _ (List.ne_nil_of_length_pos hpos)]
      exact hd.head?
    have hlen : rest.length < fuel := by
      simp only [List.length_append] at hfuel
      omega
    rw [List.append_assoc, splitDeclarations_at hs hhead,
      (behind?_eq_some_iff hhead).mpr ⟨d, rfl, hd⟩]
    dsimp only
    rw [take_append_sub, ih hlen]
  | last hs hd hopen =>
    obtain ⟨fuel, rfl⟩ := Nat.exists_eq_succ_of_ne_zero (Nat.ne_zero_of_lt hfuel)
    rw [splitDeclarations_at hs hd, (behind?_eq_none_iff hd).mpr hopen]

theorem head?_trim (hd : d.head? = some '<') : (trim d).head? = some '<' := by
  obtain ⟨a, b, hab, ha, hb⟩ := Text.trim_between d
  have hblank : isBlank '<' ≠ true := by decide
  rw [hab, List.append_assoc] at hd
  cases a with
  | nil =>
    cases ht : trim d with
    | nil =>
      rw [ht, List.nil_append, List.nil_append] at hd
      exact absurd (hb '<' (List.mem_of_mem_head? hd)) hblank
    | cons c t =>
      rw [ht] at hd
      exact hd
  | cons c a =>
    obtain rfl : c = '<' := Option.some.inj hd
    exact absurd (ha '<' List.mem_cons_self) hblank

theorem DeclaredIn.head? (h : DeclaredIn s ds) : ∀ d ∈ ds, d.head? = some '<' := by
  induction h with
  | done _ => simp
  | next _ hd _ ih => exact List.forall_mem_cons.mpr ⟨hd.head?, ih⟩
  | last _ hd _ => simpa using head?_trim hd

end Pieces

/-- Every internal subset is cut into its declarations, which are determined by it. The cutting
comes to an end: fuel beyond the length of the subset changes nothing. -/
theorem splitDeclarations_declaredIn (subset : List Char) :
    ∃ ds, (∀ spare, splitDeclarations (subset.length + 1 + spare) subset = ds) ∧
      DeclaredIn subset ds ∧ (∀ ds', DeclaredIn subset ds' → ds' = ds) ∧
      ∀ d ∈ ds, d.head? = some '<' := by
  have hsplit : DeclaredIn subset (splitDeclarations (subset.length + 1) subset) :=
    declaredIn_splitDeclarations (Nat.lt_succ_self _)
  refine ⟨_, fun spare => ?_, hsplit, fun ds h => ?_, hsplit.head?⟩
  · exact splitDeclarations_of_declaredIn hsplit (by omega)
  · exact (splitDeclarations_of_declaredIn h (Nat.lt_succ_self _)).symm

/-- Quotes of the other kind within quotes, a quote in a comment, and a piece without end. -/
example : splitDeclarations 50 "%a; <!ENTITY b '\">'><!-- ' --> <?c '> ".toList =
    ["<!ENTITY b '\">'>".toList, "<!-- ' -->".toList, "<?c '>".toList] := by
  decide

end Marginalia.Xml
