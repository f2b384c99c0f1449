import Marginalia.Proofs.Xml.Slices

/-! What stands before the root element, read back: declarations are read from where they are
written, whatever follows them. -/

namespace Marginalia.Xml

/-! ### Parts of a declaration -/

section Parts

variable {p : Char → Bool} {u v w x y cs r : List Char}

theorem spaces?_eq_some (h : spaces? cs = some r) :
    ∃ w, w ≠ [] ∧ (∀ c ∈ w, isSpace c = true) ∧ cs = w ++ r ∧ Stops isSpace r := by
  cases cs with
  | nil => cases h
  | cons c cs =>
    rw [spaces?] at h
    split at h
    · next hc =>
      obtain rfl := Option.some.inj h
      obtain ⟨w, hw, hspaces, hstops⟩ := skipSpaces_split cs
      refine ⟨c :: w, by simp, fun d hd => ?_, by rw [List.cons_append, ← hw], hstops⟩
      rcases List.mem_cons.mp hd with rfl | hd
      · exact hc
      · exact hspaces d hd
    · cases h

theorem spaces?_run (hw : w ≠ []) (hspaces : ∀ c ∈ w, isSpace c = true) (hr : Stops isSpace r) :
    spaces? (w ++ r) = some r := by
  obtain ⟨c, w, rfl⟩ := List.exists_cons_of_ne_nil hw
  have hrest : skipSpaces (w ++ r) = r :=
    dropWhile_run (fun d hd => hspaces d (List.mem_cons_of_mem c hd)) hr
  rw [List.cons_append, spaces?, if_pos (hspaces c List.mem_cons_self), hrest]

theorem skipSpaces_run (hspaces : ∀ c ∈ w, isSpace c = true) (hr : Stops isSpace r) :
    skipSpaces (w ++ r) = r :=
  dropWhile_run hspaces hr

theorem stops_isSpace_word {s : List Char} (h : IsWord s) (x : List Char) :
    Stops isSpace (s ++ x) := by
  obtain ⟨c, t, rfl, hc⟩ := h.begins
  rw [List.cons_append, stops_cons, ← Bool.not_eq_true]
  intro hs
  have hinner := isNameChar_of_isNameStart hc
  rw [isNameChar_of_isSpace hs] at hinner
  cases hinner

theorem stops_isNameChar_spaces {c : Char} (hw : ∀ d ∈ w, isSpace d = true)
    (hc : isNameChar c = false) (x : List Char) : Stops isNameChar (w ++ c :: x) := by
  intro d hd
  cases w with
  | nil =>
    obtain rfl := Option.some.inj hd
    exact hc
  | cons b w =>
    obtain rfl := Option.some.inj hd
    exact isNameChar_of_isSpace (hw b List.mem_cons_self)

theorem quoted?_run {q : Char} (hq : q = '"' ∨ q = '\'') (hv : q ∉ v) (r : List Char) :
    quoted? (q :: (v ++ [q]) ++ r) = some (v, r) := by
  have hquote : quote? (q :: (v ++ q :: r)) = some (q, v ++ q :: r) := by
    rcases hq with rfl | rfl <;> rfl
  have hrun : ∀ c ∈ v, decide (c ≠ q) = true := fun c hc => by
    simpa using fun he : c = q => hv (he ▸ hc)
  have hstop : Stops (fun c => decide (c ≠ q)) (q :: r) := by simp
  have hlist : q :: (v ++ [q]) ++ r = q :: (v ++ q :: r) := by simp
  rw [hlist, quoted?, hquote]
  simp only [Option.bind_eq_bind, Option.bind_some, dropWhile_run hrun hstop,
    takeWhile_run hrun hstop]
  rfl

theorem isSpace_quote {q : Char} (hq : q = '"' ∨ q = '\'') : isSpace q = false := by
  rcases hq with rfl | rfl <;> decide

/-- A literal with space before it: what follows it. -/
def literal? (cs : List Char) : Option (List Char) :=
  (spaces? cs).bind fun r => (quoted? r).bind fun x => some x.2

theorem literal?_eq_some (h : literal? cs = some r) :
    ∃ u, cs = u ++ r ∧ ∀ x, literal? (u ++ x) = some x := by
  obtain ⟨r₁, hr₁, h⟩ := Option.bind_eq_some_iff.mp h
  obtain ⟨⟨v, r₂⟩, hr₂, h⟩ := Option.bind_eq_some_iff.mp h
  obtain rfl := Option.some.inj h
  obtain ⟨w, hw, hspaces, rfl, -⟩ := spaces?_eq_some hr₁
  obtain ⟨q, hq, hv, rfl⟩ := quoted?_eq_some hr₂
  refine ⟨w ++ (q :: (v ++ [q])), by simp, fun x => ?_⟩
  have hread := spaces?_run (r := q :: (v ++ [q]) ++ x) hw hspaces (by simp [isSpace_quote hq])
  rw [List.append_assoc, literal?, hread, Option.bind_some, quoted?_run hq hv x, Option.bind_some]

theorem externalId?_eq (cs : List Char) :
    externalId? cs =
      match Text.dropLead? "SYSTEM".toList cs with
      | some r => literal? r
      | none => (Text.dropLead? "PUBLIC".toList cs).bind fun r => (literal? r).bind literal? := by
  unfold externalId?
  cases Text.dropLead? "SYSTEM".toList cs with
  | some r => rfl
  | none =>
    cases Text.dropLead? "PUBLIC".toList cs with
    | none => rfl
    | some r =>
      simp only [Option.bind_eq_bind, Option.bind_some, literal?]
      cases spaces? r with
      | none => rfl
      | some r₁ =>
        simp only [Option.bind_some]
        cases quoted? r₁ <;> rfl

/-- A name of an external entity is read from where it is written. -/
theorem externalId?_eq_some (h : externalId? cs = some r) :
    ∃ u, cs = u ++ r ∧ (∃ c t, u = c :: t ∧ (c = 'S' ∨ c = 'P')) ∧
      ∀ x, externalId? (u ++ x) = some x ∧ isExternalId (u ++ x) = true := by
  rw [externalId?_eq] at h
  split at h
  · next r₀ hlead =>
    obtain rfl := Text.dropLead?_eq_some.mp hlead
    obtain ⟨u, rfl, hlocal⟩ := literal?_eq_some h
    refine ⟨"SYSTEM".toList ++ u, (List.append_assoc _ _ _).symm, ⟨'S', _, rfl, Or.inl rfl⟩,
      fun x => ?_⟩
    have hmark := dropLead?_self "SYSTEM".toList (u ++ x)
    rw [List.append_assoc]
    constructor
    · rw [externalId?_eq, hmark]
      exact hlocal x
    · unfold isExternalId Text.startsWith
      rw [hmark]
      rfl
  · obtain ⟨r₀, hlead, h⟩ := Option.bind_eq_some_iff.mp h
    obtain ⟨r₁, hfirst, hsecond⟩ := Option.bind_eq_some_iff.mp h
    obtain rfl := Text.dropLead?_eq_some.mp hlead
    obtain ⟨u, rfl, hlocal⟩ := literal?_eq_some hfirst
    obtain ⟨v, rfl, hlocal'⟩ := literal?_eq_some hsecond
    refine ⟨"PUBLIC".toList ++ (u ++ v), by simp only [List.append_assoc],
      ⟨'P', _, rfl, Or.inr rfl⟩, fun x => ?_⟩
    have hmark := dropLead?_self "PUBLIC".toList (u ++ (v ++ x))
    have hother : Text.dropLead? "SYSTEM".toList ("PUBLIC".toList ++ (u ++ (v ++ x))) = none := rfl
    rw [List.append_assoc, List.append_assoc]
    constructor
    · rw [externalId?_eq, hother]
      dsimp only
      rw [hmark, Option.bind_some, hlocal, Option.bind_some, hlocal']
    · unfold isExternalId Text.startsWith
      rw [hmark]
      simp

end Parts

/-! ### Entity declarations -/

/-- The name and the text of an entity, wherever it stands. -/
def Entity.content (e : Entity) : List Char × List Char := (e.name, e.value)

section Entities

variable {stop : Nat} {g : Bool} {name u w cs r r₁ : List Char} {e : Option Entity}

/-- The notation of an entity that is not parsed, where it names one: what follows. -/
def unparsed? (cs : List Char) : Option (List Char) :=
  match Text.dropLead? "NDATA".toList (skipSpaces cs) with
  | some r => (spaces? r).bind fun r => (name? r).bind fun y => some y.2
  | none => some cs

/-- The notation is read from where it is written, before the end of the declaration. -/
theorem unparsed?_eq_some {w : List Char} (h : unparsed? cs = some (w ++ '>' :: r))
    (hspaces : ∀ c ∈ w, isSpace c = true) :
    ∃ u, cs = u ++ (w ++ '>' :: r) ∧ ∀ x, unparsed? (u ++ (w ++ '>' :: x)) = some (w ++ '>' :: x) := by
  unfold unparsed? at h
  split at h
  · next r₁ hmark =>
    obtain ⟨r₂, hr₂, h⟩ := Option.bind_eq_some_iff.mp h
    obtain ⟨⟨n, r₃⟩, hn, h⟩ := Option.bind_eq_some_iff.mp h
    obtain rfl : r₃ = w ++ '>' :: r := Option.some.inj h
    obtain ⟨w₁, hw₁, hspaces₁, -⟩ := skipSpaces_split cs
    obtain ⟨w₂, hne₂, hspaces₂, rfl, -⟩ := spaces?_eq_some hr₂
    obtain ⟨rfl, hword, -⟩ := isWord_of_name? hn
    rw [Text.dropLead?_eq_some.mp hmark] at hw₁
    refine ⟨w₁ ++ ("NDATA".toList ++ (w₂ ++ n)), by rw [hw₁]; simp only [List.append_assoc],
      fun x => ?_⟩
    have hlist : w₁ ++ ("NDATA".toList ++ (w₂ ++ n)) ++ (w ++ '>' :: x) =
        w₁ ++ ("NDATA".toList ++ (w₂ ++ (n ++ (w ++ '>' :: x)))) := by
      simp only [List.append_assoc]
    have hskip : skipSpaces (w₁ ++ ("NDATA".toList ++ (w₂ ++ (n ++ (w ++ '>' :: x))))) =
        "NDATA".toList ++ (w₂ ++ (n ++ (w ++ '>' :: x))) :=
      skipSpaces_run hspaces₁ (by simp; decide)
    have hlead := dropLead?_self "NDATA".toList (w₂ ++ (n ++ (w ++ '>' :: x)))
    have hsign : isNameChar '>' = false := by decide
    have hname := name?_word hword (stops_isNameChar_spaces hspaces hsign x)
    have hspace := spaces?_run hne₂ hspaces₂ (stops_isSpace_word hword (w ++ '>' :: x))
    rw [hlist, unparsed?, hskip, hlead]
    dsimp only
    rw [hspace, Option.bind_some, hname, Option.bind_some]
  · obtain rfl := Option.some.inj h
    refine ⟨[], rfl, fun x => ?_⟩
    have hclose : skipSpaces (w ++ '>' :: x) = '>' :: x :=
      skipSpaces_run hspaces (by simp; decide)
    rw [List.nil_append, unparsed?, hclose]
    rfl

theorem externalValue?_eq {c : Char} {t : List Char} (hc : c = 'S' ∨ c = 'P')
    (hlocal : ∀ x, externalId? (c :: t ++ x) = some x ∧ isExternalId (c :: t ++ x) = true)
    (stop : Nat) (x : List Char) :
    entityValue? stop g name (c :: t ++ x) =
      if g then (unparsed? x).map (none, ·) else some (none, x) := by
  have hquote : ¬ (c = '"' ∨ c = '\'') := by
    rcases hc with rfl | rfl <;> decide
  obtain ⟨hread, his⟩ := hlocal x
  rw [List.cons_append] at hread his ⊢
  rw [entityValue?]
  dsimp only
  rw [if_neg hquote, if_pos his, hread]
  cases g with
  | false => rfl
  | true =>
    simp only [Option.bind_eq_bind, Option.bind_some, if_true, unparsed?]
    cases Text.dropLead? "NDATA".toList (skipSpaces x) with
    | none => rfl
    | some r =>
      dsimp only
      cases spaces? r with
      | none => rfl
      | some r₁ =>
        simp only [Option.bind_some]
        cases name? r₁ <;> rfl

/-- An entity's definition is written as `u`, with space before the end of its declaration. -/
structure DefinedIn (g : Bool) (name : List Char) (e : Option Entity) (u w : List Char) : Prop where
  nonempty : u ≠ []
  spaces : ∀ c ∈ w, isSpace c = true
  shorter : ∀ x ∈ e, x.value.length < u.length
  read : ∀ stop x, ∃ e', entityValue? stop g name (u ++ (w ++ '>' :: x)) = some (e', w ++ '>' :: x) ∧
    e'.map Entity.content = e.map Entity.content

theorem definedIn_quoted {q : Char} {v : List Char} {place : Nat} (hq : q = '"' ∨ q = '\'')
    (hv : q ∉ v) (hspaces : ∀ c ∈ w, isSpace c = true) :
    DefinedIn g name (some ⟨name, v, place⟩) (q :: (v ++ [q])) w := by
  refine ⟨by simp, hspaces, fun x hx => ?_, fun stop x =>
    ⟨some ⟨name, v, stop - ((w ++ '>' :: x).length + 1)⟩, ?_, rfl⟩⟩
  · obtain rfl := Option.mem_some_iff.mp hx
    simp only [List.length_cons, List.length_append]
    omega
  · have hread := quoted?_run hq hv (w ++ '>' :: x)
    rw [List.cons_append] at hread ⊢
    rw [entityValue?]
    dsimp only
    rw [if_pos hq, hread]
    rfl

theorem definedIn_external {cs₁ : List Char} (hexternal : externalId? cs = some cs₁)
    (h : entityValue? stop g name cs = some (e, w ++ '>' :: r))
    (hspaces : ∀ c ∈ w, isSpace c = true) :
    ∃ u, cs = u ++ (w ++ '>' :: r) ∧ DefinedIn g name e u w := by
  obtain ⟨u, rfl, ⟨d, t, rfl, hd⟩, hlocal⟩ := externalId?_eq_some hexternal
  have hread := @externalValue?_eq g name d t hd fun x => hlocal x
  rw [hread] at h
  cases g with
  | false =>
    obtain ⟨rfl, rfl⟩ := Prod.mk.inj (Option.some.inj h)
    exact ⟨d :: t, rfl, by simp, hspaces, by simp, fun stop' x => ⟨none, hread stop' _, rfl⟩⟩
  | true =>
    obtain ⟨r₃, hunparsed, he⟩ := Option.map_eq_some_iff.mp h
    obtain ⟨rfl, rfl⟩ := Prod.mk.inj he
    obtain ⟨v, rfl, hsame⟩ := unparsed?_eq_some hunparsed hspaces
    refine ⟨d :: t ++ v, (List.append_assoc _ _ _).symm, by simp, hspaces, by simp,
      fun stop' x => ⟨none, ?_, rfl⟩⟩
    rw [List.append_assoc, hread, hsame]
    rfl

/-- An entity's definition is read from where it is written. -/
theorem entityValue?_eq_some (h : entityValue? stop g name cs = some (e, r))
    (hend : skipSpaces r = '>' :: r₁) :
    ∃ u w, cs = u ++ (w ++ '>' :: r₁) ∧ DefinedIn g name e u w := by
  obtain ⟨w, hr, hspaces, -⟩ := skipSpaces_split r
  rw [hend] at hr
  subst hr
  cases cs with
  | nil => cases h
  | cons c cs =>
    have h' := h
    rw [entityValue?] at h'
    dsimp only at h'
    split at h'
    · obtain ⟨⟨v, r'⟩, hquoted, he⟩ := Option.map_eq_some_iff.mp h'
      obtain ⟨rfl, rfl⟩ := Prod.mk.inj he
      obtain ⟨q, hq, hv, hcs⟩ := quoted?_eq_some hquoted
      exact ⟨_, w, hcs, definedIn_quoted hq hv hspaces⟩
    · split at h'
      · obtain ⟨r₂, hexternal, -⟩ := Option.bind_eq_some_iff.mp h'
        obtain ⟨u, hu, hdefined⟩ := definedIn_external hexternal h hspaces
        exact ⟨u, w, hu, hdefined⟩
      · cases h'

/-- Whether a declaration defines a general entity, and what follows the sign for another. -/
def entityKind? (cs : List Char) : Option (Bool × List Char) :=
  match cs with
  | '%' :: r => (spaces? r).map (false, ·)
  | _ => some (true, cs)

theorem entityKind?_general (h : ∀ r, cs = '%' :: r → False) : entityKind? cs = some (true, cs) := by
  unfold entityKind?
  split
  · next r => exact (h r rfl).elim
  · rfl

theorem entityDeclaration?_eq (stop : Nat) (cs : List Char) :
    entityDeclaration? stop cs =
      (spaces? cs).bind fun cs₁ => (entityKind? cs₁).bind fun k => (name? k.2).bind fun n =>
        (spaces? n.2).bind fun cs₄ => (entityValue? stop k.1 n.1 cs₄).bind fun v =>
          match skipSpaces v.2 with
          | '>' :: r => some (v.1, r)
          | _ => none := by
  unfold entityDeclaration?
  cases spaces? cs with
  | none => rfl
  | some cs₁ =>
    simp only [Option.bind_eq_bind, Option.bind_some]
    split
    · rfl
    · next hpercent =>
      rw [entityKind?_general hpercent]
      rfl

/-- What stands before the name of an entity is read from where it is written: space, with or
without the sign of an entity that is not general. -/
theorem entityKind?_eq_some {cs₁ cs₂ : List Char} (hspaces : spaces? cs = some cs₁)
    (hkind : entityKind? cs₁ = some (g, cs₂)) (hword : IsWord name) :
    ∃ v, cs = v ++ cs₂ ∧
      ∀ x, (spaces? (v ++ (name ++ x))).bind entityKind? = some (g, name ++ x) := by
  obtain ⟨w₁, hne₁, hspaces₁, rfl, -⟩ := spaces?_eq_some hspaces
  unfold entityKind? at hkind ⊢
  split at hkind
  · next r₂ =>
    obtain ⟨r₃, hr₃, he⟩ := Option.map_eq_some_iff.mp hkind
    obtain ⟨rfl, rfl⟩ := Prod.mk.inj he
    obtain ⟨w₂, hne₂, hspaces₂, rfl, -⟩ := spaces?_eq_some hr₃
    refine ⟨w₁ ++ '%' :: w₂, by simp, fun x => ?_⟩
    have hlist : w₁ ++ '%' :: w₂ ++ (name ++ x) = w₁ ++ '%' :: (w₂ ++ (name ++ x)) := by simp
    rw [hlist, spaces?_run hne₁ hspaces₁ (by simp; decide), Option.bind_some]
    exact congrArg (Option.map (false, ·)) (spaces?_run hne₂ hspaces₂ (stops_isSpace_word hword x))
  · next hpercent =>
    obtain ⟨rfl, rfl⟩ := Prod.mk.inj (Option.some.inj hkind)
    refine ⟨w₁, rfl, fun x => ?_⟩
    rw [spaces?_run hne₁ hspaces₁ (stops_isSpace_word hword x), Option.bind_some]
    obtain ⟨c, t, rfl, hc⟩ := hword.begins
    have hne : c ≠ '%' := by
      rintro rfl
      exact absurd hc (by decide)
    rw [List.cons_append]
    split
    · next he => exact absurd (List.cons.inj he).1 hne
    · rfl

/-- An entity declaration is read from where it is written. -/
theorem entityDeclaration?_eq_some (h : entityDeclaration? stop cs = some (e, r)) :
    ∃ u, cs = u ++ r ∧ (∀ x ∈ e, x.value.length < u.length) ∧
      ∀ stop' x, ∃ e', entityDeclaration? stop' (u ++ x) = some (e', x) ∧
        e'.map Entity.content = e.map Entity.content := by
  rw [entityDeclaration?_eq] at h
  obtain ⟨cs₁, hcs₁, h⟩ := Option.bind_eq_some_iff.mp h
  obtain ⟨⟨g, cs₂⟩, hcs₂, h⟩ := Option.bind_eq_some_iff.mp h
  obtain ⟨⟨name, cs₃⟩, hname, h⟩ := Option.bind_eq_some_iff.mp h
  obtain ⟨cs₄, hcs₄, h⟩ := Option.bind_eq_some_iff.mp h
  obtain ⟨⟨e', cs₅⟩, hvalue, h⟩ := Option.bind_eq_some_iff.mp h
  dsimp only at h hname hcs₄ hvalue
  split at h
  · next r' hend =>
    obtain ⟨rfl, rfl⟩ := Prod.mk.inj (Option.some.inj h)
    obtain ⟨hcs₂', hword, hstops⟩ := isWord_of_name? hname
    obtain ⟨w₄, hne₄, hspaces₄, hcs₃, hstops₄⟩ := spaces?_eq_some hcs₄
    obtain ⟨u, w, hcs₄', hu, hspaces, hlen, hlocal⟩ := entityValue?_eq_some hvalue hend
    obtain ⟨v, hv, hread⟩ := entityKind?_eq_some hcs₁ hcs₂ hword
    refine ⟨v ++ (name ++ (w₄ ++ (u ++ (w ++ ['>'])))), ?_, fun x hx => ?_, fun stop' x => ?_⟩
    · rw [hv, hcs₂', hcs₃, hcs₄']
      simp
    · have hxu := hlen x hx
      simp only [List.length_append]
      omega
    · obtain ⟨e'', hvalue', he''⟩ := hlocal stop' x
      refine ⟨e'', ?_, he''⟩
      have hlist : v ++ (name ++ (w₄ ++ (u ++ (w ++ ['>'])))) ++ x =
          v ++ (name ++ (w₄ ++ (u ++ (w ++ '>' :: x)))) := by simp
      have hname' := name?_word hword (@stops_append _ _ _ (u ++ (w ++ '>' :: x))
        (Stops.of_append (hcs₃ ▸ hstops)) hne₄)
      have hspace := spaces?_run hne₄ hspaces₄ (@stops_append _ _ _ (w ++ '>' :: x)
        (Stops.of_append (hcs₄' ▸ hstops₄)) hu)
      have hclose : skipSpaces (w ++ '>' :: x) = '>' :: x :=
        skipSpaces_run hspaces (by simp; decide)
      obtain ⟨cs₁', hcs₁', hg⟩ := Option.bind_eq_some_iff.mp
        (hread (w₄ ++ (u ++ (w ++ '>' :: x))))
      rw [hlist, entityDeclaration?_eq, hcs₁']
      simp only [Option.bind_some, hg, hname', hspace, hvalue', hclose]
  · cases h

end Entities

/-! ### The internal subset -/

/-- One declaration of an internal subset, comments and instructions among them. -/
def markup? (stop : Nat) (cs : List Char) : Option (Subset × List Char) :=
  match Text.dropLead? "<!ENTITY".toList cs with
  | some r => (entityDeclaration? stop r).map fun (e, r) => (⟨e.toList, []⟩, r)
  | none =>
    match Text.dropLead? "<!--".toList cs with
    | some r => (comment? r).map fun (n, r) => (⟨[], [n]⟩, r)
    | none =>
      if Text.startsWith "<?".toList cs then (instruction? cs).map fun (n, r) => (⟨[], [n]⟩, r)
      else if isPassedDeclaration cs then
        match cs.dropWhile (· ≠ '>') with
        | _ :: r => some (⟨[], []⟩, r)
        | [] => none
      else none

/-- What follows the end of a document type declaration with a subset. -/
def subsetEnd? (cs : List Char) : Option (List Char) :=
  match cs with
  | ']' :: r =>
    match skipSpaces r with
    | '>' :: r => some r
    | _ => none
  | _ => none

section Subset

variable {stop fuel : Nat} {cs r : List Char} {s : Subset}

theorem subsetEnd?_closed (h : skipSpaces cs = '>' :: r) : subsetEnd? (']' :: cs) = some r := by
  simp only [subsetEnd?, h]

theorem subsetEnd?_open (h : ∀ r, skipSpaces cs = '>' :: r → False) :
    subsetEnd? (']' :: cs) = none := by
  simp only [subsetEnd?]

theorem subsetEnd?_of_lead {mark : List Char} (h : Text.dropLead? ('<' :: mark) cs = some r) :
    subsetEnd? cs = none := by
  rw [Text.dropLead?_eq_some.mp h]
  rfl

theorem subsetEnd?_of_ne (h : ∀ r, cs = ']' :: r → False) : subsetEnd? cs = none := by
  unfold subsetEnd?
  split
  · next r => exact absurd rfl (h r)
  · rfl

theorem subset?_succ (stop fuel : Nat) (hne : cs ≠ []) :
    subset? stop (fuel + 1) cs =
      match markup? stop (skipSpaces cs) with
      | some (p, r) => (subset? stop fuel r).map fun (s, r) =>
          (⟨p.entities ++ s.entities, p.nodes ++ s.nodes⟩, r)
      | none => (subsetEnd? (skipSpaces cs)).map fun r => (⟨[], []⟩, r) := by
  rw [subset?, if_neg hne]
  dsimp only
  unfold markup?
  generalize skipSpaces cs = x
  cases hentity : Text.dropLead? "<!ENTITY".toList x with
  | some r₀ =>
    have hnone := subsetEnd?_of_lead hentity
    dsimp only
    cases entityDeclaration? stop r₀ with
    | none => simp [hnone]
    | some er => rfl
  | none =>
    cases hcomment : Text.dropLead? "<!--".toList x with
    | some r₀ =>
      have hnone := subsetEnd?_of_lead hcomment
      dsimp only
      cases comment? r₀ with
      | none => simp [hnone]
      | some nr => rfl
    | none =>
      cases hstart : Text.startsWith "<?".toList x with
      | true =>
        obtain ⟨r₀, hlead⟩ := Option.isSome_iff_exists.mp hstart
        have hnone := subsetEnd?_of_lead hlead
        cases instruction? x with
        | none => simp [hnone]
        | some nr => rfl
      | false =>
        simp only [Bool.false_eq_true, if_false]
        split
        · next r₀ =>
          have hpassed : isPassedDeclaration (']' :: r₀) = false := rfl
          rw [hpassed]
          simp only [Bool.false_eq_true, if_false]
          split
          · next r₁ hr₁ => rw [subsetEnd?_closed hr₁, Option.map_some]
          · next hclose => rw [subsetEnd?_open hclose, Option.map_none]
        · next hbracket =>
          rw [subsetEnd?_of_ne hbracket]
          split
          · cases x.dropWhile (· ≠ '>') with
            | nil => rfl
            | cons c r₀ =>
              cases hs : subset? stop fuel r₀ with
              | none => simp [hs]
              | some sr => simp [hs]
          · rfl

/-- A comment or an instruction that can stand anywhere. -/
def IsMisc (n : Node) : Prop := n.isText = false ∧ n.isElement = false ∧ ∀ outer, n.Sound outer

theorem isMisc_comment {s : List Char} (hs : IsCommentText s) : IsMisc (.comment s) := by
  refine ⟨rfl, rfl, fun outer => ?_⟩
  rw [Node.Sound]
  exact hs

theorem isMisc_instruction {t : List Char} {v : Option (List Char)} (h : IsInstruction t v) :
    IsMisc (.instruction t v) := by
  refine ⟨rfl, rfl, fun outer => ?_⟩
  rw [Node.Sound]
  exact h

theorem sameEntities_nil : SameEntities [] [] := rfl

theorem SameEntities.append {es es' ds ds' : List Entity} (h : SameEntities es es')
    (h' : SameEntities ds ds') : SameEntities (es ++ ds) (es' ++ ds') := by
  unfold SameEntities at *
  rw [List.map_append, List.map_append, h, h']

theorem sameEntities_toList {e e' : Option Entity}
    (h : e'.map Entity.content = e.map Entity.content) : SameEntities e.toList e'.toList := by
  have hlist := congrArg Option.toList h
  rw [Option.toList_map, Option.toList_map] at hlist
  exact hlist.symm

/-- The marks of the declarations that are passed over. -/
def passedMarks : List (List Char) :=
  ["<!ELEMENT".toList, "<!ATTLIST".toList, "<!NOTATION".toList]

theorem isPassedDeclaration_iff :
    isPassedDeclaration cs = true ↔ ∃ mark ∈ passedMarks, ∃ y, cs = mark ++ y := by
  simp [isPassedDeclaration, startsWith_eq_true, passedMarks, or_assoc]

theorem ne_close_of_mem_mark {mark : List Char} (hmark : mark ∈ passedMarks) :
    ∀ c ∈ mark, decide (c ≠ '>') = true := by
  have hall : ∀ m ∈ passedMarks, m.all (fun c => decide (c ≠ '>')) = true := by decide
  exact List.all_eq_true.mp (hall mark hmark)

theorem markup?_entity (stop : Nat) (r : List Char) :
    markup? stop ("<!ENTITY".toList ++ r) =
      (entityDeclaration? stop r).map fun (e, r) => (⟨e.toList, []⟩, r) := by
  unfold markup?
  rw [dropLead?_self]

theorem markup?_comment (stop : Nat) (r : List Char) :
    markup? stop ("<!--".toList ++ r) = (comment? r).map fun (n, r) => (⟨[], [n]⟩, r) := by
  have hentity : Text.dropLead? "<!ENTITY".toList ("<!--".toList ++ r) = none := rfl
  unfold markup?
  rw [hentity, dropLead?_self]

theorem markup?_instruction (stop : Nat) (r : List Char) :
    markup? stop ("<?".toList ++ r) =
      (instruction? ("<?".toList ++ r)).map fun (n, r) => (⟨[], [n]⟩, r) := by
  have hentity : Text.dropLead? "<!ENTITY".toList ("<?".toList ++ r) = none := rfl
  have hcomment : Text.dropLead? "<!--".toList ("<?".toList ++ r) = none := rfl
  have hmark : Text.startsWith "<?".toList ("<?".toList ++ r) = true :=
    startsWith_eq_true.mpr ⟨r, rfl⟩
  unfold markup?
  rw [hentity, hcomment]
  exact if_pos hmark

theorem markup?_passed {mark z : List Char} (hmark : mark ∈ passedMarks) (hz : '>' ∉ z)
    (stop : Nat) (r : List Char) :
    markup? stop (mark ++ (z ++ '>' :: r)) = some (⟨[], []⟩, r) := by
  have hpassed : isPassedDeclaration (mark ++ (z ++ '>' :: r)) = true :=
    isPassedDeclaration_iff.mpr ⟨mark, hmark, _, rfl⟩
  have hrun : ∀ c ∈ z, decide (c ≠ '>') = true := fun c hc => by
    simpa using fun he : c = '>' => hz (he ▸ hc)
  have hdrop : (mark ++ (z ++ '>' :: r)).dropWhile (fun c => decide (c ≠ '>')) = '>' :: r := by
    rw [List.dropWhile_append_of_pos (ne_close_of_mem_mark hmark)]
    exact dropWhile_run hrun (by simp)
  -- no other kind of declaration begins with one of these marks
  have hothers : Text.dropLead? "<!ENTITY".toList (mark ++ (z ++ '>' :: r)) = none ∧
      Text.dropLead? "<!--".toList (mark ++ (z ++ '>' :: r)) = none ∧
      Text.startsWith "<?".toList (mark ++ (z ++ '>' :: r)) = false := by
    simp only [passedMarks, List.mem_cons, List.not_mem_nil, or_false] at hmark
    rcases hmark with rfl | rfl | rfl <;> exact ⟨rfl, rfl, rfl⟩
  obtain ⟨hentity, hcomment, hquery⟩ := hothers
  unfold markup?
  rw [hentity, hcomment, hquery, hpassed]
  simp only [Bool.false_eq_true, if_false, if_true, hdrop]

/-- A declaration by its kind: of an entity, a comment, an instruction, or one that is passed over
up to its end. -/
inductive Markup (stop : Nat) (r : List Char) : Subset → List Char → Prop
  | entity {e : Option Entity} {r₀ : List Char} (h : entityDeclaration? stop r₀ = some (e, r)) :
    Markup stop r ⟨e.toList, []⟩ ("<!ENTITY".toList ++ r₀)
  | comment {n : Node} {r₀ : List Char} (h : comment? r₀ = some (n, r)) :
    Markup stop r ⟨[], [n]⟩ ("<!--".toList ++ r₀)
  | instruction {n : Node} {r₀ : List Char} (h : instruction? ("<?".toList ++ r₀) = some (n, r)) :
    Markup stop r ⟨[], [n]⟩ ("<?".toList ++ r₀)
  | passed {mark z : List Char} (hmark : mark ∈ passedMarks) (hz : '>' ∉ z) :
    Markup stop r ⟨[], []⟩ (mark ++ (z ++ '>' :: r))

theorem markup_of_dropWhile {mark y : List Char} {c : Char} (hmark : mark ∈ passedMarks)
    (hdrop : (mark ++ y).dropWhile (fun d => decide (d ≠ '>')) = c :: r) :
    Markup stop r ⟨[], []⟩ (mark ++ y) := by
  have hstop := stops_dropWhile (fun d => decide (d ≠ '>')) (mark ++ y)
  rw [hdrop] at hstop
  obtain rfl : c = '>' := by simpa using hstop
  rw [List.dropWhile_append_of_pos (ne_close_of_mem_mark hmark)] at hdrop
  have hsplit := List.takeWhile_append_dropWhile (p := fun d => decide (d ≠ '>')) (l := y)
  rw [hdrop] at hsplit
  rw [← hsplit]
  refine .passed hmark fun hm => ?_
  simpa using of_mem_takeWhile _ hm

theorem markup_of_markup? {p : Subset} (h : markup? stop cs = some (p, r)) :
    Markup stop r p cs := by
  unfold markup? at h
  split at h
  · next r₀ hlead =>
    obtain ⟨⟨e, r'⟩, hdeclared, he⟩ := Option.map_eq_some_iff.mp h
    obtain ⟨rfl, rfl⟩ := Prod.mk.inj he
    obtain rfl := Text.dropLead?_eq_some.mp hlead
    exact .entity hdeclared
  · split at h
    · next r₀ hlead =>
      obtain ⟨⟨n, r'⟩, hcomment, he⟩ := Option.map_eq_some_iff.mp h
      obtain ⟨rfl, rfl⟩ := Prod.mk.inj he
      obtain rfl := Text.dropLead?_eq_some.mp hlead
      exact .comment hcomment
    · split at h
      · next hstart =>
        obtain ⟨⟨n, r'⟩, hinstruction, he⟩ := Option.map_eq_some_iff.mp h
        obtain ⟨rfl, rfl⟩ := Prod.mk.inj he
        obtain ⟨r₀, rfl⟩ := startsWith_eq_true.mp hstart
        exact .instruction hinstruction
      · split at h
        · next hpassed =>
          obtain ⟨mark, hmark, y, rfl⟩ := isPassedDeclaration_iff.mp hpassed
          split at h
          · next c r' hdrop =>
            obtain ⟨rfl, rfl⟩ := Prod.mk.inj (Option.some.inj h)
            exact markup_of_dropWhile hmark hdrop
          · cases h
        · cases h

/-- A text from which a declaration is read whatever follows it. -/
structure Subset.WrittenAs (p : Subset) (u : List Char) : Prop where
  begins : ∃ t, u = '<' :: t
  shorter : ∀ e ∈ p.entities, e.value.length < u.length
  nodes : ∀ n ∈ p.nodes, IsMisc n
  read : ∀ stop x, ∃ p', markup? stop (u ++ x) = some (p', x) ∧
    SameEntities p.entities p'.entities

theorem writtenAs_entity {e : Option Entity} (h : entityDeclaration? stop cs = some (e, r)) :
    ∃ u, "<!ENTITY".toList ++ cs = u ++ r ∧ Subset.WrittenAs ⟨e.toList, []⟩ u := by
  obtain ⟨u, rfl, hlen, hlocal⟩ := entityDeclaration?_eq_some h
  refine ⟨"<!ENTITY".toList ++ u, (List.append_assoc _ _ _).symm, ⟨_, rfl⟩, fun x hx => ?_,
    fun n hn => (nomatch hn), fun stop' x => ?_⟩
  · have hxu := hlen x (Option.mem_toList.mp hx)
    rw [List.length_append]
    omega
  · obtain ⟨e', hread, he'⟩ := hlocal stop' x
    refine ⟨⟨e'.toList, []⟩, ?_, sameEntities_toList he'⟩
    rw [List.append_assoc, markup?_entity, hread]
    rfl

theorem writtenAs_comment {n : Node} (h : comment? cs = some (n, r)) :
    ∃ u, "<!--".toList ++ cs = u ++ r ∧ Subset.WrittenAs ⟨[], [n]⟩ u := by
  obtain ⟨s, rfl, rfl, hs⟩ := comment?_eq_some h
  refine ⟨"<!--".toList ++ (s ++ "-->".toList), (List.append_assoc _ _ _).symm, ⟨_, rfl⟩,
    fun x hx => (nomatch hx), fun n hn => ?_, fun stop' x => ⟨⟨[], [.comment s]⟩, ?_, rfl⟩⟩
  · obtain rfl := List.mem_singleton.mp hn
    exact isMisc_comment hs
  · rw [List.append_assoc, markup?_comment, hs x]
    rfl

theorem writtenAs_instruction {n : Node} (h : instruction? cs = some (n, r)) :
    ∃ u, cs = u ++ r ∧ Subset.WrittenAs ⟨[], [n]⟩ u := by
  obtain ⟨t, v, rfl, hi, u, hu, -, hlocal⟩ := instruction?_eq_some h
  have hopen (x : List Char) : ∃ y, u ++ x = "<?".toList ++ y :=
    (instruction?_begins (hlocal x)).1
  refine ⟨u, hu, ?_, fun x hx => (nomatch hx), fun n hn => ?_,
    fun stop' x => ⟨⟨[], [.instruction t v]⟩, ?_, rfl⟩⟩
  · obtain ⟨y, hy⟩ := hopen []
    rw [List.append_nil] at hy
    exact ⟨'?' :: y, hy⟩
  · obtain rfl := List.mem_singleton.mp hn
    exact isMisc_instruction hi
  · obtain ⟨y, hy⟩ := hopen x
    have hread := hlocal x
    rw [hy] at hread ⊢
    rw [markup?_instruction, hread]
    rfl

theorem writtenAs_passed {mark z : List Char} (hmark : mark ∈ passedMarks) (hz : '>' ∉ z) :
    Subset.WrittenAs ⟨[], []⟩ (mark ++ (z ++ ['>'])) := by
  refine ⟨?_, fun x hx => (nomatch hx), fun n hn => (nomatch hn),
    fun stop x => ⟨⟨[], []⟩, ?_, rfl⟩⟩
  · simp only [passedMarks, List.mem_cons, List.not_mem_nil, or_false] at hmark
    rcases hmark with rfl | rfl | rfl <;> exact ⟨_, rfl⟩
  · have hlist : mark ++ (z ++ ['>']) ++ x = mark ++ (z ++ '>' :: x) := by simp
    rw [hlist, markup?_passed hmark hz]

/-- A declaration is read from where it is written. -/
theorem markup?_eq_some {p : Subset} (h : markup? stop cs = some (p, r)) :
    ∃ u, cs = u ++ r ∧ p.WrittenAs u := by
  cases markup_of_markup? h with
  | entity hdeclared => exact writtenAs_entity hdeclared
  | comment hcomment => exact writtenAs_comment hcomment
  | instruction hinstruction => exact writtenAs_instruction hinstruction
  | @passed mark z hmark hz =>
    exact ⟨mark ++ (z ++ ['>']), by simp, writtenAs_passed hmark hz⟩

/-- What was read of a text of which some is left. -/
def consumed (cs rest : List Char) : List Char := cs.take (cs.length - rest.length)

theorem consumed_append (u r : List Char) : consumed (u ++ r) r = u := by
  have hlen : (u ++ r).length - r.length = u.length := by
    rw [List.length_append]
    omega
  rw [consumed, hlen, List.take_left]

/-- The declarations of an internal subset as they are read. -/
def subsetParts (stop : Nat) : Nat → List Char → List (List Char)
  | 0, _ => []
  | fuel + 1, cs =>
    match markup? stop (skipSpaces cs) with
    | some (_, r) => consumed (skipSpaces cs) r :: subsetParts stop fuel r
    | none => []

/-- Declarations on a line each. -/
def declarationLines (parts : List (List Char)) : List Char :=
  parts.flatMap fun d => indentation 1 ++ d ++ ['\n']

theorem length_parts (parts : List (List Char)) :
    parts.length ≤ (declarationLines parts).length := by
  induction parts with
  | nil => simp
  | cons d parts ih =>
    have hcons : declarationLines (d :: parts) =
        indentation 1 ++ d ++ ['\n'] ++ declarationLines parts := rfl
    rw [hcons]
    simp only [List.length_append, List.length_cons]
    omega

theorem isSpace_line : ∀ c ∈ ['\n'], isSpace c = true := List.all_eq_true.mp (by decide)

theorem isSpace_blank : ∀ c ∈ [' '], isSpace c = true := List.all_eq_true.mp (by decide)

theorem isSpace_indentation (level : Nat) : ∀ c ∈ indentation level, isSpace c = true := by
  intro c hc
  obtain rfl := List.eq_of_mem_replicate hc
  decide

theorem subsetEnd?_eq_some (h : subsetEnd? cs = some r) : ∃ u, cs = ']' :: u ++ r := by
  unfold subsetEnd? at h
  split at h
  · next t =>
    obtain ⟨w, hw, -, -⟩ := skipSpaces_split t
    split at h
    · next r' hr' =>
      obtain rfl := Option.some.inj h
      rw [hr'] at hw
      exact ⟨w ++ ['>'], by rw [hw]; simp⟩
    · cases h
  · cases h

/-- What a subset is read from: its entities are shorter than that text, its nodes can stand
anywhere, and what is left ends the text. -/
structure Subset.ReadOf (s : Subset) (cs r : List Char) : Prop where
  shorter : ∀ e ∈ s.entities, e.value.length < cs.length
  nodes : ∀ n ∈ s.nodes, IsMisc n
  rest : r <:+ cs

namespace Subset

theorem ReadOf.empty (h : r <:+ cs) : ReadOf ⟨[], []⟩ cs r :=
  ⟨fun _ he => (nomatch he), fun _ hn => (nomatch hn), h⟩

theorem ReadOf.within {ds : List Char} (h : s.ReadOf cs r) (hcs : cs <:+ ds) : s.ReadOf ds r :=
  ⟨fun e he => Nat.lt_of_lt_of_le (h.shorter e he) hcs.length_le, h.nodes, h.rest.trans hcs⟩

theorem WrittenAs.followed {p : Subset} {u : List Char} (hp : p.WrittenAs u)
    (hs : s.ReadOf cs r) :
    ReadOf ⟨p.entities ++ s.entities, p.nodes ++ s.nodes⟩ (u ++ cs) r := by
  refine ⟨fun e he => ?_, fun n hn => ?_, hs.rest.trans (List.suffix_append u cs)⟩
  · rw [List.length_append]
    rcases List.mem_append.mp he with he | he
    · exact Nat.lt_add_right cs.length (hp.shorter e he)
    · exact Nat.lt_add_left u.length (hs.shorter e he)
  · rcases List.mem_append.mp hn with hn | hn
    · exact hp.nodes n hn
    · exact hs.nodes n hn

end Subset

/-- How a subset is read with some fuel: declaration by declaration, until it is closed or the text
ends. -/
inductive SubsetRead (stop : Nat) : Nat → List Char → Subset → List Char → Prop
  | ended (fuel : Nat) : SubsetRead stop fuel [] ⟨[], []⟩ []
  | closed {fuel : Nat} {cs r : List Char} : markup? stop (skipSpaces cs) = none →
      subsetEnd? (skipSpaces cs) = some r → SubsetRead stop (fuel + 1) cs ⟨[], []⟩ r
  | part {fuel : Nat} {cs r₁ r : List Char} {p s : Subset} :
      markup? stop (skipSpaces cs) = some (p, r₁) → SubsetRead stop fuel r₁ s r →
      SubsetRead stop (fuel + 1) cs ⟨p.entities ++ s.entities, p.nodes ++ s.nodes⟩ r

theorem subsetRead_of_subset? (h : subset? stop fuel cs = some (s, r)) :
    SubsetRead stop fuel cs s r := by
  induction fuel generalizing cs s r with
  | zero =>
    rw [subset?] at h
    split at h
    · next hnil =>
      subst hnil
      obtain ⟨rfl, rfl⟩ := Prod.mk.inj (Option.some.inj h)
      exact .ended 0
    · cases h
  | succ fuel ih =>
    by_cases hne : cs = []
    · subst hne
      rw [subset?, if_pos rfl] at h
      obtain ⟨rfl, rfl⟩ := Prod.mk.inj (Option.some.inj h)
      exact .ended (fuel + 1)
    · rw [subset?_succ stop fuel hne] at h
      split at h
      · next p r₁ hmarkup =>
        obtain ⟨⟨s₁, r₂⟩, hrest, he⟩ := Option.map_eq_some_iff.mp h
        obtain ⟨rfl, rfl⟩ := Prod.mk.inj he
        exact .part hmarkup (ih hrest)
      · next hnone =>
        obtain ⟨r', hend, he⟩ := Option.map_eq_some_iff.mp h
        obtain ⟨rfl, rfl⟩ := Prod.mk.inj he
        exact .closed hnone hend

theorem SubsetRead.readOf (h : SubsetRead stop fuel cs s r) : s.ReadOf cs r := by
  induction h with
  | ended => exact .empty List.nil_suffix
  | @closed fuel cs r hnone hend =>
    have hskip : skipSpaces cs <:+ cs := List.dropWhile_suffix _
    obtain ⟨u, hu⟩ := subsetEnd?_eq_some hend
    refine Subset.ReadOf.within ?_ hskip
    rw [hu]
    exact .empty (List.suffix_append (']' :: u) r)
  | @part fuel cs r₁ r p s hmarkup _ ih =>
    have hskip : skipSpaces cs <:+ cs := List.dropWhile_suffix _
    obtain ⟨u, hu, hwritten⟩ := markup?_eq_some hmarkup
    refine Subset.ReadOf.within ?_ hskip
    rw [hu]
    exact hwritten.followed ih

/-- A subset is closed behind spaces. -/
theorem subset?_close (stop fuel : Nat) {w : List Char} (hw : ∀ c ∈ w, isSpace c = true)
    (x : List Char) : subset? stop (fuel + 1) (w ++ (']' :: '>' :: x)) = some (⟨[], []⟩, x) := by
  have hclose : markup? stop (']' :: '>' :: x) = none := rfl
  have hend : subsetEnd? (']' :: '>' :: x) = some x := rfl
  rw [subset?_succ stop fuel (by simp), skipSpaces_run hw (by simp; decide), hclose, hend]
  rfl

/-- A declaration on a line of its own is read in front of what follows it. -/
theorem subset?_line {w u x y : List Char} {p s : Subset} (hu : p.WrittenAs u)
    (hw : ∀ c ∈ w, isSpace c = true) (h : subset? stop fuel ('\n' :: x) = some (s, y)) :
    ∃ p' : Subset, subset? stop (fuel + 1) (w ++ (indentation 1 ++ u ++ ['\n'] ++ x)) =
        some (⟨p'.entities ++ s.entities, p'.nodes ++ s.nodes⟩, y) ∧
      SameEntities p.entities p'.entities := by
  obtain ⟨p', hmarkup, hp'⟩ := hu.read stop ('\n' :: x)
  obtain ⟨t, rfl⟩ := hu.begins
  have htext : w ++ (indentation 1 ++ '<' :: t ++ ['\n'] ++ x) =
      (w ++ indentation 1) ++ ('<' :: t ++ '\n' :: x) := by
    simp
  have hspaces : ∀ c ∈ w ++ indentation 1, isSpace c = true :=
    List.forall_mem_append.mpr ⟨hw, isSpace_indentation 1⟩
  refine ⟨p', ?_, hp'⟩
  rw [htext, subset?_succ stop fuel (by simp), skipSpaces_run hspaces (by simp; decide), hmarkup]
  dsimp only
  rw [h]
  rfl

/-- A subset is read from where its declarations are written on a line each. -/
theorem SubsetRead.lines (h : SubsetRead stop fuel cs s r) (hr : r ≠ []) :
    ∀ (stop' fuel' : Nat) (w x : List Char), (∀ c ∈ w, isSpace c = true) →
      (subsetParts stop fuel cs).length < fuel' →
      ∃ s', subset? stop' fuel'
          (w ++ (declarationLines (subsetParts stop fuel cs) ++ (']' :: '>' :: x))) = some (s', x) ∧
        SameEntities s.entities s'.entities := by
  induction h with
  | ended => exact absurd rfl hr
  | closed hnone _ =>
    intro stop' fuel' w x hw hfuel
    obtain ⟨fuel', rfl⟩ : ∃ k, fuel' = k + 1 := ⟨fuel' - 1, by omega⟩
    refine ⟨⟨[], []⟩, ?_, sameEntities_nil⟩
    rw [subsetParts, hnone]
    exact subset?_close stop' fuel' hw x
  | @part fuel cs r₁ r p s hmarkup _ ih =>
    intro stop' fuel' w x hw hfuel
    obtain ⟨fuel', rfl⟩ : ∃ k, fuel' = k + 1 := ⟨fuel' - 1, by omega⟩
    obtain ⟨u, hu, hwritten⟩ := markup?_eq_some hmarkup
    have hparts : subsetParts stop (fuel + 1) cs = u :: subsetParts stop fuel r₁ := by
      rw [subsetParts, hmarkup]
      dsimp only
      rw [hu, consumed_append]
    rw [hparts, List.length_cons] at hfuel
    obtain ⟨s', hread, hs'⟩ := ih hr stop' fuel' ['\n'] x isSpace_line (by omega)
    obtain ⟨p', hline, hp'⟩ := subset?_line hwritten hw hread
    refine ⟨⟨p'.entities ++ s'.entities, p'.nodes ++ s'.nodes⟩, ?_, hp'.append hs'⟩
    rw [hparts, ← hline]
    simp [declarationLines]

end Subset

/-! ### The document type declaration -/

/-- The declaration's name and its external name as they are read, and what follows them. -/
def doctypeHeader? (cs : List Char) : Option (List Char × List Char) :=
  (Text.dropLead? "<!DOCTYPE".toList cs).bind fun r => (spaces? r).bind fun r =>
    (name? r).bind fun n =>
      (if isExternalId (skipSpaces n.2) then externalId? (skipSpaces n.2) else some n.2).bind
        fun r => some (consumed cs r, skipSpaces r)

/-- The lines of a document type declaration as it is read. -/
def doctypeRead (stop : Nat) (cs : List Char) : List Char :=
  match doctypeHeader? cs with
  | some (_, '>' :: r) => consumed cs r ++ ['\n']
  | some (header, '[' :: r) =>
    header ++ " [\n".toList ++ declarationLines (subsetParts stop (r.length + 1) r) ++ "]>\n".toList
  | _ => []

section Doctype

variable {stop : Nat} {cs r header : List Char} {s : Subset}

theorem doctypeRead_bare (h : doctypeHeader? cs = some (header, '>' :: r)) :
    doctypeRead stop cs = consumed cs r ++ ['\n'] := by
  unfold doctypeRead
  rw [h]
  rfl

theorem doctypeRead_subset (h : doctypeHeader? cs = some (header, '[' :: r)) :
    doctypeRead stop cs = header ++ " [\n".toList ++
      declarationLines (subsetParts stop (r.length + 1) r) ++ "]>\n".toList := by
  unfold doctypeRead
  rw [h]
  rfl

theorem doctypeRead_none (h : Text.startsWith "<!DOCTYPE".toList cs = false) :
    doctypeRead stop cs = [] := by
  have hnone : Text.dropLead? "<!DOCTYPE".toList cs = none :=
    Option.isNone_iff_eq_none.mp (Option.isSome_eq_false_iff.mp h)
  unfold doctypeRead doctypeHeader?
  rw [hnone]
  rfl

theorem skipSpaces_skipSpaces (cs : List Char) : skipSpaces (skipSpaces cs) = skipSpaces cs := by
  obtain ⟨w, -, -, hstops⟩ := skipSpaces_split cs
  exact dropWhile_eq_self hstops

theorem doctype?_eq (stop : Nat) (cs : List Char) :
    doctype? stop cs =
      if Text.startsWith "<!DOCTYPE".toList cs then
        (doctypeHeader? cs).bind fun h =>
          match h.2 with
          | '>' :: r => some (⟨[], []⟩, r)
          | '[' :: r => subset? stop (r.length + 1) r
          | _ => none
      else some (⟨[], []⟩, cs) := by
  unfold doctype? doctypeHeader? Text.startsWith
  cases Text.dropLead? "<!DOCTYPE".toList cs with
  | none => rfl
  | some r =>
    simp only [Option.isSome_some, if_true, Option.bind_some, Option.bind_eq_bind]
    cases spaces? r with
    | none => rfl
    | some r₁ =>
      simp only [Option.bind_some]
      cases name? r₁ with
      | none => rfl
      | some n =>
        simp only [Option.bind_some]
        split
        · cases externalId? (skipSpaces n.2) with
          | none => rfl
          | some r₂ => rfl
        · simp only [Option.bind_some, skipSpaces_skipSpaces]
          rfl

theorem doctype?_none (h : Text.startsWith "<!DOCTYPE".toList cs = false) :
    doctype? stop cs = some (⟨[], []⟩, cs) := by
  rw [doctype?_eq, if_neg (Bool.eq_false_iff.mp h)]

/-- An external name, if there is one: what follows. -/
def externalPart? (cs : List Char) : Option (List Char) :=
  if isExternalId (skipSpaces cs) then externalId? (skipSpaces cs) else some cs

/-- An external name, or none, is read from where it is written, with any space behind it. What is
in front of it ends there as well. -/
theorem externalPart?_eq_some (h : externalPart? cs = some r) (hstops : Stops isNameChar cs) :
    ∃ u, cs = u ++ r ∧ ∀ {w c x}, (∀ d ∈ w, isSpace d = true) → (c = '>' ∨ c = '[') →
      Stops isNameChar (u ++ (w ++ c :: x)) ∧
        externalPart? (u ++ (w ++ c :: x)) = some (w ++ c :: x) := by
  unfold externalPart? at h
  split at h
  · obtain ⟨w₂, hw₂, hspaces₂, -⟩ := skipSpaces_split cs
    obtain ⟨u, hu, ⟨d, t, rfl, hd⟩, hlocal⟩ := externalId?_eq_some h
    have hletter : isSpace d = false := by
      rcases hd with rfl | rfl <;> decide
    rw [hu] at hw₂
    refine ⟨w₂ ++ d :: t, by rw [List.append_assoc, ← hw₂], fun {w c x} hw hc => ⟨?_, ?_⟩⟩
    · rw [hw₂, ← List.append_assoc] at hstops
      exact stops_append hstops.of_append (by simp)
    · have hskip : skipSpaces (w₂ ++ (d :: t ++ (w ++ c :: x))) = d :: t ++ (w ++ c :: x) :=
        skipSpaces_run hspaces₂ (by simp [hletter])
      rw [List.append_assoc, externalPart?, hskip, if_pos (hlocal _).2, (hlocal _).1]
  · obtain rfl := Option.some.inj h
    refine ⟨[], rfl, fun {w c x} hw hc => ?_⟩
    have hsign : isSpace c = false ∧ isNameChar c = false ∧ isExternalId (c :: x) = false := by
      rcases hc with rfl | rfl
      · exact ⟨by decide, by decide, rfl⟩
      · exact ⟨by decide, by decide, rfl⟩
    have hskip : skipSpaces (w ++ c :: x) = c :: x := skipSpaces_run hw (by simp [hsign.1])
    refine ⟨stops_isNameChar_spaces hw hsign.2.1 x, ?_⟩
    rw [List.nil_append, externalPart?, hskip, hsign.2.2]
    rfl

theorem doctypeHeader?_eq (cs : List Char) :
    doctypeHeader? cs =
      (Text.dropLead? "<!DOCTYPE".toList cs).bind fun r => (spaces? r).bind fun r =>
        (name? r).bind fun n => (externalPart? n.2).bind fun r =>
          some (consumed cs r, skipSpaces r) :=
  rfl

/-- The head of a declaration is read from where it is written, with any space behind it. -/
theorem doctypeHeader?_eq_some (h : doctypeHeader? cs = some (header, r)) :
    (∃ w, cs = header ++ (w ++ r) ∧ ∀ c ∈ w, isSpace c = true) ∧
      Text.startsWith "<!DOCTYPE".toList header = true ∧
      ∀ {w' c x}, (∀ d ∈ w', isSpace d = true) → (c = '>' ∨ c = '[') →
        doctypeHeader? (header ++ (w' ++ c :: x)) = some (header, c :: x) := by
  rw [doctypeHeader?_eq] at h
  obtain ⟨r₁, hlead, h⟩ := Option.bind_eq_some_iff.mp h
  obtain ⟨r₂, hspaces, h⟩ := Option.bind_eq_some_iff.mp h
  obtain ⟨⟨n, r₃⟩, hname, h⟩ := Option.bind_eq_some_iff.mp h
  obtain ⟨r₄, hexternal, h⟩ := Option.bind_eq_some_iff.mp h
  obtain ⟨rfl, rfl⟩ := Prod.mk.inj (Option.some.inj h)
  dsimp only at hexternal
  obtain ⟨w₁, hne₁, hspaces₁, hr₁, -⟩ := spaces?_eq_some hspaces
  obtain ⟨hr₂, hword, hstops⟩ := isWord_of_name? hname
  obtain ⟨u, hr₃, hlocal⟩ := externalPart?_eq_some hexternal hstops
  have hall : cs = ("<!DOCTYPE".toList ++ (w₁ ++ (n ++ u))) ++ r₄ := by
    rw [Text.dropLead?_eq_some.mp hlead, hr₁, hr₂, hr₃]
    simp
  have hheader : consumed cs r₄ = "<!DOCTYPE".toList ++ (w₁ ++ (n ++ u)) := by
    rw [hall, consumed_append]
  obtain ⟨w, hw, hspaces, -⟩ := skipSpaces_split r₄
  rw [hheader]
  refine ⟨⟨w, by rw [← hw, hall], hspaces⟩, startsWith_eq_true.mpr ⟨_, rfl⟩,
    fun {w' c x} hw' hc => ?_⟩
  obtain ⟨hstops', hread⟩ := @hlocal w' c x hw' hc
  have htext : "<!DOCTYPE".toList ++ (w₁ ++ (n ++ u)) ++ (w' ++ c :: x) =
      "<!DOCTYPE".toList ++ (w₁ ++ (n ++ (u ++ (w' ++ c :: x)))) := by simp
  have hsign : isSpace c = false := by rcases hc with rfl | rfl <;> decide
  have hskip : skipSpaces (w' ++ c :: x) = c :: x := skipSpaces_run hw' (by simp [hsign])
  have hused := consumed_append ("<!DOCTYPE".toList ++ (w₁ ++ (n ++ u))) (w' ++ c :: x)
  rw [htext] at hused ⊢
  rw [doctypeHeader?_eq, dropLead?_self]
  simp only [Option.bind_some, spaces?_run hne₁ hspaces₁ (stops_isSpace_word hword _),
    name?_word hword hstops', hread, hused, hskip]

theorem readOf_doctype? (h : doctype? stop cs = some (s, r)) : s.ReadOf cs r := by
  rw [doctype?_eq] at h
  split at h
  · obtain ⟨⟨header, r₁⟩, hheader, h⟩ := Option.bind_eq_some_iff.mp h
    obtain ⟨⟨w, hcs, -⟩, -, -⟩ := doctypeHeader?_eq_some hheader
    have hbehind : r₁ <:+ cs := ⟨header ++ w, by rw [hcs, List.append_assoc]⟩
    dsimp only at h
    split at h
    · next r₂ =>
      obtain ⟨rfl, rfl⟩ := Prod.mk.inj (Option.some.inj h)
      exact .empty ((List.suffix_cons '>' r₂).trans hbehind)
    · next r₂ =>
      exact (subsetRead_of_subset? h).readOf.within ((List.suffix_cons '[' r₂).trans hbehind)
    · cases h
  · obtain ⟨rfl, rfl⟩ := Prod.mk.inj (Option.some.inj h)
    exact .empty (List.suffix_refl _)

/-- A declaration is read from its lines. -/
theorem doctype?_lines (h : doctype? stop cs = some (s, r)) (hr : r ≠ [])
    (hstart : Text.startsWith "<!DOCTYPE".toList cs = true) :
    (∃ t, doctypeRead stop cs = "<!DOCTYPE".toList ++ t) ∧
      ∀ stop' x, ∃ s', doctype? stop' (doctypeRead stop cs ++ x) = some (s', '\n' :: x) ∧
        SameEntities s.entities s'.entities := by
  rw [doctype?_eq, if_pos hstart] at h
  obtain ⟨⟨header, r₁⟩, hheader, h⟩ := Option.bind_eq_some_iff.mp h
  obtain ⟨⟨w, hcs, hw⟩, hmark, hlocal⟩ := doctypeHeader?_eq_some hheader
  obtain ⟨t, ht⟩ := startsWith_eq_true.mp hmark
  have hbegins (x : List Char) : Text.startsWith "<!DOCTYPE".toList (header ++ x) = true :=
    startsWith_eq_true.mpr ⟨t ++ x, by rw [ht, List.append_assoc]⟩
  dsimp only at h
  split at h
  · next r₂ =>
    obtain ⟨rfl, rfl⟩ := Prod.mk.inj (Option.some.inj h)
    have hused : consumed cs r₂ = header ++ (w ++ ['>']) := by
      have hall : cs = (header ++ (w ++ ['>'])) ++ r₂ := by
        rw [hcs]
        simp
      rw [hall, consumed_append]
    rw [doctypeRead_bare hheader, hused]
    refine ⟨⟨t ++ (w ++ ['>']) ++ ['\n'], by rw [ht]; simp⟩, fun stop' x => ?_⟩
    refine ⟨⟨[], []⟩, ?_, sameEntities_nil⟩
    have htext : header ++ (w ++ ['>']) ++ ['\n'] ++ x = header ++ (w ++ '>' :: '\n' :: x) := by
      simp
    rw [htext, doctype?_eq, if_pos (hbegins _), hlocal hw (Or.inl rfl)]
    rfl
  · next r₂ =>
    rw [doctypeRead_subset hheader]
    refine ⟨⟨t ++ " [\n".toList ++ declarationLines (subsetParts stop (r₂.length + 1) r₂) ++
      "]>\n".toList, by rw [ht]; simp only [List.append_assoc]⟩, fun stop' x => ?_⟩
    have htext : header ++ " [\n".toList ++
        declarationLines (subsetParts stop (r₂.length + 1) r₂) ++ "]>\n".toList ++ x =
          header ++ ([' '] ++ '[' :: (['\n'] ++
            (declarationLines (subsetParts stop (r₂.length + 1) r₂) ++
              (']' :: '>' :: '\n' :: x)))) := by
      simp
    have hparts := length_parts (subsetParts stop (r₂.length + 1) r₂)
    obtain ⟨s', hread, hs'⟩ := (subsetRead_of_subset? h).lines hr stop' ((['\n'] ++
      (declarationLines (subsetParts stop (r₂.length + 1) r₂) ++
        (']' :: '>' :: '\n' :: x))).length + 1) ['\n'] ('\n' :: x) isSpace_line
      (by simp only [List.length_append]; omega)
    refine ⟨s', ?_, hs'⟩
    rw [htext, doctype?_eq, if_pos (hbegins _), hlocal isSpace_blank (Or.inr rfl),
      Option.bind_some]
    exact hread
  · cases h

end Doctype

end Marginalia.Xml
