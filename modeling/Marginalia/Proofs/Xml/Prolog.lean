import Marginalia.Proofs.Xml.Heading

/-! The XML declaration and the comments and instructions outside of the root element, read back
from where they are printed. -/

namespace Marginalia.Xml

/-! ### The XML declaration -/

/-- A part of a declaration whose reading depends on nothing behind the declaration's end. -/
def Steady (f : List Char → Option (List Char)) : Prop :=
  ∀ ⦃cs r⦄, f cs = some r → ∃ u, cs = u ++ r ∧ ∀ a x y, r = a ++ ("?>".toList ++ x) →
    f (u ++ (a ++ ("?>".toList ++ y))) = some (a ++ ("?>".toList ++ y))

section Declaration

variable {f g : List Char → Option (List Char)} {p : Char → Bool} {a x y cs r mark : List Char}

theorem stops_tail (h : Stops p (a ++ ("?>".toList ++ x))) : Stops p (a ++ ("?>".toList ++ y)) := by
  rw [← List.append_assoc] at h ⊢
  exact stops_append h.of_append (by simp)

theorem startsWith_tail (hmark : '?' ∉ mark) (a x y : List Char) :
    Text.startsWith mark (a ++ ("?>".toList ++ x)) =
      Text.startsWith mark (a ++ ("?>".toList ++ y)) := by
  have hmem : '?' ∈ a ++ "?>".toList := by simp
  rw [← List.append_assoc, ← List.append_assoc, startsWith_append_of_mem hmark hmem,
    startsWith_append_of_mem hmark hmem]

theorem startsWith_end (a x y : List Char) :
    Text.startsWith "?>".toList (a ++ ("?>".toList ++ x)) =
      Text.startsWith "?>".toList (a ++ ("?>".toList ++ y)) := by
  cases a with
  | nil => rfl
  | cons c a =>
    cases a with
    | nil => simp [Text.startsWith, Text.dropLead?]
    | cons d a =>
      simp only [Text.startsWith, Text.dropLead?, String.reduceToList, List.cons_append]
      split
      · split <;> rfl
      · rfl

theorem Steady.bind (hf : Steady f) (hg : Steady g) : Steady fun cs => (f cs).bind g := by
  intro cs r h
  obtain ⟨r₁, hr₁, h⟩ := Option.bind_eq_some_iff.mp h
  obtain ⟨u, hu, hfu⟩ := hf hr₁
  obtain ⟨v, hv, hgv⟩ := hg h
  refine ⟨u ++ v, by rw [hu, hv, List.append_assoc], fun a x y hr => ?_⟩
  have hmid := hfu (v ++ a) x y (by rw [hv, hr, List.append_assoc])
  rw [List.append_assoc] at hmid ⊢
  dsimp only
  rw [hmid, Option.bind_some]
  exact hgv a x y hr

theorem spaces?_eq_none_iff : spaces? cs = none ↔ Stops isSpace cs := by
  cases cs with
  | nil => simp [spaces?]
  | cons c cs =>
    rw [stops_cons, spaces?]
    cases isSpace c <;> simp

theorem steady_spaces : Steady declarationSpaces? := by
  intro cs r h
  unfold declarationSpaces? at h
  split at h
  · next r' hr' =>
    obtain rfl := Option.some.inj h
    obtain ⟨w, hne, hspaces, hcs, hstops⟩ := spaces?_eq_some hr'
    refine ⟨w, hcs, fun a x y hr => ?_⟩
    rw [hr] at hstops
    unfold declarationSpaces?
    rw [spaces?_run hne hspaces (stops_tail hstops)]
  · next hnone =>
    split at h
    · next hend =>
      obtain rfl := Option.some.inj h
      refine ⟨[], rfl, fun a x y hr => ?_⟩
      rw [spaces?_eq_none_iff, hr] at hnone
      have hmark : Text.startsWith "?>".toList (a ++ ("?>".toList ++ y)) = true := by
        rw [startsWith_end a y x, ← hr]
        rcases hend with he | hstart
        · rw [he] at hr
          simp at hr
        · exact hstart
      unfold declarationSpaces?
      rw [List.nil_append, spaces?_eq_none_iff.mpr (stops_tail hnone)]
      dsimp only
      rw [if_pos (Or.inr hmark)]
    · cases h

theorem qname?_run {word : List Char} {q : QName} (hq : qname? (word ++ r) = some (q, r))
    (hword : ∀ c ∈ word, isNameChar c = true) (hr : Stops isNameChar r)
    (hx : Stops isNameChar x) : qname? (word ++ x) = some (q, x) := by
  unfold qname? at hq ⊢
  rw [takeWhile_run hword hr, dropWhile_run hword hr] at hq
  rw [takeWhile_run hword hx, dropWhile_run hword hx]
  dsimp only at hq ⊢
  split at hq
  · split at hq
    · next hgood =>
      obtain ⟨rfl, -⟩ := Prod.mk.inj (Option.some.inj hq)
      rw [if_pos hgood]
    · cases hq
  · cases hq

/-- An attribute is read from where it is written. -/
theorem attribute?_eq_some {q : QName} {raw : List Char} (h : attribute? cs = some (q, raw, r)) :
    ∃ u, cs = u ++ r ∧ ∀ x, attribute? (u ++ x) = some (q, raw, x) := by
  unfold attribute? at h
  obtain ⟨⟨q', cs₁⟩, hq, h⟩ := Option.bind_eq_some_iff.mp h
  obtain ⟨cs₂, hequals, h⟩ := Option.bind_eq_some_iff.mp h
  obtain ⟨⟨v, cs₃⟩, hvalue, h⟩ := Option.bind_eq_some_iff.mp h
  obtain ⟨rfl, he⟩ := Prod.mk.inj (Option.some.inj h)
  obtain ⟨rfl, rfl⟩ := Prod.mk.inj he
  obtain ⟨-, word, hcs, hword, -, hstops⟩ := legal_of_qname? hq
  unfold equals? at hequals
  obtain ⟨w₁, hw₁, hspaces₁, -⟩ := skipSpaces_split cs₁
  split at hequals
  · next cs₄ hcs₄ =>
    obtain rfl := Option.some.inj hequals
    obtain ⟨w₂, hw₂, hspaces₂, -⟩ := skipSpaces_split cs₄
    unfold value? at hvalue
    obtain ⟨⟨v', cs₅⟩, hquoted, hvalue⟩ := Option.bind_eq_some_iff.mp hvalue
    dsimp only at hvalue
    split at hvalue
    · next hgood =>
      obtain ⟨rfl, rfl⟩ := Prod.mk.inj (Option.some.inj hvalue)
      obtain ⟨d, hd, hnot, hcs₅⟩ := quoted?_eq_some hquoted
      rw [hcs₅] at hw₂
      rw [hcs₄, hw₂] at hw₁
      refine ⟨word ++ (w₁ ++ '=' :: (w₂ ++ d :: (v' ++ [d]))), by rw [hcs, hw₁]; simp, fun x => ?_⟩
      have hlist : word ++ (w₁ ++ '=' :: (w₂ ++ d :: (v' ++ [d]))) ++ x =
          word ++ (w₁ ++ '=' :: (w₂ ++ (d :: (v' ++ [d]) ++ x))) := by simp
      have hstops' : Stops isNameChar (w₁ ++ '=' :: (w₂ ++ (d :: (v' ++ [d]) ++ x))) :=
        stops_isNameChar_spaces hspaces₁ (by decide) _
      have hequal : skipSpaces (w₁ ++ '=' :: (w₂ ++ (d :: (v' ++ [d]) ++ x))) =
          '=' :: (w₂ ++ (d :: (v' ++ [d]) ++ x)) :=
        skipSpaces_run hspaces₁ (by simp; decide)
      have hvalue : skipSpaces (w₂ ++ (d :: (v' ++ [d]) ++ x)) = d :: (v' ++ [d]) ++ x :=
        skipSpaces_run hspaces₂ (by simp [isSpace_quote hd])
      rw [hcs] at hq
      rw [hlist]
      unfold attribute?
      rw [qname?_run hq hword hstops hstops']
      simp only [Option.bind_eq_bind, Option.bind_some, equals?, hequal, hvalue, value?,
        quoted?_run hd hnot x, if_pos hgood]
      rfl
    · cases hvalue
  · cases hequals

/-- What is read only where a mark begins it is as steady as its reading. -/
theorem Steady.guarded (hmark : '?' ∉ mark) (hf : Steady f) :
    Steady fun cs => if Text.startsWith mark cs then f cs else some cs := by
  intro cs r h
  dsimp only at h
  split at h
  · next hstart =>
    obtain ⟨u, hu, hlocal⟩ := hf h
    refine ⟨u, hu, fun a x y hr => ?_⟩
    have hstays : Text.startsWith mark (u ++ (a ++ ("?>".toList ++ y))) = true := by
      rw [← List.append_assoc, startsWith_tail hmark (u ++ a) y x, List.append_assoc, ← hr, ← hu]
      exact hstart
    dsimp only
    rw [if_pos hstays]
    exact hlocal a x y hr
  · next hstart =>
    obtain rfl := Option.some.inj h
    refine ⟨[], rfl, fun a x y hr => ?_⟩
    have hstays : ¬ Text.startsWith mark (a ++ ("?>".toList ++ y)) = true := by
      rw [startsWith_tail hmark a y x, ← hr]
      exact hstart
    dsimp only
    rw [List.nil_append, if_neg hstays]

theorem steady_attribute : Steady fun cs => (attribute? cs).map fun (_, _, r) => r := by
  intro cs r h
  obtain ⟨⟨q, raw, r'⟩, hattribute, rfl⟩ := Option.map_eq_some_iff.mp h
  obtain ⟨u, hu, hlocal⟩ := attribute?_eq_some hattribute
  refine ⟨u, hu, fun a x y _ => ?_⟩
  dsimp only
  rw [hlocal]
  rfl

theorem steady_pseudo {name : List Char} (hname : '?' ∉ name) : Steady (pseudo? name) :=
  steady_attribute.guarded hname

/-- The encoding of a declaration, where it names one. -/
def encoding? (cs : List Char) : Option (List Char) :=
  if Text.startsWith "encoding".toList cs then
    (pseudo? "encoding".toList cs).bind declarationSpaces?
  else some cs

/-- What a declaration says. -/
def declared? (cs : List Char) : Option (List Char) :=
  (((pseudo? "version".toList cs).bind declarationSpaces?).bind encoding?).bind
    (pseudo? "standalone".toList)

theorem steady_encoding : Steady encoding? :=
  have hname : '?' ∉ "encoding".toList := by decide
  ((steady_pseudo hname).bind steady_spaces).guarded hname

theorem steady_declared : Steady declared? := by
  have hversion : Steady (pseudo? "version".toList) := steady_pseudo (by decide)
  have hstandalone : Steady (pseudo? "standalone".toList) := steady_pseudo (by decide)
  exact Steady.bind (Steady.bind (Steady.bind hversion steady_spaces) steady_encoding) hstandalone

theorem skipDeclaration?_eq (cs : List Char) :
    skipDeclaration? ("<?xml ".toList ++ cs) =
      (declarationSpaces? (' ' :: cs)).bind fun r =>
        if Text.startsWith "version".toList r then
          (declared? r).bind fun r => Text.dropLead? "?>".toList (skipSpaces r)
        else none := by
  unfold skipDeclaration? declared? encoding?
  rw [dropLead?_self]
  dsimp only
  cases declarationSpaces? (' ' :: cs) with
  | none => rfl
  | some r₁ =>
    simp only [Option.bind_eq_bind, Option.bind_some]
    cases Text.startsWith "version".toList r₁ with
    | false => rfl
    | true =>
      simp only [Bool.not_true, Bool.false_eq_true, if_false, if_true]
      cases pseudo? "version".toList r₁ with
      | none => rfl
      | some r₂ =>
        simp only [Option.bind_some]
        cases declarationSpaces? r₂ with
        | none => rfl
        | some r₃ =>
          simp only [Option.bind_some]
          cases Text.startsWith "encoding".toList r₃ with
          | false => rfl
          | true =>
            simp only [if_true]
            cases (pseudo? "encoding".toList r₃).bind declarationSpaces? <;> rfl

/-- A declaration is read from where it is written. -/
theorem skipDeclaration?_eq_some (h : skipDeclaration? cs = some r)
    (hstart : Text.startsWith "<?xml ".toList cs = true) :
    ∃ u, cs = "<?xml ".toList ++ u ++ r ∧
      ∀ x, skipDeclaration? ("<?xml ".toList ++ u ++ x) = some x := by
  obtain ⟨r₀, rfl⟩ := startsWith_eq_true.mp hstart
  rw [skipDeclaration?_eq] at h
  obtain ⟨r₁, hr₁, hread⟩ := Option.bind_eq_some_iff.mp h
  have hsplit : ∃ w, (∀ c ∈ w, isSpace c = true) ∧ r₀ = w ++ r₁ ∧ Stops isSpace r₁ := by
    obtain ⟨w, hw, hspaces, hstops⟩ := skipSpaces_split r₀
    have hread : declarationSpaces? (' ' :: r₀) = some (skipSpaces r₀) := rfl
    rw [hread] at hr₁
    obtain rfl := Option.some.inj hr₁
    exact ⟨w, hspaces, hw, hstops⟩
  obtain ⟨w, hspaces, hr₀, hstops⟩ := hsplit
  split at hread
  · next hversion =>
    obtain ⟨r₂, hr₂, hend⟩ := Option.bind_eq_some_iff.mp hread
    obtain ⟨u, rfl, hlocal⟩ := steady_declared hr₂
    obtain ⟨w₂, hw₂, hspaces₂, -⟩ := skipSpaces_split r₂
    rw [Text.dropLead?_eq_some.mp hend] at hw₂
    refine ⟨w ++ (u ++ (w₂ ++ "?>".toList)), by rw [hr₀, hw₂]; simp only [List.append_assoc],
      fun x => ?_⟩
    have hlist : "<?xml ".toList ++ (w ++ (u ++ (w₂ ++ "?>".toList))) ++ x =
        "<?xml ".toList ++ (w ++ (u ++ (w₂ ++ ("?>".toList ++ x)))) := by
      simp only [List.append_assoc]
    have hsame (x : List Char) : u ++ (w₂ ++ ("?>".toList ++ x)) =
        (u ++ w₂) ++ ("?>".toList ++ x) := (List.append_assoc _ _ _).symm
    rw [hw₂, hsame] at hstops hversion
    have hread : declarationSpaces? (' ' :: (w ++ (u ++ (w₂ ++ ("?>".toList ++ x))))) =
        some (u ++ (w₂ ++ ("?>".toList ++ x))) := by
      have hskip : skipSpaces (w ++ (u ++ (w₂ ++ ("?>".toList ++ x)))) =
          u ++ (w₂ ++ ("?>".toList ++ x)) := by
        rw [hsame]
        exact skipSpaces_run hspaces (stops_tail hstops)
      unfold declarationSpaces?
      rw [spaces?, if_pos (by decide), hskip]
    have hmark : Text.startsWith "version".toList (u ++ (w₂ ++ ("?>".toList ++ x))) = true := by
      rw [hsame, startsWith_tail (by decide) (u ++ w₂) x r]
      exact hversion
    have hclose : skipSpaces (w₂ ++ ("?>".toList ++ x)) = "?>".toList ++ x :=
      skipSpaces_run hspaces₂ (by simp; decide)
    rw [hlist, skipDeclaration?_eq, hread, Option.bind_some, if_pos hmark,
      hlocal w₂ r x hw₂, Option.bind_some, hclose, dropLead?_self]
  · cases hread

theorem skipDeclaration?_none (h : Text.startsWith "<?xml ".toList cs = false) :
    skipDeclaration? cs = some cs := by
  have hnone : Text.dropLead? "<?xml ".toList cs = none :=
    Option.isNone_iff_eq_none.mp (Option.isSome_eq_false_iff.mp h)
  unfold skipDeclaration?
  rw [hnone]

theorem skipDeclaration?_suffix (h : skipDeclaration? cs = some r) : r <:+ cs := by
  cases hstart : Text.startsWith "<?xml ".toList cs with
  | true =>
    obtain ⟨u, hu, -⟩ := skipDeclaration?_eq_some h hstart
    exact hu ▸ List.suffix_append _ r
  | false =>
    rw [skipDeclaration?_none hstart] at h
    obtain rfl := Option.some.inj h
    exact List.suffix_refl _

end Declaration

/-! ### Comments and instructions outside of the root -/

/-- A text that begins with no space, comment or instruction. -/
structure PastMisc (cs : List Char) : Prop where
  space : Stops isSpace cs
  comment : Text.dropLead? "<!--".toList cs = none
  instruction : Text.startsWith "<?".toList cs = false

/-- The tag of an element stands in front. -/
def BeginsTag (cs : List Char) : Prop := ∃ c t, cs = '<' :: c :: t ∧ c ≠ '!' ∧ c ≠ '?'

/-- Comments and instructions are read up to what follows them, given fuel beyond a number. -/
def MiscRead (k : Nat) (cs rest : List Char) : Prop :=
  ∀ fuel, k < fuel → ∃ ns, (∀ n ∈ ns, n.isElement = false) ∧ misc? fuel cs = some (ns, rest)

section Misc

variable {fuel k m level : Nat} {cs r w u tail : List Char} {n : Node} {ns : List Node} {o : Layout}
  {outer : List Binding}

/-- What is read between the parts of a document can stand anywhere. -/
theorem misc?_facts (h : misc? fuel cs = some (ns, r)) : (∀ n ∈ ns, IsMisc n) ∧ r <:+ cs := by
  induction fuel generalizing cs ns with
  | zero =>
    rw [misc?] at h
    obtain ⟨rfl, rfl⟩ := Prod.mk.inj (Option.some.inj h)
    exact ⟨by simp, List.suffix_refl _⟩
  | succ fuel ih =>
    have hskip : skipSpaces cs <:+ cs := List.dropWhile_suffix _
    have hmore {n : Node} {ns' : List Node} {u r₁ : List Char} (hn : IsMisc n)
        (hcs : skipSpaces cs = u ++ r₁) (hrest : misc? fuel r₁ = some (ns', r)) :
        (∀ m ∈ n :: ns', IsMisc m) ∧ r <:+ cs := by
      obtain ⟨hmisc, hsuffix⟩ := ih hrest
      have hpast : r₁ <:+ skipSpaces cs := hcs ▸ List.suffix_append u r₁
      exact ⟨List.forall_mem_cons.mpr ⟨hn, hmisc⟩, hsuffix.trans (hpast.trans hskip)⟩
    rw [misc?] at h
    dsimp only at h
    split at h
    · next r₀ hlead =>
      split at h
      · next n r₁ hn =>
        obtain ⟨⟨ns', r'⟩, hrest, he⟩ := Option.map_eq_some_iff.mp h
        obtain ⟨rfl, rfl⟩ := Prod.mk.inj he
        obtain ⟨s, rfl, hr₀, hs⟩ := comment?_eq_some hn
        have hcs := Text.dropLead?_eq_some.mp hlead
        exact hmore (u := "<!--".toList ++ (s ++ "-->".toList)) (isMisc_comment hs)
          (by rw [hcs, hr₀]; simp) hrest
      · cases h
    · split at h
      · split at h
        · next n r₁ hn =>
          obtain ⟨⟨ns', r'⟩, hrest, he⟩ := Option.map_eq_some_iff.mp h
          obtain ⟨rfl, rfl⟩ := Prod.mk.inj he
          obtain ⟨t, v, rfl, hi, u, hu, -⟩ := instruction?_eq_some hn
          exact hmore (isMisc_instruction hi) hu hrest
        · cases h
      · obtain ⟨rfl, rfl⟩ := Prod.mk.inj (Option.some.inj h)
        exact ⟨by simp, hskip⟩

theorem pastMisc_nil : PastMisc [] := ⟨stops_nil, rfl, rfl⟩

theorem pastMisc_doctype (t : List Char) : PastMisc ("<!DOCTYPE".toList ++ t) :=
  ⟨by simp; decide, rfl, rfl⟩

theorem BeginsTag.append (h : BeginsTag cs) (tail : List Char) : BeginsTag (cs ++ tail) := by
  obtain ⟨c, t, rfl, hplain⟩ := h
  exact ⟨c, t ++ tail, rfl, hplain⟩

theorem BeginsTag.pastMisc (h : BeginsTag tail) : PastMisc tail := by
  obtain ⟨c, t, rfl, hbang, hquery⟩ := h
  exact ⟨by simp; decide, by simp [Text.dropLead?, hbang.symm],
    by simp [Text.startsWith, Text.dropLead?, hquery.symm]⟩

theorem miscRead_end (hw : ∀ c ∈ w, isSpace c = true) (htail : PastMisc tail) :
    MiscRead 0 (w ++ tail) tail := by
  intro fuel hfuel
  obtain ⟨fuel, rfl⟩ : ∃ f, fuel = f + 1 := ⟨fuel - 1, by omega⟩
  refine ⟨[], by simp, ?_⟩
  rw [misc?]
  dsimp only
  rw [skipSpaces_run hw htail.space, htail.comment, htail.instruction]
  rfl

theorem MiscRead.mono (h : MiscRead k cs r) (hkm : k ≤ m) : MiscRead m cs r :=
  fun fuel hfuel => h fuel (by omega)

/-- One more comment is read before the others. -/
theorem miscRead_comment {s : List Char} (hw : ∀ c ∈ w, isSpace c = true) (hs : IsCommentText s)
    (h : MiscRead k cs r) :
    MiscRead (k + 1) (w ++ ("<!--".toList ++ s ++ "-->".toList ++ cs)) r := by
  intro fuel hfuel
  obtain ⟨fuel, rfl⟩ : ∃ f, fuel = f + 1 := ⟨fuel - 1, by omega⟩
  obtain ⟨ns, hns, hread⟩ := h fuel (by omega)
  have hlist : "<!--".toList ++ s ++ "-->".toList ++ cs =
      "<!--".toList ++ (s ++ "-->".toList ++ cs) := by simp only [List.append_assoc]
  have hspace : Stops isSpace ("<!--".toList ++ (s ++ "-->".toList ++ cs)) := by
    simp
    decide
  refine ⟨.comment s :: ns, List.forall_mem_cons.mpr ⟨rfl, hns⟩, ?_⟩
  rw [hlist, misc?]
  dsimp only
  rw [skipSpaces_run hw hspace, dropLead?_self]
  dsimp only
  rw [hs cs]
  dsimp only
  rw [hread]
  rfl

/-- One more instruction is read before the others. -/
theorem miscRead_instruction (hw : ∀ c ∈ w, isSpace c = true) (hn : n.isElement = false)
    (hu : instruction? (u ++ cs) = some (n, cs)) (h : MiscRead k cs r) :
    MiscRead (k + 1) (w ++ (u ++ cs)) r := by
  intro fuel hfuel
  obtain ⟨fuel, rfl⟩ : ∃ f, fuel = f + 1 := ⟨fuel - 1, by omega⟩
  obtain ⟨ns, hns, hread⟩ := h fuel (by omega)
  obtain ⟨⟨y, hy⟩, -⟩ := instruction?_begins hu
  have hspace : Stops isSpace (u ++ cs) := by
    rw [hy]
    simp
    decide
  have hcomment : Text.dropLead? "<!--".toList (u ++ cs) = none := by
    rw [hy]
    rfl
  have hmark : Text.startsWith "<?".toList (u ++ cs) = true := startsWith_eq_true.mpr ⟨y, hy⟩
  refine ⟨n :: ns, List.forall_mem_cons.mpr ⟨hn, hns⟩, ?_⟩
  rw [misc?]
  dsimp only
  rw [skipSpaces_run hw hspace, hcomment, if_pos hmark, hu]
  dsimp only
  rw [hread]
  rfl

/-- A node that is printed on a line is read before those that follow it. -/
theorem miscRead_cons (hnode : o.node level outer n = indentation level ++ u ++ ['\n'])
    (h : MiscRead ((o.nodes level outer ns).length + 1)
      ((w ++ indentation level) ++ (u ++ (['\n'] ++ (o.nodes level outer ns ++ tail)))) tail) :
    MiscRead (o.nodes level outer (n :: ns)).length (w ++ (o.nodes level outer (n :: ns) ++ tail))
      tail := by
  have hnodes : o.nodes level outer (n :: ns) =
      indentation level ++ (u ++ (['\n'] ++ o.nodes level outer ns)) := by
    rw [Layout.nodes, hnode]
    simp only [List.append_assoc]
  have hlen : (o.nodes level outer ns).length + 1 ≤ (o.nodes level outer (n :: ns)).length := by
    rw [hnodes]
    simp only [List.length_append, List.length_singleton]
    omega
  have hmore := h.mono hlen
  rw [hnodes] at hmore ⊢
  simpa only [List.append_assoc] using hmore

/-- Comments and instructions that are printed are read up to what follows them. -/
theorem miscRead_nodes (hs : SoundIn outer ns) (hns : ∀ n ∈ ns, n.isElement = false)
    (hxml : ∀ t v, .instruction t v ∈ ns → t = "xml".toList → v = none) (htail : PastMisc tail)
    (hw : ∀ c ∈ w, isSpace c = true) :
    MiscRead (o.nodes level outer ns).length (w ++ (o.nodes level outer ns ++ tail)) tail := by
  induction ns generalizing w with
  | nil =>
    have hnodes : o.nodes level outer [] = [] := by rw [Layout.nodes]
    rw [hnodes, List.nil_append]
    exact miscRead_end hw htail
  | cons n ns ih =>
    rw [SoundIn] at hs
    have hrest {w : List Char} (hw : ∀ c ∈ w, isSpace c = true) :=
      @ih w hs.2 (fun m hm => hns m (List.mem_cons_of_mem n hm))
        (fun t v hm => hxml t v (List.mem_cons_of_mem n hm)) hw
    have hspaces : ∀ c ∈ w ++ indentation level, isSpace c = true :=
      List.forall_mem_append.mpr ⟨hw, isSpace_indentation level⟩
    cases n with
    | element h children => exact absurd (hns _ List.mem_cons_self) (by simp [Node.isElement])
    | text s =>
      rw [Layout.nodes, Layout.node, List.nil_append]
      exact hrest hw
    | comment s =>
      have htext : Node.Sound outer (.comment s) := hs.1
      rw [Node.Sound] at htext
      exact miscRead_cons (node_comment o level outer s)
        (miscRead_comment hspaces htext (hrest isSpace_line))
    | instruction t v =>
      have hi : Node.Sound outer (.instruction t v) := hs.1
      rw [Node.Sound] at hi
      have hwritten := instruction?_written hi (hxml t v List.mem_cons_self)
        (['\n'] ++ (o.nodes level outer ns ++ tail))
      exact miscRead_cons (node_instruction o level outer t v)
        (miscRead_instruction hspaces rfl hwritten (hrest isSpace_line))

end Misc

/-! ### Where a declaration ends -/

/-- An instruction ends at the first mark of its end. -/
theorem splitAt?_instruction {cs rest : List Char} {n : Node}
    (h : instruction? cs = some (n, rest)) :
    ∃ inner, Text.splitAt? "?>".toList cs = some (inner, rest) := by
  unfold instruction? at h
  split at h
  · cases h
  · obtain ⟨r, hr, h⟩ := Option.bind_eq_some_iff.mp h
    obtain ⟨⟨target, r'⟩, hn, h⟩ := Option.bind_eq_some_iff.mp h
    obtain ⟨⟨value, r''⟩, hup, h⟩ := Option.bind_eq_some_iff.mp h
    obtain ⟨-, rfl⟩ := Prod.mk.inj (Option.some.inj h)
    obtain rfl := Text.dropLead?_eq_some.mp hr
    obtain ⟨rfl, hword, -⟩ := isWord_of_name? hn
    obtain ⟨w, hw, hspaces, -⟩ := skipSpaces_split r'
    obtain ⟨hvalue, -, -⟩ := upTo?_eq_some hup
    have hsplit : Text.splitAt? "?>".toList (skipSpaces r') = some (value, r'') := by
      unfold upTo? at hup
      split at hup
      · next a b hab =>
        split at hup
        · obtain ⟨rfl, rfl⟩ := Prod.mk.inj (Option.some.inj hup)
          exact hab
        · cases hup
      · cases hup
    have hplain : '?' ∉ target ++ w := by
      intro hm
      rcases List.mem_append.mp hm with hm | hm
      · exact absurd (hword.inner _ hm) (by decide)
      · exact absurd (hspaces _ hm) (by decide)
    have hrest : Text.splitAt? "?>".toList (target ++ r') = some (target ++ w ++ value, r'') := by
      have hpast := splitAt?_past (m := ['>']) (s := skipSpaces r') hplain
      rw [List.append_assoc, ← hw] at hpast
      exact hpast.trans (by rw [show '?' :: ['>'] = "?>".toList from rfl, hsplit]; rfl)
    obtain ⟨c, t, rfl, hc⟩ := hword.begins
    have hclose : '>' ≠ c := by
      rintro rfl
      exact absurd hc (by decide)
    refine ⟨'<' :: '?' :: (c :: t ++ w ++ value), ?_⟩
    have hlist : "<?".toList ++ (c :: t ++ r') = '<' :: '?' :: (c :: (t ++ r')) := by simp
    have hquery : Text.dropLead? "?>".toList ('?' :: (c :: (t ++ r'))) = none := by
      simp [Text.dropLead?, hclose]
    rw [hlist, Text.splitAt?, Text.splitAt?, hquery]
    rw [List.cons_append] at hrest
    rw [hrest]
    rfl

end Marginalia.Xml
