import Mathlib.Data.List.Nodup
import Marginalia.Xml.Parser
import Marginalia.Xml.Pretty
import Marginalia.Proofs.Xml.Lexing

/-! Start tags. The tag that is written for an element declares the namespaces that are not in force
outside, and the names in it find the namespaces that they had. -/

namespace Marginalia.Xml

/-! ### Namespaces in force -/

section Bindings

variable {bs outer outer' own : List Binding} {short : Option (List Char)} {space : List Char}

/-- What a short name stands for, or none for the default namespace. -/
def lookup (bs : List Binding) (short : Option (List Char)) : Option (List Char) :=
  (bs.find? fun x => x.short = short).map Binding.uri

/-- All names find the same namespaces. -/
def Agree (bs bs' : List Binding) : Prop := ∀ short, lookup bs short = lookup bs' short

/-- The namespaces in force at a tag that declares some. -/
def inForce (outer own : List Binding) : List Binding :=
  if own = [] then outer else outer.foldl Builder.inherit own

/-- The namespace of a name, by what its short name stands for. -/
theorem resolve?_eq (bs : List Binding) (space : List Char) :
    Builder.resolve? bs space =
      match lookup bs (if space = [] then none else some space) with
      | some u => some (some u)
      | none => if space = [] then some none else none := by
  unfold Builder.resolve? lookup
  dsimp only
  cases bs.find? fun x => x.short = if space = [] then none else some space <;> rfl

theorem Agree.resolve? (h : Agree bs outer) (space : List Char) :
    Builder.resolve? bs space = Builder.resolve? outer space := by
  rw [resolve?_eq, resolve?_eq, h]

theorem lookup_append (bs bs' : List Binding) (short : Option (List Char)) :
    lookup (bs ++ bs') short = (lookup bs short).or (lookup bs' short) := by
  simp only [lookup, List.find?_append]
  cases bs.find? fun x => x.short = short <;> simp

theorem lookup_cons (b : Binding) (bs : List Binding) :
    lookup (b :: bs) short = if b.short = short then some b.uri else lookup bs short := by
  simp only [lookup, List.find?_cons]
  by_cases h : b.short = short <;> simp [h]

theorem lookup_eq_none : lookup bs short = none ↔ ∀ b ∈ bs, b.short ≠ short := by
  simp [lookup]

theorem lookup_eq_some {u : List Char} (h : lookup bs short = some u) :
    ∃ b ∈ bs, b.short = short ∧ b.uri = u := by
  obtain ⟨b, hb, rfl⟩ := Option.map_eq_some_iff.mp h
  exact ⟨b, List.mem_of_find?_eq_some hb, by simpa using List.find?_some hb, rfl⟩

theorem lookup_of_mem (h : (bs.map Binding.short).Nodup) {b : Binding} (hb : b ∈ bs) :
    lookup bs b.short = some b.uri := by
  induction bs with
  | nil => cases hb
  | cons c bs ih =>
    obtain ⟨hc, hbs⟩ := List.nodup_cons.mp h
    rw [lookup_cons]
    rcases List.mem_cons.mp hb with rfl | hb
    · rw [if_pos rfl]
    · have hne : c.short ≠ b.short := fun he => hc (he ▸ List.mem_map_of_mem hb)
      rw [if_neg hne, ih hbs hb]

theorem lookup_inherit (bs : List Binding) (x : Binding) :
    lookup (Builder.inherit bs x) short = (lookup bs short).or (lookup [x] short) := by
  unfold Builder.inherit
  split
  · next h =>
    obtain ⟨y, hy, he⟩ := List.any_eq_true.mp h
    have he : y.short = x.short := by simpa using he
    cases hl : lookup bs short with
    | some u => rfl
    | none =>
      have hne := lookup_eq_none.mp hl y hy
      simp [he ▸ hne, lookup]
  · exact lookup_append bs [x] short

theorem lookup_foldl_inherit (own outer : List Binding) (short : Option (List Char)) :
    lookup (outer.foldl Builder.inherit own) short =
      (lookup own short).or (lookup outer short) := by
  induction outer generalizing own with
  | nil => simp [lookup]
  | cons x outer ih =>
    rw [List.foldl_cons, ih, lookup_inherit, Option.or_assoc, ← lookup_append]
    rfl

/-- A tag's own declarations come before those outside. -/
theorem lookup_inForce (outer own : List Binding) (short : Option (List Char)) :
    lookup (inForce outer own) short = (lookup own short).or (lookup outer short) := by
  unfold inForce
  split
  · next h => simp [h, lookup]
  · exact lookup_foldl_inherit own outer short

theorem mem_inherit {b x : Binding} (h : b ∈ Builder.inherit bs x) : b ∈ bs ∨ b = x := by
  unfold Builder.inherit at h
  split at h
  · exact Or.inl h
  · simpa using h

theorem mem_foldl_inherit {own outer : List Binding} {b : Binding}
    (h : b ∈ outer.foldl Builder.inherit own) : b ∈ own ∨ b ∈ outer := by
  induction outer generalizing own with
  | nil => exact Or.inl h
  | cons x outer ih =>
    rcases ih h with h | h
    · rcases mem_inherit h with h | rfl
      · exact Or.inl h
      · exact Or.inr List.mem_cons_self
    · exact Or.inr (List.mem_cons_of_mem x h)

theorem mem_inForce {b : Binding} (h : b ∈ inForce outer own) : b ∈ own ∨ b ∈ outer := by
  unfold inForce at h
  split at h
  · exact Or.inr h
  · exact mem_foldl_inherit h

/-- The declarations that a tag is written with. -/
def declared (bs outer : List Binding) : List Binding := bs.filter fun b => !outer.contains b

theorem mem_declared {b : Binding} : b ∈ declared bs outer ↔ b ∈ bs ∧ b ∉ outer := by
  simp [declared]

theorem nodup_declared (h : (bs.map Binding.short).Nodup) :
    ((declared bs outer).map Binding.short).Nodup :=
  (List.filter_sublist.map Binding.short).nodup h

/-- What is in force inside the written tag is what was in force inside the one that was read. -/
theorem agree_inForce_declared (hbs : bs = inForce outer own)
    (hdistinct : (bs.map Binding.short).Nodup) (houter : (outer.map Binding.short).Nodup)
    (h : Agree outer outer') : Agree bs (inForce outer' (declared bs outer)) := by
  intro short
  rw [lookup_inForce]
  cases hl : lookup bs short with
  | none =>
    have hnone : lookup (declared bs outer) short = none :=
      lookup_eq_none.mpr fun b hb => lookup_eq_none.mp hl b (mem_declared.mp hb).1
    rw [hbs, lookup_inForce] at hl
    rw [hnone, ← h]
    simpa using (Option.or_eq_none_iff.mp hl).2.symm
  | some u =>
    obtain ⟨b, hb, rfl, rfl⟩ := lookup_eq_some hl
    by_cases ho : b ∈ outer
    · have hnone : lookup (declared bs outer) b.short = none := by
        refine lookup_eq_none.mpr fun c hc he => ?_
        obtain ⟨hc, hco⟩ := mem_declared.mp hc
        have hcb : c = b := List.inj_on_of_nodup_map hdistinct hc hb he
        exact hco (hcb ▸ ho)
      rw [hnone, Option.none_or, ← h, lookup_of_mem houter ho]
    · rw [lookup_of_mem (nodup_declared hdistinct) (mem_declared.mpr ⟨hb, ho⟩)]
      rfl

end Bindings

/-! ### Elements as they are read and as they can be written -/

/-- A value that can be written between quotes: white space in it is spaces alone. -/
def IsWritable (v : List Char) : Prop :=
  ∀ c ∈ v, isLegal c = true ∧ c ≠ '\t' ∧ c ≠ '\n' ∧ c ≠ '\r'

/-- An element inside of which names have their namespaces. -/
structure Head.Sound (outer : List Binding) (h : Head) : Prop where
  name : IsName h.name
  bindings : ∃ own, h.bindings = inForce outer own
  shorts : ∀ b ∈ h.bindings, ∀ s, b.short = some s → IsName s ∧ s ≠ "xml".toList
  uris : ∀ b ∈ h.bindings, b.uri ≠ xmlUri ∧ b.uri ≠ xmlnsUri
  uri : ∃ space, Builder.resolve? h.bindings space = some h.uri
  attributes : ∀ a ∈ h.attributes, IsName a.name ∧ a.name ≠ "xmlns".toList
  attributeUris : ∀ a ∈ h.attributes, ∀ u, a.uri = some u →
    u = xmlUri ∨ ∃ b ∈ h.bindings, b.uri = u
  distinct : (h.attributes.map fun a => (a.uri, a.name)).Nodup

/-- An element whose tag can be written: no namespace is declared twice at once or as `xmlns`, the
namespace of an attribute is not the default one, and values keep their white space. -/
structure Head.Writable (h : Head) : Prop where
  distinct : (h.bindings.map Binding.short).Nodup
  shorts : ∀ b ∈ h.bindings, b.short ≠ some "xmlns".toList
  attributes : ∀ a ∈ h.attributes, ∀ u, a.uri = some u → h.shortFor? u ≠ none
  values : ∀ a ∈ h.attributes, IsWritable a.value
  uris : ∀ b ∈ h.bindings, IsWritable b.uri

/-! ### Names in a tag -/

/-- The name that a declaration is written with. -/
def Binding.qname (b : Binding) : QName :=
  match b.short with
  | some short => ⟨"xmlns".toList, short⟩
  | none => ⟨[], "xmlns".toList⟩

/-- A name of a namespace, as it is written at an element. -/
def Head.qname (h : Head) (uri : Option (List Char)) (name : List Char) : QName :=
  ⟨(uri.bind h.shortFor?).getD [], name⟩

/-- The declarations and attributes that the tag of an element is written with. -/
def Head.written (h : Head) (outer : List Binding) : List (QName × List Char) :=
  ((declared h.bindings outer).map fun b => (b.qname, b.uri)) ++
    h.attributes.map fun a => (h.qname a.uri a.name, a.value)

/-- Declarations and attributes one after another. -/
def writtenAll (as : List (QName × List Char)) : List Char :=
  as.flatMap fun a => assignment a.1.spell a.2

theorem isName_xml : IsName "xml".toList :=
  ⟨by simp, by decide, List.all_eq_true.mp (by decide), by decide⟩

theorem isName_xmlns : IsName "xmlns".toList :=
  ⟨by simp, by decide, List.all_eq_true.mp (by decide), by decide⟩

section Head

variable {h : Head} {outer : List Binding} {uri : Option (List Char)} {u name : List Char}

theorem spell_qname (h : Head) (uri : Option (List Char)) (name : List Char) :
    (h.qname uri name).spell = h.qualified uri name := by
  unfold Head.qname Head.qualified QName.spell
  cases uri.bind h.shortFor? <;> rfl

theorem Binding.assignment_eq (b : Binding) :
    b.assignment = Xml.assignment b.qname.spell b.uri := by
  unfold Binding.assignment Binding.qname
  cases b.short <;> rfl

theorem openTag_eq (hs : h.Sound outer) :
    h.openTag outer = '<' :: (h.qname h.uri h.name).spell ++ writtenAll (h.written outer) := by
  have hdeclared : (h.bindings.filter fun b => b.short ≠ some "xml".toList && !outer.contains b) =
      declared h.bindings outer := by
    refine List.filter_congr fun b hb => ?_
    have hne : b.short ≠ some "xml".toList := fun he => (hs.shorts b hb _ he).2 rfl
    rw [decide_eq_true hne, Bool.true_and]
  have hassign : Binding.assignment = fun b => Xml.assignment b.qname.spell b.uri :=
    funext Binding.assignment_eq
  unfold Head.openTag
  dsimp only
  rw [hdeclared, hassign]
  simp [writtenAll, Head.written, Head.label, spell_qname, List.flatMap_append, List.flatMap_map]

/-- The short name of a namespace is one that stands for it. -/
theorem shortFor?_spec (hu : u ≠ xmlUri) (hb : ∃ b ∈ h.bindings, b.uri = u) :
    ∃ b ∈ h.bindings, b.uri = u ∧ h.shortFor? u = b.short := by
  obtain ⟨b, hb, hbu⟩ := hb
  unfold Head.shortFor?
  rw [if_neg hu]
  cases hf : h.bindings.find? fun b => b.uri = u with
  | none => exact absurd hbu (by simpa using List.find?_eq_none.mp hf b hb)
  | some c => exact ⟨c, List.mem_of_find?_eq_some hf, by simpa using List.find?_some hf, rfl⟩

/-- A name is legal where its namespace has a legal short name. -/
theorem legal_qname (hs : h.Sound outer) (hn : IsName name)
    (hu : ∀ u, uri = some u → u = xmlUri ∨ ∃ b ∈ h.bindings, b.uri = u) :
    (h.qname uri name).Legal := by
  refine ⟨?_, hn⟩
  cases uri with
  | none => exact Or.inl rfl
  | some u =>
    by_cases hx : u = xmlUri
    · subst hx
      exact Or.inr isName_xml
    · obtain ⟨b, hb, -, hshort⟩ := shortFor?_spec hx ((hu u rfl).resolve_left hx)
      change (h.shortFor? u).getD [] = [] ∨ IsName ((h.shortFor? u).getD [])
      rw [hshort]
      cases hbs : b.short with
      | none => exact Or.inl rfl
      | some s => exact Or.inr (hs.shorts b hb s hbs).1

theorem qname_space_ne_xmlns (hw : h.Writable)
    (hu : ∀ u, uri = some u → u = xmlUri ∨ ∃ b ∈ h.bindings, b.uri = u) :
    (h.qname uri name).space ≠ "xmlns".toList := by
  cases uri with
  | none => simp [Head.qname]
  | some u =>
    by_cases hx : u = xmlUri
    · subst hx
      change "xml".toList ≠ "xmlns".toList
      decide
    · obtain ⟨b, hb, -, hshort⟩ := shortFor?_spec hx ((hu u rfl).resolve_left hx)
      change (h.shortFor? u).getD [] ≠ _
      rw [hshort]
      intro he
      cases hbs : b.short with
      | none => simp [hbs] at he
      | some s =>
        rw [hbs] at he
        exact hw.shorts b hb (hbs.trans (congrArg some he))

theorem uri_bound (hs : h.Sound outer) (hu : h.uri = some u) : ∃ b ∈ h.bindings, b.uri = u := by
  obtain ⟨space, hspace⟩ := hs.uri
  rw [resolve?_eq] at hspace
  split at hspace
  · next v hv =>
    obtain ⟨b, hb, -, hbu⟩ := lookup_eq_some hv
    rw [hu] at hspace
    exact ⟨b, hb, hbu.trans (by simpa using hspace)⟩
  · split at hspace
    · rw [hu] at hspace
      cases hspace
    · cases hspace

/-- An element's own name is legal as it is written. -/
theorem legal_label (hs : h.Sound outer) : (h.qname h.uri h.name).Legal :=
  legal_qname hs hs.name fun _ hu => Or.inr (uri_bound hs hu)

/-- The name of a bound namespace finds it where the same names are in force. -/
theorem resolve?_qname (hs : h.Sound outer) (hw : h.Writable) {bs : List Binding}
    (ha : Agree h.bindings bs) (hu : u ≠ xmlUri) (hbound : ∃ b ∈ h.bindings, b.uri = u) :
    Builder.resolve? bs (h.qname (some u) name).space = some (some u) := by
  obtain ⟨b, hb, rfl, hshort⟩ := shortFor?_spec hu hbound
  have hlookup := lookup_of_mem hw.distinct hb
  have hspace : (h.qname (some b.uri) name).space = b.short.getD [] := by
    rw [← hshort]
    rfl
  rw [← ha.resolve?, resolve?_eq, hspace]
  cases hbs : b.short with
  | none =>
    rw [hbs] at hlookup
    simp [hlookup]
  | some s =>
    have hne := (hs.shorts b hb s hbs).1.nonempty
    rw [hbs] at hlookup
    simp [hne, hlookup]

theorem resolve?_element (hs : h.Sound outer) (hw : h.Writable) {bs : List Binding}
    (ha : Agree h.bindings bs) :
    Builder.resolve? bs (h.qname h.uri h.name).space = some h.uri := by
  cases hu : h.uri with
  | some u =>
    have hb := uri_bound hs hu
    obtain ⟨b, hbm, hbu⟩ := hb
    exact resolve?_qname hs hw ha (hbu ▸ (hs.uris b hbm).1) ⟨b, hbm, hbu⟩
  | none =>
    obtain ⟨space, hspace⟩ := hs.uri
    rw [ha.resolve?, hu, resolve?_eq] at hspace
    change Builder.resolve? bs [] = some none
    rw [resolve?_eq]
    split at hspace
    · cases hspace
    · next hl =>
      split at hspace
      · next he =>
        subst he
        rw [hl]
        rfl
      · cases hspace

theorem resolveAttribute?_qname (hs : h.Sound outer) (hw : h.Writable) {bs : List Binding}
    (ha : Agree h.bindings bs) {a : Attribute} (hm : a ∈ h.attributes) :
    Builder.resolveAttribute? bs (h.qname a.uri a.name, a.value) = some a := by
  obtain ⟨uri, name, value⟩ := a
  unfold Builder.resolveAttribute?
  cases uri with
  | none =>
    simp [Head.qname]
  | some u =>
    by_cases hx : u = xmlUri
    · subst hx
      rfl
    · have hb := (hs.attributeUris _ hm u rfl).resolve_left hx
      obtain ⟨b, hbm, hbu, hshort⟩ := shortFor?_spec hx hb
      have hnamed := hw.attributes _ hm u rfl
      rw [hshort] at hnamed
      obtain ⟨s, hbs⟩ := Option.ne_none_iff_exists'.mp hnamed
      have hspace : (h.qname (some u) name).space = s := by
        change (h.shortFor? u).getD [] = s
        rw [hshort, hbs]
        rfl
      obtain ⟨hname, hxml⟩ := hs.shorts b hbm s hbs
      have hresolve := @resolve?_qname h outer u name hs hw bs ha hx hb
      rw [hspace] at hresolve
      dsimp only
      rw [hspace, if_neg hxml, if_neg hname.nonempty, hresolve]
      rfl

end Head

theorem mapM_map_of {α β : Type} {f : β → Option α} {g : α → β} {as : List α}
    (h : ∀ a ∈ as, f (g a) = some a) : (as.map g).mapM f = some as := by
  induction as with
  | nil => rfl
  | cons a as ih =>
    rw [List.map_cons, List.mapM_cons, h a List.mem_cons_self,
      ih fun b hb => h b (List.mem_cons_of_mem a hb)]
    rfl

/-! ### Reading a start tag -/

section Reading

variable {limit fuel : Nat} {b : Builder} {h : Head} {outer : List Binding} {rest : List Char}

/-- A builder that can take a value of a text in at its level. -/
structure Builder.Takes (b : Builder) (n : Nat) : Prop where
  top : b.nesting.depth = 0
  budget : n ≤ b.budget

theorem isFlat_of_isWritable {v : List Char} (h : IsWritable v) : IsFlat v :=
  fun c hc => (h c hc).2

theorem length_escapeValue_le (v : List Char) : v.length ≤ (escapeValue v).length := by
  unfold escapeValue
  induction v with
  | nil => simp
  | cons c v ih =>
    have hc : 1 ≤ (Text.escapeAttributeChar c).length := by
      unfold Text.escapeAttributeChar Text.escapeChar
      split
      · decide
      · split
        · decide
        · split
          · decide
          · split
            · decide
            · simp
    simp only [List.flatMap_cons, List.length_append, List.length_cons]
    omega

theorem length_assignment (name v : List Char) :
    (assignment name v).length = name.length + (escapeValue v).length + 4 := by
  simp [assignment]
  omega

theorem normalValue_written {n : Nat} (hb : b.Takes n) {v : List Char} (hv : IsWritable v)
    (hn : v.length < n) :
    normalValue b.entities b.budget b.nesting (escapeValue v) [] = some (b.nesting, v.reverse) := by
  have h := @normalValue_escapeValue b.entities _ hb.top _ (isFlat_of_isWritable hv) b.budget
    (Nat.lt_of_lt_of_le hn hb.budget) []
  rw [List.append_nil] at h
  exact h

theorem addAttribute?_binding {n : Nat} (hb : b.Takes n) {d : Binding} (hd : IsWritable d.uri)
    (hn : d.uri.length < n) (hshort : ∀ s, d.short = some s → s ≠ "xml".toList)
    (huri : d.uri ≠ xmlUri ∧ d.uri ≠ xmlnsUri) (hnew : ∀ x ∈ b.bindings, x.short ≠ d.short) :
    b.addAttribute? d.qname (escapeValue d.uri) =
      some { b with bindings := b.bindings ++ [d] } := by
  obtain ⟨short, uri⟩ := d
  dsimp only at *
  unfold Builder.addAttribute?
  rw [normalValue_written hb hd hn]
  cases short with
  | none => simp [Binding.qname, huri.1, huri.2]
  | some s =>
    have hxml : s ≠ ['x', 'm', 'l'] := hshort s rfl
    have hany : (b.bindings.any fun x => x.short == some s) = false := by
      rw [List.any_eq_false]
      intro x hx
      simpa using hnew x hx
    simp [Binding.qname, huri.1, huri.2, hxml, hany]

theorem addAttribute?_attribute {n : Nat} (hb : b.Takes n) {q : QName} {v : List Char}
    (hv : IsWritable v) (hn : v.length < n) (hspace : q.space ≠ "xmlns".toList)
    (hname : q.name ≠ "xmlns".toList) :
    b.addAttribute? q (escapeValue v) = some { b with attributes := b.attributes ++ [(q, v)] } := by
  unfold Builder.addAttribute?
  rw [normalValue_written hb hv hn]
  simp only [Option.bind_eq_bind, Option.bind_some, if_neg hspace, if_neg hname,
    List.reverse_reverse]
  rfl

theorem exists_spell_cons {q : QName} (hq : q.Legal) :
    ∃ c t, q.spell = c :: t ∧ isNameChar c = true := by
  cases hs : q.spell with
  | nil =>
    unfold QName.spell at hs
    split at hs
    · exact absurd hs hq.name.nonempty
    · simp at hs
  | cons c t => exact ⟨c, t, rfl, hq.inner c (hs ▸ List.mem_cons_self)⟩

theorem startTag?_assignment {q : QName} (hq : q.Legal) {v : List Char} (hv : IsWritable v) :
    startTag? limit (fuel + 1) (assignment q.spell v ++ rest) b =
      (b.addAttribute? q (escapeValue v)).bind fun b => startTag? limit fuel rest b := by
  have hraw : ∀ c ∈ escapeValue v, isLegal c = true ∧ c ≠ '<' ∧ c ≠ '"' := by
    intro c hc
    obtain ⟨d, hd, hcd⟩ := List.mem_flatMap.mp hc
    exact legal_escapeAttributeChar (hv d hd).1 c hcd
  have hread := @attribute?_written _ hq _ rest hraw
  have htext : assignment q.spell v ++ rest =
      ' ' :: (q.spell ++ '=' :: '"' :: escapeValue v ++ '"' :: rest) := by
    simp [assignment]
  rw [htext]
  obtain ⟨c, t, hct, hc⟩ := exists_spell_cons hq
  rw [hct] at hread ⊢
  simp only [List.cons_append] at hread ⊢
  have hnotspace : isSpace c = false := by
    rw [← Bool.not_eq_true]
    intro hs
    rw [isNameChar_of_isSpace hs] at hc
    cases hc
  have hslash : c ≠ '/' := by
    rintro rfl
    exact absurd hc (by decide)
  have hclose : c ≠ '>' := by
    rintro rfl
    exact absurd hc (by decide)
  rw [startTag?, if_neg (by simp)]
  have hskip : skipSpaces (' ' :: c :: (t ++ '=' :: '"' :: (escapeValue v ++ '"' :: rest))) =
      c :: (t ++ '=' :: '"' :: (escapeValue v ++ '"' :: rest)) := by
    have hsp : isSpace ' ' = true := by decide
    simp [skipSpaces, hsp, hnotspace]
  simp only [List.append_assoc, List.cons_append] at hread ⊢
  rw [hskip]
  split
  · next he => cases he
  · next he => exact absurd (List.cons.inj he).1 hslash
  · next he => exact absurd (List.cons.inj he).1 hclose
  · next he =>
    have hsp : isSpace ' ' = true := by decide
    rw [hread]
    simp only [List.head?_cons, Option.all_some, hsp, Bool.not_true, Bool.false_eq_true, if_false,
      Option.bind_eq_bind, Option.bind_some]

theorem legal_binding_qname {d : Binding} (h : ∀ s, d.short = some s → IsName s) :
    d.qname.Legal := by
  unfold Binding.qname
  cases hd : d.short with
  | none => exact ⟨Or.inl rfl, isName_xmlns⟩
  | some s => exact ⟨Or.inr isName_xmlns, h s hd⟩

/-- A declaration that can be written and is not longer than a text. -/
structure Declares (n : Nat) (d : Binding) : Prop where
  writable : IsWritable d.uri
  short : ∀ s, d.short = some s → IsName s ∧ s ≠ "xml".toList
  uri : d.uri ≠ xmlUri ∧ d.uri ≠ xmlnsUri
  length : d.uri.length < n

theorem startTag?_declarations {n : Nat} {ds : List Binding} (hb : b.Takes n)
    (hds : ∀ d ∈ ds, Declares n d) (hnd : ((b.bindings ++ ds).map Binding.short).Nodup) :
    startTag? limit (ds.length + fuel) (writtenAll (ds.map fun d => (d.qname, d.uri)) ++ rest) b =
      startTag? limit fuel rest { b with bindings := b.bindings ++ ds } := by
  induction ds generalizing b with
  | nil => simp [writtenAll]
  | cons d ds ih =>
    have hd := hds d List.mem_cons_self
    have hnew : ∀ x ∈ b.bindings, x.short ≠ d.short := by
      intro x hx he
      rw [List.map_append] at hnd
      refine (List.nodup_append.mp hnd).2.2 x.short (List.mem_map_of_mem hx) d.short ?_ he
      exact List.mem_map_of_mem List.mem_cons_self
    have hadd := addAttribute?_binding hb hd.writable hd.length (fun s hs => (hd.short s hs).2)
      hd.uri hnew
    have hlegal := legal_binding_qname fun s hs => (hd.short s hs).1
    have hfuel : (d :: ds).length + fuel = (ds.length + fuel) + 1 := by
      simp only [List.length_cons]
      omega
    have htext : writtenAll ((d :: ds).map fun d => (d.qname, d.uri)) ++ rest =
        assignment d.qname.spell d.uri ++
          (writtenAll (ds.map fun d => (d.qname, d.uri)) ++ rest) := by
      simp [writtenAll]
    have hrest := @ih { b with bindings := b.bindings ++ [d] } ⟨hb.top, hb.budget⟩
      (fun e he => hds e (List.mem_cons_of_mem d he)) (by simpa using hnd)
    rw [hfuel, htext, startTag?_assignment hlegal hd.writable, hadd, Option.bind_some, hrest]
    simp

theorem startTag?_attributes {n : Nat} {as : List (QName × List Char)} (hb : b.Takes n)
    (has : ∀ a ∈ as, a.1.Legal ∧ IsWritable a.2 ∧ a.2.length < n ∧
      a.1.space ≠ "xmlns".toList ∧ a.1.name ≠ "xmlns".toList) :
    startTag? limit (as.length + fuel) (writtenAll as ++ rest) b =
      startTag? limit fuel rest { b with attributes := b.attributes ++ as } := by
  induction as generalizing b with
  | nil => simp [writtenAll]
  | cons a as ih =>
    obtain ⟨hlegal, hv, hn, hspace, hname⟩ := has a List.mem_cons_self
    have hadd := addAttribute?_attribute hb hv hn hspace hname
    have hfuel : (a :: as).length + fuel = (as.length + fuel) + 1 := by
      simp only [List.length_cons]
      omega
    have htext : writtenAll (a :: as) ++ rest =
        assignment a.1.spell a.2 ++ (writtenAll as ++ rest) := by
      simp [writtenAll]
    have hrest := @ih { b with attributes := b.attributes ++ [a] } ⟨hb.top, hb.budget⟩
      fun e he => has e (List.mem_cons_of_mem a he)
    rw [hfuel, htext, startTag?_assignment hlegal hv, hadd, Option.bind_some, hrest]
    simp

theorem length_lt_writtenAll {as : List (QName × List Char)} {a : QName × List Char}
    (h : a ∈ as) : a.2.length < (writtenAll as).length := by
  induction as with
  | nil => cases h
  | cons c as ih =>
    have hlen : (writtenAll (c :: as)).length =
        (assignment c.1.spell c.2).length + (writtenAll as).length := by
      simp [writtenAll]
    have hv := length_escapeValue_le c.2
    rw [hlen, length_assignment]
    rcases List.mem_cons.mp h with rfl | h
    · omega
    · have := ih h
      omega

theorem length_le_writtenAll (as : List (QName × List Char)) :
    as.length ≤ (writtenAll as).length := by
  induction as with
  | nil => simp
  | cons c as ih =>
    have hlen : (writtenAll (c :: as)).length =
        (assignment c.1.spell c.2).length + (writtenAll as).length := by
      simp [writtenAll]
    rw [hlen, length_assignment, List.length_cons]
    omega

/-- The declarations and attributes of a written tag, put together again. -/
theorem startTag?_written {n : Nat} (hs : h.Sound outer) (hw : h.Writable) (hb : b.Takes n)
    (hbindings : b.bindings = []) (hattributes : b.attributes = [])
    (hn : (writtenAll (h.written outer)).length ≤ n) :
    startTag? limit ((h.written outer).length + fuel) (writtenAll (h.written outer) ++ rest) b =
      startTag? limit fuel rest { b with
        bindings := declared h.bindings outer
        attributes := h.attributes.map fun a => (h.qname a.uri a.name, a.value) } := by
  have hlen (a : QName × List Char) (ha : a ∈ h.written outer) : a.2.length < n :=
    Nat.lt_of_lt_of_le (length_lt_writtenAll ha) hn
  have hds : ∀ d ∈ declared h.bindings outer, Declares n d := by
    intro d hd
    have hdm := (mem_declared.mp hd).1
    refine ⟨hw.uris d hdm, hs.shorts d hdm, hs.uris d hdm, ?_⟩
    exact hlen (d.qname, d.uri) (List.mem_append_left _ (List.mem_map_of_mem hd))
  have has : ∀ a ∈ h.attributes.map fun a => (h.qname a.uri a.name, a.value), a.1.Legal ∧
      IsWritable a.2 ∧ a.2.length < n ∧ a.1.space ≠ "xmlns".toList ∧
      a.1.name ≠ "xmlns".toList := by
    intro x hx
    obtain ⟨a, ha, rfl⟩ := List.mem_map.mp hx
    obtain ⟨hname, hne⟩ := hs.attributes a ha
    exact ⟨legal_qname hs hname (hs.attributeUris a ha), hw.values a ha,
      hlen _ (List.mem_append_right _ hx), qname_space_ne_xmlns hw (hs.attributeUris a ha), hne⟩
  have htext : writtenAll (h.written outer) ++ rest =
      writtenAll ((declared h.bindings outer).map fun d => (d.qname, d.uri)) ++
        (writtenAll (h.attributes.map fun a => (h.qname a.uri a.name, a.value)) ++ rest) := by
    simp [writtenAll, Head.written]
  have hfuel : (h.written outer).length + fuel = (declared h.bindings outer).length +
      ((h.attributes.map fun a => (h.qname a.uri a.name, a.value)).length + fuel) := by
    simp only [Head.written, List.length_append, List.length_map]
    omega
  have hdeclared : ((b.bindings ++ declared h.bindings outer).map Binding.short).Nodup := by
    simpa [hbindings] using nodup_declared hw.distinct
  have hread := @startTag?_attributes limit fuel
    { b with bindings := b.bindings ++ declared h.bindings outer } rest n _ ⟨hb.top, hb.budget⟩ has
  rw [htext, hfuel, startTag?_declarations hb hds hdeclared, hread]
  simp [hbindings, hattributes]

/-- Two elements with the same names and attributes, inside of which names find the same
namespaces. -/
structure SameHead (h h' : Head) : Prop where
  uri : h'.uri = h.uri
  name : h'.name = h.name
  attributes : h'.attributes = h.attributes
  bindings : Agree h.bindings h'.bindings

/-- The element that begins with a written tag. -/
theorem head?_written (hs : h.Sound outer) (hw : h.Writable)
    (houter : (outer.map Binding.short).Nodup) (hagree : Agree outer b.outerBindings)
    (start stop : Nat) :
    ∃ h', SameHead h h' ∧ Builder.head? { b with
        bindings := declared h.bindings outer
        attributes := h.attributes.map fun a => (h.qname a.uri a.name, a.value) }
      (h.qname h.uri h.name) start stop = some h' := by
  obtain ⟨own, hown⟩ := hs.bindings
  have hbs := agree_inForce_declared hown hw.distinct houter hagree
  have hattributes := mapM_map_of fun a ha => resolveAttribute?_qname hs hw hbs ha
  refine ⟨⟨h.uri, h.name, h.attributes, inForce b.outerBindings (declared h.bindings outer), start,
    stop⟩, ⟨rfl, rfl, rfl, hbs⟩, ?_⟩
  have hforce : Builder.bindingsInForce { b with
      bindings := declared h.bindings outer
      attributes := h.attributes.map fun a => (h.qname a.uri a.name, a.value) } =
        inForce b.outerBindings (declared h.bindings outer) := rfl
  unfold Builder.head?
  rw [hforce]
  unfold Builder.resolveAttributes?
  simp only [hattributes, hs.distinct, if_true, Option.bind_eq_bind, Option.bind_some,
    Option.pure_def, resolve?_element hs hw hbs]
  rfl

/-- An element begins with the name that is written. -/
theorem element?_tag {q : QName} (hq : q.Legal) (hspace : q.space ≠ "xmlns".toList)
    (hr : Stops isNameChar rest) :
    element? limit (fuel + 1) ('<' :: q.spell ++ rest) b =
      match startTag? limit (rest.length + 1) rest { b with
          tag := some (q, limit - ('<' :: q.spell ++ rest).length)
          afterText := false } with
      | none => none
      | some (.opened, r, b) => content? limit fuel r b
      | some (_, r, b) => some (r, b) := by
  rw [element?]
  simp only [List.cons_append, List.drop_succ_cons, List.drop_zero]
  rw [qname?_spell hq hr]
  exact if_neg hspace

/-- Nothing of a tag is left to be used. -/
structure Builder.Ready (b : Builder) : Prop where
  bindings : b.bindings = []
  attributes : b.attributes = []
  nesting : b.nesting = .none

/-- The builder inside one more element, after its tag. -/
def Builder.inside (b : Builder) (q : QName) (h : Head) (children : List Node)
    (tag : QName × Nat) (afterText : Bool) : Builder :=
  { b with tag := some tag, afterText := afterText, frames := ⟨q, h, children⟩ :: b.frames }

theorem clearTag_of_ready (hb : b.Ready) (tag : Option (QName × Nat)) (ds : List Binding)
    (as : List (QName × List Char)) (flag : Bool) :
    Builder.clearTag { b with tag := tag, afterText := flag, bindings := ds, attributes := as } =
      { b with tag := tag, afterText := false } := by
  obtain ⟨hbindings, hattributes, -⟩ := hb
  cases b
  simp only at hbindings hattributes
  subst hbindings hattributes
  rfl

theorem append_afterText (b : Builder) (flag : Bool) (n : Node) :
    Builder.append { b with afterText := flag } n = b.append n := by
  unfold Builder.append Builder.modifyChildren
  dsimp only
  cases b.frames <;> rfl

/-- What is read after the tag of an element that is written: the end of the tag and what the
builder is then. -/
theorem startTag?_of_openTag {n : Nat} (hs : h.Sound outer) (hw : h.Writable) (hb : b.Ready)
    (hn : (writtenAll (h.written outer)).length ≤ n) (hbudget : n ≤ b.budget)
    (houter : (outer.map Binding.short).Nodup) (hagree : Agree outer b.outerBindings)
    (isEmpty : Bool) (tag : QName × Nat) (htag : tag.1 = h.qname h.uri h.name) :
    ∃ h', SameHead h h' ∧
      startTag? limit ((h.written outer).length + (fuel + 1))
        (writtenAll (h.written outer) ++ ((if isEmpty then " />".toList else ">".toList) ++ rest))
        { b with tag := some tag, afterText := false } =
          some (if isEmpty then
              (.empty, rest, { b with tag := some tag }.append (.element h' []))
            else (.opened, rest, b.inside (h.qname h.uri h.name) h' [] tag false)) := by
  have hbTakes : Builder.Takes { b with tag := some tag, afterText := false } n :=
    ⟨by simp [hb.nesting, Nesting.none], hbudget⟩
  have hread (r : List Char) := @startTag?_written limit (fuel + 1)
    { b with tag := some tag, afterText := false } h outer r n hs hw hbTakes hb.bindings
    hb.attributes hn
  obtain ⟨h', hh, hhead⟩ := @head?_written { b with tag := some tag, afterText := false } h outer
    hs hw houter hagree tag.2 (limit - rest.length)
  refine ⟨h', hh, ?_⟩
  have hclear (as : List (QName × List Char)) :=
    clearTag_of_ready hb (some tag) (declared h.bindings outer) as false
  rw [← htag] at hhead ⊢
  rw [hread]
  cases isEmpty with
  | true =>
    have hspace : isSpace ' ' = true := by decide
    have hslash : isSpace '/' = false := by decide
    simp only [if_true, String.reduceToList, List.cons_append, List.nil_append]
    rw [startTag?, if_neg (by simp)]
    simp only [skipSpaces, List.dropWhile_cons, hspace, hslash, if_true, Bool.false_eq_true,
      if_false, Builder.beginElement?, Option.bind_eq_bind, Option.bind_some, hhead, hclear]
    exact congrArg (fun b => some (TagEnd.empty, rest, b))
      (append_afterText { b with tag := some tag } false _)
  | false =>
    have hclose : isSpace '>' = false := by decide
    simp only [Bool.false_eq_true, if_false, String.reduceToList, List.cons_append,
      List.nil_append]
    rw [startTag?, if_neg (by simp)]
    simp only [skipSpaces, List.dropWhile_cons, hclose, Bool.false_eq_true, if_false,
      Builder.beginElement?, Option.bind_eq_bind, Option.bind_some, hhead, hclear]
    rfl

/-- An element without contents, read back as it is written. -/
theorem element?_of_openTag {n : Nat} (hs : h.Sound outer) (hw : h.Writable) (hb : b.Ready)
    (hn : (h.openTag outer).length ≤ n) (hbudget : n ≤ b.budget)
    (houter : (outer.map Binding.short).Nodup) (hagree : Agree outer b.outerBindings)
    (isEmpty : Bool) :
    ∃ h' tag, SameHead h h' ∧
      element? limit (fuel + 1)
        (h.openTag outer ++ ((if isEmpty then " />".toList else ">".toList) ++ rest)) b =
          if isEmpty then some (rest, { b with tag := some tag }.append (.element h' []))
          else content? limit fuel rest (b.inside (h.qname h.uri h.name) h' [] tag false) := by
  have hu (u : List Char) (he : h.uri = some u) : u = xmlUri ∨ ∃ b ∈ h.bindings, b.uri = u :=
    Or.inr (uri_bound hs he)
  have hlegal := legal_label hs
  have hspace := @qname_space_ne_xmlns h h.uri h.name hw hu
  have hopen := openTag_eq hs
  have hlen : (writtenAll (h.written outer)).length ≤ n := by
    rw [hopen, List.length_append] at hn
    omega
  have hstop : Stops isNameChar (writtenAll (h.written outer) ++
      ((if isEmpty then " />".toList else ">".toList) ++ rest)) := by
    cases hw : h.written outer with
    | nil => cases isEmpty <;> simp [writtenAll] <;> decide
    | cons a as => simp [writtenAll, assignment]; decide
  have htag := @element?_tag limit fuel b _ _ hlegal hspace hstop
  generalize htagv : limit - ('<' :: (h.qname h.uri h.name).spell ++
    (writtenAll (h.written outer) ++
      ((if isEmpty then " />".toList else ">".toList) ++ rest))).length = start at htag
  have hcount := length_le_writtenAll (h.written outer)
  obtain ⟨k, hk⟩ : ∃ k, (writtenAll (h.written outer) ++
      ((if isEmpty then " />".toList else ">".toList) ++ rest)).length + 1 =
        (h.written outer).length + (k + 1) := by
    refine ⟨(writtenAll (h.written outer) ++
      ((if isEmpty then " />".toList else ">".toList) ++ rest)).length - (h.written outer).length,
      ?_⟩
    rw [List.length_append]
    omega
  obtain ⟨h', hh, hread⟩ := @startTag?_of_openTag limit k b h outer rest n hs hw hb hlen hbudget
    houter hagree isEmpty (h.qname h.uri h.name, start) rfl
  refine ⟨h', (h.qname h.uri h.name, start), hh, ?_⟩
  rw [hopen, List.append_assoc, htag, hk, hread]
  cases isEmpty <;> rfl

/-- A closing tag, read back as it is written. -/
theorem content?_closingTag {q : QName} (hq : q.Legal) :
    content? limit (fuel + 1) ("</".toList ++ q.spell ++ '>' :: rest) b =
      (b.endElement? q (limit - rest.length)).map fun b => (rest, b) := by
  have hclose : isSpace '>' = false := by decide
  have hstop : Stops isNameChar ('>' :: rest) := by
    simp
    decide
  have hread : closingTag? (q.spell ++ '>' :: rest) = some (q, rest) := by
    simp [closingTag?, qname?_spell hq hstop, skipSpaces, hclose]
  simp only [String.reduceToList, List.cons_append, List.nil_append]
  rw [content?]
  simp only [hread]

/-- Elements end with the children that they have. -/
theorem endElement?_inside (hb : b.Ready) (q : QName) (h : Head) (children : List Node)
    (tag : QName × Nat) (flag : Bool) (stop : Nat) :
    (b.inside q h children tag flag).endElement? q stop =
      some ({ b with tag := some tag }.append (.element { h with stop := stop } children)) := by
  have hclear := clearTag_of_ready hb (some tag) [] [] false
  have hattributes : (b.inside q h children tag flag).attributes = [] := hb.attributes
  have hresolve (bs : List Binding) :
      (b.inside q h children tag flag).resolveAttributes? bs = some [] := by
    simp [Builder.resolveAttributes?, hattributes]
  have hframes : (b.inside q h children tag flag).frames = ⟨q, h, children⟩ :: b.frames := rfl
  have htag : (b.inside q h children tag flag).tag = some tag := rfl
  simp only [Builder.endElement?, htag, hresolve, hframes, Option.bind_eq_bind, Option.bind_some,
    ne_eq, not_true_eq_false, if_false]
  have hleft : { (b.inside q h children tag flag).clearTag with frames := b.frames } =
      { b with tag := some tag, afterText := false } := hclear
  rw [hleft]
  exact congrArg some (append_afterText { b with tag := some tag } false _)

end Reading

end Marginalia.Xml
