import Marginalia.Proofs.Xml.Printed

/-! What is read is sound: names find their namespaces, and texts, comments and instructions could
be written again. -/

namespace Marginalia.Xml

/-! ### Legal characters -/

section Legal

variable {cs rest : List Char} {buf : Buffer} {c : Char}

theorem isLegal_of_numberedChar? {n : Option Nat} (h : numberedChar? n = some (.char c)) :
    isLegal c = true := by
  cases n with
  | none => cases h
  | some n =>
    simp only [numberedChar?] at h
    split at h
    · split at h
      · next hlegal =>
        obtain rfl := Reference.char.inj (Option.some.inj h)
        exact hlegal
      · cases h
    · cases h

theorem isLegal_of_predefined? {name : List Char} (h : predefined? name = some c) :
    isLegal c = true := by
  unfold predefined? at h
  split at h
  · obtain rfl := Option.some.inj h
    decide
  · split at h
    · obtain rfl := Option.some.inj h
      decide
    · split at h
      · obtain rfl := Option.some.inj h
        decide
      · split at h
        · obtain rfl := Option.some.inj h
          decide
        · split at h
          · obtain rfl := Option.some.inj h
            decide
          · cases h

/-- References lead to legal characters alone. -/
theorem isLegal_of_reference? (h : reference? cs = some (.char c, rest)) : isLegal c = true := by
  unfold reference? at h
  dsimp only at h
  split at h
  · obtain ⟨⟨y, tail⟩, hm, h⟩ := Option.bind_eq_some_iff.mp h
    obtain rfl := (Reference.ended?_eq_some h).2
    obtain ⟨z, hz, he⟩ := Option.map_eq_some_iff.mp hm
    obtain ⟨rfl, -⟩ := Prod.mk.inj he
    exact isLegal_of_numberedChar? hz
  · obtain ⟨⟨y, tail⟩, hm, h⟩ := Option.bind_eq_some_iff.mp h
    obtain rfl := (Reference.ended?_eq_some h).2
    obtain ⟨z, hz, he⟩ := Option.map_eq_some_iff.mp hm
    obtain ⟨rfl, -⟩ := Prod.mk.inj he
    exact isLegal_of_numberedChar? hz
  · obtain ⟨⟨y, tail⟩, hm, h⟩ := Option.bind_eq_some_iff.mp h
    obtain rfl := (Reference.ended?_eq_some h).2
    obtain ⟨⟨name, r⟩, -, he⟩ := Option.map_eq_some_iff.mp hm
    have hc := (Prod.mk.inj he).1
    split at hc
    · next d hd =>
      obtain rfl := Reference.char.inj hc
      exact isLegal_of_predefined? hd
    · cases hc

theorem legal_pushText (hbuf : ∀ d ∈ buf, isLegal d = true) (hc : isLegal c = true)
    (atEnd : Bool) : ∀ d ∈ Buffer.pushText buf c atEnd, isLegal d = true := by
  have hline : isLegal '\n' = true := by decide
  intro d hd
  unfold Buffer.pushText at hd
  split at hd
  · next b =>
    have hb : ∀ d ∈ b, isLegal d = true := fun d hd => hbuf d (List.mem_cons_of_mem _ hd)
    split at hd
    · simp only [List.mem_cons] at hd
      rcases hd with rfl | rfl | hd
      · exact hline
      · exact hline
      · exact hb d hd
    · split at hd
      · simp only [List.mem_cons] at hd
        rcases hd with rfl | rfl | hd
        · exact hc
        · exact hline
        · exact hb d hd
      · rcases List.mem_cons.mp hd with rfl | hd
        · exact hline
        · exact hb d hd
  · split at hd
    · rcases List.mem_cons.mp hd with rfl | hd
      · exact hline
      · exact hbuf d hd
    · rcases List.mem_cons.mp hd with rfl | hd
      · exact hc
      · exact hbuf d hd

theorem legal_sectionText {t : List Char} (ht : ∀ d ∈ t, isLegal d = true) :
    ∀ {buf : Buffer}, (∀ d ∈ buf, isLegal d = true) →
      ∀ d ∈ sectionText t buf, isLegal d = true := by
  induction t with
  | nil =>
    intro buf hbuf
    exact hbuf
  | cons c t ih =>
    intro buf hbuf
    have hc := ht c List.mem_cons_self
    exact ih (fun d hd => ht d (List.mem_cons_of_mem c hd)) (legal_pushText hbuf hc t.isEmpty)

theorem legal_push (hbuf : ∀ d ∈ buf, isLegal d = true) (hc : isLegal c = true)
    (written atEnd : Bool) : ∀ d ∈ buf.push written c atEnd, isLegal d = true := by
  cases written with
  | true =>
    intro d hd
    rcases List.mem_cons.mp hd with rfl | hd
    · exact hc
    · exact hbuf d hd
  | false => exact legal_pushText hbuf hc atEnd

end Legal

/-! ### Open elements -/

/-- The namespaces in force inside the innermost of some open elements. -/
def around : List Frame → List Binding
  | [] => []
  | fr :: _ => fr.head.bindings

/-- Open elements whose children so far are sound. -/
def SoundFrames : List Frame → Prop
  | [] => True
  | fr :: frs => fr.head.Sound (around frs) ∧ SoundIn fr.head.bindings fr.children ∧ SoundFrames frs

/-- A declaration that a tag may make. -/
structure Binding.Sound (x : Binding) : Prop where
  short : ∀ s, x.short = some s → IsName s ∧ s ≠ "xml".toList
  uri : x.uri ≠ xmlUri ∧ x.uri ≠ xmlnsUri

/-- A document whose parts so far are sound. -/
structure Builder.Sound (b : Builder) : Prop where
  top : SoundIn [] b.top
  frames : SoundFrames b.frames
  bindings : ∀ x ∈ b.bindings, x.Sound
  attributes : ∀ a ∈ b.attributes, a.1.Legal ∧ a.1.name ≠ "xmlns".toList
  tag : ∀ q p, b.tag = some (q, p) → q.Legal

namespace Builder

variable {b b' : Builder}

theorem outerBindings_eq (b : Builder) : b.outerBindings = around b.frames := by
  unfold outerBindings around
  cases b.frames <;> rfl

theorem bindingsInForce_eq (b : Builder) :
    b.bindingsInForce = inForce (around b.frames) b.bindings := by
  rw [← outerBindings_eq]
  rfl

/-- The children of the innermost open element stay sound. -/
theorem Sound.modifyChildren (h : b.Sound) {f : List Node → List Node}
    (hf : ∀ ns, SoundIn (around b.frames) ns → SoundIn (around b.frames) (f ns)) :
    (b.modifyChildren f).Sound := by
  obtain ⟨htop, hframes, hbindings, hattributes, htag⟩ := h
  unfold Builder.modifyChildren
  cases hfr : b.frames with
  | nil =>
    rw [hfr] at hf hframes
    exact ⟨hf b.top htop, hframes, hbindings, hattributes, htag⟩
  | cons fr frs =>
    rw [hfr] at hf hframes
    refine ⟨htop, ?_, hbindings, hattributes, htag⟩
    exact ⟨hframes.1, hf fr.children hframes.2.1, hframes.2.2⟩

theorem Sound.append (h : b.Sound) {n : Node} (hn : n.Sound (around b.frames)) :
    (b.append n).Sound := by
  have hmore := h.modifyChildren (f := (· ++ [n])) fun ns hns =>
    soundIn_append.mpr ⟨hns, by rw [SoundIn]; exact ⟨hn, by rw [SoundIn]; trivial⟩⟩
  exact ⟨hmore.top, hmore.frames, hmore.bindings, hmore.attributes, hmore.tag⟩

theorem soundIn_extendLast {outer : List Binding} {ns : List Node} {s : List Char}
    (h : SoundIn outer ns) (hs : ∀ c ∈ s, isLegal c = true) :
    SoundIn outer (extendLast s ns) := by
  unfold extendLast
  split
  · next t ht =>
    obtain ⟨ms, rfl⟩ := List.getLast?_eq_some_iff.mp ht
    obtain ⟨hms, hlast⟩ := soundIn_append.mp h
    rw [SoundIn, Node.Sound] at hlast
    rw [List.dropLast_concat]
    refine soundIn_append.mpr ⟨hms, ?_⟩
    rw [SoundIn, Node.Sound]
    refine ⟨fun c hc => ?_, hlast.2⟩
    rcases List.mem_append.mp hc with hc | hc
    · exact hlast.1 c hc
    · exact hs c hc
  · exact h

theorem Sound.appendText (h : b.Sound) {s : List Char} (hs : ∀ c ∈ s, isLegal c = true) :
    (b.appendText s).Sound := by
  unfold Builder.appendText
  split
  · exact h.modifyChildren fun ns hns => soundIn_extendLast hns hs
  · have hmore := h.append (n := .text s) (by rw [Node.Sound]; exact hs)
    exact ⟨hmore.top, hmore.frames, hmore.bindings, hmore.attributes, hmore.tag⟩

theorem Sound.addText (h : b.Sound) {s : List Char} (hs : ∀ c ∈ s, isLegal c = true) :
    (b.addText s).Sound := by
  unfold Builder.addText
  split
  · exact h
  · exact h.appendText hs

theorem Sound.clearTag (h : b.Sound) : b.clearTag.Sound :=
  ⟨h.top, h.frames, by simp [Builder.clearTag], by simp [Builder.clearTag], h.tag⟩

/-! ### Tags -/

/-- What an attribute of a name and a value comes to: a namespace under a short name or under none,
the namespace that is always in force, which is not noted, or an attribute of the element. -/
inductive AttributeStep (b : Builder) (q : QName) (value : List Char) : Builder → Prop
  | inForce : AttributeStep b q value b
  | named : ¬(q.name = "xml".toList ∧ value ≠ xmlUri) → value ≠ xmlUri → value ≠ xmlnsUri →
      AttributeStep b q value { b with bindings := b.bindings ++ [⟨some q.name, value⟩] }
  | unnamed : value ≠ xmlUri → value ≠ xmlnsUri →
      AttributeStep b q value { b with bindings := b.bindings ++ [⟨none, value⟩] }
  | plain : q.name ≠ "xmlns".toList →
      AttributeStep b q value { b with attributes := b.attributes ++ [(q, value)] }

theorem attributeStep_of_addAttribute? {q : QName} {raw : List Char}
    (h : b.addAttribute? q raw = some b') :
    ∃ nesting value, normalValue b.entities b.budget b.nesting raw [] = some (nesting, value) ∧
      AttributeStep { b with nesting := nesting } q value.reverse b' := by
  unfold Builder.addAttribute? at h
  obtain ⟨⟨nesting, value⟩, hvalue, h⟩ := Option.bind_eq_some_iff.mp h
  refine ⟨nesting, value, hvalue, ?_⟩
  dsimp only at h
  split at h
  · split at h
    · cases h
    · next hxmlns =>
      split at h
      · cases h
      · next hxml =>
        split at h
        · cases h
        · split at h
          · cases h
          · split at h
            · obtain rfl := Option.some.inj h
              exact .inForce
            · next hother =>
              obtain rfl := Option.some.inj h
              exact .named hxml hother hxmlns
  · split at h
    · split at h
      · cases h
      · next hother =>
        obtain rfl := Option.some.inj h
        exact .unnamed (not_or.mp hother).1 (not_or.mp hother).2
    · next hname =>
      obtain rfl := Option.some.inj h
      exact .plain hname

theorem AttributeStep.sound {q : QName} {value : List Char} (hstep : AttributeStep b q value b')
    (h : b.Sound) (hq : q.Legal) : b'.Sound := by
  cases hstep with
  | inForce => exact h
  | named hxml hother hxmlns =>
    have hnew : Binding.Sound ⟨some q.name, value⟩ := by
      refine ⟨fun s hs => ?_, hother, hxmlns⟩
      obtain rfl := Option.some.inj hs
      exact ⟨hq.name, fun he => hxml ⟨he, hother⟩⟩
    have hall := List.forall_mem_append.mpr ⟨h.bindings, List.forall_mem_singleton.mpr hnew⟩
    exact ⟨h.top, h.frames, hall, h.attributes, h.tag⟩
  | unnamed hother hxmlns =>
    have hnew : Binding.Sound ⟨none, value⟩ := ⟨fun s hs => (nomatch hs), hother, hxmlns⟩
    have hall := List.forall_mem_append.mpr ⟨h.bindings, List.forall_mem_singleton.mpr hnew⟩
    exact ⟨h.top, h.frames, hall, h.attributes, h.tag⟩
  | plain hname =>
    have hnew : (q, value).1.Legal ∧ (q, value).1.name ≠ "xmlns".toList := ⟨hq, hname⟩
    have hall := List.forall_mem_append.mpr ⟨h.attributes, List.forall_mem_singleton.mpr hnew⟩
    exact ⟨h.top, h.frames, h.bindings, hall, h.tag⟩

theorem Sound.addAttribute? (h : b.Sound) {q : QName} {raw : List Char} (hq : q.Legal)
    (hadd : b.addAttribute? q raw = some b') : b'.Sound := by
  obtain ⟨nesting, value, -, hstep⟩ := attributeStep_of_addAttribute? hadd
  exact hstep.sound ⟨h.top, h.frames, h.bindings, h.attributes, h.tag⟩ hq

/-- The namespaces in force at a tag are sound. -/
theorem sound_bindingsInForce (h : b.Sound) : ∀ x ∈ b.bindingsInForce, x.Sound := by
  intro x hx
  rw [bindingsInForce_eq] at hx
  rcases mem_inForce hx with hx | hx
  · exact h.bindings x hx
  · have hframes := h.frames
    cases hfr : b.frames with
    | nil =>
      rw [hfr] at hx
      cases hx
    | cons fr frs =>
      rw [hfr] at hx hframes
      exact ⟨fun s hs => hframes.1.shorts x hx s hs, hframes.1.uris x hx⟩

theorem resolveAttribute?_eq_some {bs : List Binding} {a : QName × List Char} {x : Attribute}
    (h : resolveAttribute? bs a = some x) :
    x.name = a.1.name ∧ ∀ u, x.uri = some u → u = xmlUri ∨ ∃ b ∈ bs, b.uri = u := by
  unfold resolveAttribute? at h
  split at h
  · obtain rfl := Option.some.inj h
    exact ⟨rfl, fun u hu => Or.inl (Option.some.inj hu).symm⟩
  · split at h
    · obtain rfl := Option.some.inj h
      exact ⟨rfl, fun u hu => (nomatch hu)⟩
    · next hne =>
      obtain ⟨uri, huri, rfl⟩ := Option.map_eq_some_iff.mp h
      refine ⟨rfl, fun u hu => Or.inr ?_⟩
      rw [resolve?_eq, if_neg hne] at huri
      split at huri
      · next v hv =>
        obtain ⟨b, hb, -, hbu⟩ := lookup_eq_some hv
        have hvu : some v = some u := (Option.some.inj huri).trans hu
        exact ⟨b, hb, hbu.trans (Option.some.inj hvu)⟩
      · rw [if_neg hne] at huri
        cases huri

theorem mem_of_mapM {α β : Type} {f : α → Option β} {as : List α} {bs : List β}
    (h : as.mapM f = some bs) : ∀ y ∈ bs, ∃ x ∈ as, f x = some y := by
  induction as generalizing bs with
  | nil =>
    obtain rfl := Option.some.inj h
    intro y hy
    cases hy
  | cons a as ih =>
    rw [List.mapM_cons] at h
    obtain ⟨y, hy, h⟩ := Option.bind_eq_some_iff.mp h
    obtain ⟨ys, hys, h⟩ := Option.bind_eq_some_iff.mp h
    obtain rfl := Option.some.inj h
    intro z hz
    rcases List.mem_cons.mp hz with rfl | hz
    · exact ⟨a, List.mem_cons_self, hy⟩
    · obtain ⟨x, hx, hfx⟩ := ih hys z hz
      exact ⟨x, List.mem_cons_of_mem a hx, hfx⟩

/-- An element that begins with a tag is sound in what is around it. -/
theorem Sound.head? (h : b.Sound) {q : QName} (hq : q.Legal) {start stop : Nat} {hd : Head}
    (hhead : b.head? q start stop = some hd) : hd.Sound (around b.frames) := by
  unfold Builder.head? at hhead
  obtain ⟨as, has, hhead⟩ := Option.bind_eq_some_iff.mp hhead
  obtain ⟨uri, huri, hhead⟩ := Option.bind_eq_some_iff.mp hhead
  obtain rfl := Option.some.inj hhead
  unfold resolveAttributes? at has
  obtain ⟨as', has', has⟩ := Option.bind_eq_some_iff.mp has
  split at has
  · next hdistinct =>
    obtain rfl := Option.some.inj has
    have hbs := sound_bindingsInForce h
    refine ⟨hq.name, ⟨b.bindings, bindingsInForce_eq b⟩, fun x hx => (hbs x hx).short,
      fun x hx => (hbs x hx).uri, ⟨q.space, huri⟩, fun a ha => ?_, fun a ha => ?_, hdistinct⟩
    · obtain ⟨x, hx, hxa⟩ := mem_of_mapM has' a ha
      obtain ⟨hlegal, hname⟩ := h.attributes x hx
      rw [(resolveAttribute?_eq_some hxa).1]
      exact ⟨hlegal.name, hname⟩
    · obtain ⟨x, -, hxa⟩ := mem_of_mapM has' a ha
      exact (resolveAttribute?_eq_some hxa).2
  · cases has

theorem Sound.beginElement? (h : b.Sound) {stop : Nat} {isEmpty : Bool}
    (hbegin : b.beginElement? stop isEmpty = some b') : b'.Sound := by
  unfold Builder.beginElement? at hbegin
  obtain ⟨⟨q, start⟩, htag, hbegin⟩ := Option.bind_eq_some_iff.mp hbegin
  obtain ⟨hd, hhead, hbegin⟩ := Option.bind_eq_some_iff.mp hbegin
  have hsound := h.head? (h.tag q start htag) hhead
  have hclear := h.clearTag
  dsimp only at hbegin
  split at hbegin
  · obtain rfl := Option.some.inj hbegin
    exact hclear.append (sound_element.mpr ⟨hsound, soundIn_nil _⟩)
  · obtain rfl := Option.some.inj hbegin
    exact ⟨hclear.top, ⟨hsound, soundIn_nil _, hclear.frames⟩, hclear.bindings,
      hclear.attributes, hclear.tag⟩

theorem Sound.endElement? (h : b.Sound) {q : QName} {stop : Nat}
    (hend : b.endElement? q stop = some b') : b'.Sound := by
  unfold Builder.endElement? at hend
  obtain ⟨t, htag, hend⟩ := Option.bind_eq_some_iff.mp hend
  obtain ⟨as, has, hend⟩ := Option.bind_eq_some_iff.mp hend
  split at hend
  · cases hend
  · next fr frs hfr =>
    split at hend
    · cases hend
    · obtain rfl := Option.some.inj hend
      have hframes := h.frames
      rw [hfr] at hframes
      obtain ⟨hhead, hchildren, hrest⟩ := hframes
      have hclear := h.clearTag
      have hleft : Builder.Sound { b.clearTag with frames := frs } :=
        ⟨hclear.top, hrest, hclear.bindings, hclear.attributes, hclear.tag⟩
      refine hleft.append (sound_element.mpr ⟨?_, hchildren⟩)
      exact ⟨hhead.name, hhead.bindings, hhead.shorts, hhead.uris, hhead.uri, hhead.attributes,
        hhead.attributeUris, hhead.distinct⟩

end Builder

/-! ### Reading -/

section Reading

variable {limit fuel : Nat} {cs r : List Char} {b b' : Builder}

theorem legal_of_attribute? {q : QName} {raw : List Char}
    (h : attribute? cs = some (q, raw, r)) : q.Legal := by
  unfold attribute? at h
  obtain ⟨⟨q', cs₁⟩, hq, h⟩ := Option.bind_eq_some_iff.mp h
  obtain ⟨cs₂, -, h⟩ := Option.bind_eq_some_iff.mp h
  obtain ⟨⟨v, cs₃⟩, -, h⟩ := Option.bind_eq_some_iff.mp h
  obtain ⟨rfl, -⟩ := Prod.mk.inj (Option.some.inj h)
  exact (legal_of_qname? hq).1

/-- How a start tag is read: attribute by attribute up to its end or that of the text. -/
inductive StartTagRead (limit : Nat) :
    List Char → Builder → TagEnd → List Char → Builder → Prop
  | missing (b : Builder) : StartTagRead limit [] b .missing [] b
  | empty {cs r : List Char} {b b' : Builder} : skipSpaces cs = '/' :: '>' :: r →
      b.beginElement? (limit - r.length) true = some b' → StartTagRead limit cs b .empty r b'
  | opened {cs r : List Char} {b b' : Builder} : skipSpaces cs = '>' :: r →
      b.beginElement? (limit - r.length) false = some b' → StartTagRead limit cs b .opened r b'
  | more {cs raw r₁ r : List Char} {q : QName} {e : TagEnd} {b b₁ b' : Builder} :
      attribute? (skipSpaces cs) = some (q, raw, r₁) → b.addAttribute? q raw = some b₁ →
      StartTagRead limit r₁ b₁ e r b' → StartTagRead limit cs b e r b'

theorem startTagRead_of_startTag? {e : TagEnd}
    (h : startTag? limit fuel cs b = some (e, r, b')) : StartTagRead limit cs b e r b' := by
  induction fuel generalizing cs b with
  | zero => simp [startTag?] at h
  | succ fuel ih =>
    rw [startTag?] at h
    split at h
    · next hnil =>
      subst hnil
      obtain ⟨rfl, rfl, rfl⟩ : TagEnd.missing = e ∧ [] = r ∧ b = b' := by simpa using h
      exact .missing b
    · split at h
      · cases h
      · next r₁ hr₁ =>
        split at h
        · next r₂ =>
          obtain ⟨b₁, hb₁, he⟩ := Option.map_eq_some_iff.mp h
          obtain ⟨rfl, rfl, rfl⟩ : TagEnd.empty = e ∧ r₂ = r ∧ b₁ = b' := by simpa using he
          exact .empty hr₁ hb₁
        · cases h
      · next r₁ hr₁ =>
        obtain ⟨b₁, hb₁, he⟩ := Option.map_eq_some_iff.mp h
        obtain ⟨rfl, rfl, rfl⟩ : TagEnd.opened = e ∧ r₁ = r ∧ b₁ = b' := by simpa using he
        exact .opened hr₁ hb₁
      · split at h
        · cases h
        · obtain ⟨⟨q, raw, r₁⟩, hattribute, h⟩ := Option.bind_eq_some_iff.mp h
          obtain ⟨b₁, hadd, h⟩ := Option.bind_eq_some_iff.mp h
          exact .more hattribute hadd (ih h)

theorem StartTagRead.sound {e : TagEnd} (h : StartTagRead limit cs b e r b') (hb : b.Sound) :
    b'.Sound := by
  induction h with
  | missing => exact hb
  | empty _ hbegin => exact hb.beginElement? hbegin
  | opened _ hbegin => exact hb.beginElement? hbegin
  | more hattribute hadd _ ih =>
    exact ih (hb.addAttribute? (legal_of_attribute? hattribute) hadd)

/-- A step of reading an element: its name and its tag, and what is read behind the tag. -/
inductive ElementStep (limit fuel : Nat) (cs : List Char) (b : Builder) (r : List Char)
    (b' : Builder) : Prop
  | opened {q : QName} {r₀ r₁ : List Char} {b₁ : Builder} :
      qname? (cs.drop 1) = some (q, r₀) →
      StartTagRead limit r₀ { b with tag := some (q, limit - cs.length), afterText := false }
        .opened r₁ b₁ →
      content? limit fuel r₁ b₁ = some (r, b') → ElementStep limit fuel cs b r b'
  | ended {q : QName} {e : TagEnd} {r₀ : List Char} :
      qname? (cs.drop 1) = some (q, r₀) → e ≠ .opened →
      StartTagRead limit r₀ { b with tag := some (q, limit - cs.length), afterText := false }
        e r b' → ElementStep limit fuel cs b r b'

theorem elementStep_of_element? (h : element? limit (fuel + 1) cs b = some (r, b')) :
    ElementStep limit fuel cs b r b' := by
  rw [element?] at h
  split at h
  · cases h
  · next q r₀ hq =>
    split at h
    · cases h
    · dsimp only at h
      split at h
      · cases h
      · next r₁ b₁ htag => exact .opened hq (startTagRead_of_startTag? htag) h
      · next e r₁ b₁ hne htag =>
        obtain ⟨rfl, rfl⟩ := Prod.mk.inj (Option.some.inj h)
        exact .ended hq (fun he => hne (by rw [he])) (startTagRead_of_startTag? htag)

/-- A step of reading the contents of an element: what stands first, and what is read after it. -/
inductive ContentStep (limit fuel : Nat) (b : Builder) (r : List Char) (b' : Builder) :
    List Char → Prop
  | ended : r = [] → b' = b → ContentStep limit fuel b r b' []
  /-- A comment or an instruction. -/
  | node {u r₁ : List Char} {n : Node} : n.isText = false → n.isElement = false →
      (∀ outer, n.Sound outer) → content? limit fuel r₁ (b.append n) = some (r, b') →
      ContentStep limit fuel b r b' (u ++ r₁)
  | cdata {t r₁ : List Char} : (∀ c ∈ t, isLegal c = true) →
      (∀ r, upTo? "]]>".toList (t ++ "]]>".toList ++ r) = some (t, r)) →
      content? limit fuel r₁ (b.appendText (sectionText t []).reverse) = some (r, b') →
      ContentStep limit fuel b r b' ("<![CDATA[".toList ++ t ++ "]]>".toList ++ r₁)
  | closing {u : List Char} {q : QName} : closingTag? u = some (q, r) →
      b.endElement? q (limit - r.length) = some b' →
      ContentStep limit fuel b r b' ("</".toList ++ u)
  | child {u r₁ : List Char} {b₁ : Builder} : element? limit fuel ('<' :: u) b = some (r₁, b₁) →
      content? limit fuel r₁ b₁ = some (r, b') → ContentStep limit fuel b r b' ('<' :: u)
  | run {u r₁ : List Char} {b₁ : Builder} : u ≠ [] → '<' ∉ u →
      Stops (fun c => decide (c ≠ '<')) r₁ → IsRun u = true →
      text? limit fuel u [] false b = some b₁ → content? limit fuel r₁ b₁ = some (r, b') →
      ContentStep limit fuel b r b' (u ++ r₁)

theorem contentStep_comment {r₀ r₁ : List Char} {n : Node}
    (hlead : Text.dropLead? "<!--".toList cs = some r₀) (hn : comment? r₀ = some (n, r₁))
    (h : content? limit fuel r₁ (b.append n) = some (r, b')) :
    ContentStep limit fuel b r b' cs := by
  obtain ⟨s, rfl, rfl, hs⟩ := comment?_eq_some hn
  rw [Text.dropLead?_eq_some.mp hlead, ← List.append_assoc]
  exact .node rfl rfl (fun outer => by rw [Node.Sound]; exact hs) h

theorem contentStep_section {r₀ r₁ t : List Char}
    (hlead : Text.dropLead? "<![CDATA[".toList cs = some r₀)
    (hup : upTo? "]]>".toList r₀ = some (t, r₁))
    (h : content? limit fuel r₁ (b.appendText (sectionText t []).reverse) = some (r, b')) :
    ContentStep limit fuel b r b' cs := by
  obtain ⟨rfl, hlegal, hlocal⟩ := upTo?_eq_some hup
  have hwhole := ContentStep.cdata hlegal hlocal h
  rw [Text.dropLead?_eq_some.mp hlead]
  simpa only [List.append_assoc] using hwhole

theorem contentStep_instruction {r₁ : List Char} {n : Node} (hn : instruction? cs = some (n, r₁))
    (h : content? limit fuel r₁ (b.append n) = some (r, b')) :
    ContentStep limit fuel b r b' cs := by
  obtain ⟨t, v, rfl, hi, u, rfl, -⟩ := instruction?_eq_some hn
  exact .node rfl rfl (fun outer => by rw [Node.Sound]; exact hi) h

/-- Text up to the next mark, of which there is some. -/
theorem contentStep_run {b₁ : Builder} (hnil : cs ≠ []) (hmark : ∀ t, cs ≠ '<' :: t)
    (hrun : IsRun (cs.takeWhile (· ≠ '<')) = true)
    (hb₁ : text? limit fuel (cs.takeWhile (· ≠ '<')) [] false b = some b₁)
    (h : content? limit fuel (cs.dropWhile (· ≠ '<')) b₁ = some (r, b')) :
    ContentStep limit fuel b r b' cs := by
  have hopen : '<' ∉ cs.takeWhile (· ≠ '<') := by
    intro hm
    simpa using of_mem_takeWhile '<' hm
  have hne : cs.takeWhile (· ≠ '<') ≠ [] := by
    obtain ⟨c, t, rfl⟩ := List.exists_cons_of_ne_nil hnil
    have hc : c ≠ '<' := by
      rintro rfl
      exact hmark t rfl
    simp [hc]
  have hstops := stops_dropWhile (fun c => decide (c ≠ '<')) cs
  have hwhole := ContentStep.run hne hopen hstops hrun hb₁ h
  rwa [List.takeWhile_append_dropWhile] at hwhole

theorem contentStep_of_content? (h : content? limit (fuel + 1) cs b = some (r, b')) :
    ContentStep limit fuel b r b' cs := by
  rw [content?.eq_def] at h
  dsimp only at h
  split at h
  · obtain ⟨rfl, rfl⟩ := Prod.mk.inj (Option.some.inj h)
    exact .ended rfl rfl
  · split at h
    · next r₀ hlead =>
      split at h
      · next n r₁ hn => exact contentStep_comment hlead hn h
      · cases h
    · split at h
      · next r₀ hlead =>
        split at h
        · next t r₁ hup => exact contentStep_section hlead hup h
        · cases h
      · cases h
  · split at h
    · next n r₁ hn => exact contentStep_instruction hn h
    · cases h
  · split at h
    · next q r₁ hclosing =>
      obtain ⟨b₁, hend, he⟩ := Option.map_eq_some_iff.mp h
      obtain ⟨rfl, rfl⟩ := Prod.mk.inj he
      exact .closing hclosing hend
    · cases h
  · cases h
  · split at h
    · next r₁ b₁ hb₁ => exact .child hb₁ h
    · cases h
  · next hnil _ _ _ _ hmark =>
    split at h
    · next hrun =>
      split at h
      · next b₁ hb₁ => exact contentStep_run hnil hmark hrun hb₁ h
      · cases h
    · cases h

/-- What each part of a document leaves sound when it is read with some fuel. -/
structure KeepsSound (fuel : Nat) : Prop where
  content : ∀ {limit cs b r b'}, b.Sound → content? limit fuel cs b = some (r, b') → b'.Sound
  element : ∀ {limit cs b r b'}, b.Sound → element? limit fuel cs b = some (r, b') → b'.Sound
  text : ∀ {limit cs text written b b'}, b.Sound → (∀ c ∈ cs, isLegal c = true) →
    (∀ c ∈ text, isLegal c = true) → text? limit fuel cs text written b = some b' → b'.Sound

theorem content?_sound (ih : KeepsSound fuel) (hb : b.Sound)
    (h : content? limit (fuel + 1) cs b = some (r, b')) : b'.Sound := by
  cases contentStep_of_content? h with
  | ended _ hb' => exact hb' ▸ hb
  | node _ _ hn hmore => exact ih.content (hb.append (hn _)) hmore
  | cdata hlegal _ hmore =>
    refine ih.content (hb.appendText fun c hc => ?_) hmore
    exact legal_sectionText hlegal (by simp) c (List.mem_reverse.mp hc)
  | closing _ hend => exact hb.endElement? hend
  | child hb₁ hmore => exact ih.content (ih.element hb hb₁) hmore
  | run _ _ _ hrun hb₁ hmore =>
    have hlegal := List.all_eq_true.mp (Bool.and_eq_true_iff.mp hrun).1
    exact ih.content (ih.text hb hlegal (by simp) hb₁) hmore

theorem element?_sound (ih : KeepsSound fuel) (hb : b.Sound)
    (h : element? limit (fuel + 1) cs b = some (r, b')) : b'.Sound := by
  have hnamed {q : QName} {r₀ : List Char} (hq : qname? (cs.drop 1) = some (q, r₀)) :
      Builder.Sound { b with tag := some (q, limit - cs.length), afterText := false } := by
    refine ⟨hb.top, hb.frames, hb.bindings, hb.attributes, fun q' p hq' => ?_⟩
    obtain ⟨rfl, -⟩ := Prod.mk.inj (Option.some.inj hq')
    exact (legal_of_qname? hq).1
  cases elementStep_of_element? h with
  | opened hq htag hmore => exact ih.content (htag.sound (hnamed hq)) hmore
  | ended hq _ htag => exact htag.sound (hnamed hq)

theorem text?_sound (ih : KeepsSound fuel) {text : Buffer} {written : Bool} (hb : b.Sound)
    (hcs : ∀ c ∈ cs, isLegal c = true) (ht : ∀ c ∈ text, isLegal c = true)
    (h : text? limit (fuel + 1) cs text written b = some b') : b'.Sound := by
  have hbuf : ∀ c ∈ text.reverse, isLegal c = true := fun c hc => ht c (List.mem_reverse.mp hc)
  have hrest {x : Reference} {r rest : List Char} (hcs : ∀ c ∈ '&' :: r, isLegal c = true)
      (hx : reference? r = some (x, rest)) : ∀ c ∈ rest, isLegal c = true := by
    obtain ⟨raw, rfl, -⟩ := reference?_eq_some hx
    intro c hc
    apply hcs c
    simp [hc]
  cases textStep_of_text? h with
  | ended hb' => exact hb' ▸ hb.addText hbuf
  | char hr hmore =>
    exact ih.text hb (hrest hcs hr) (legal_push ht (isLegal_of_reference? hr) _ _) hmore
  | @entity name r r' rest e inner b₁ hr _ _ hb₁ hmore =>
    have hadd := hb.addText hbuf
    have hinner := ih.content (b := { b.addText text.reverse with nesting := inner, tag := none })
      ⟨hadd.top, hadd.frames, hadd.bindings, hadd.attributes, fun q p hq => by cases hq⟩ hb₁
    have hnext : Builder.Sound { b₁ with nesting := b₁.nesting.leave, tag := b.tag } :=
      ⟨hinner.top, hinner.frames, hinner.bindings, hinner.attributes, hb.tag⟩
    exact ih.text hnext (hrest hcs hr) (by simp) hmore
  | plain _ hmore =>
    have hc := hcs _ List.mem_cons_self
    exact ih.text hb (fun d hd => hcs d (List.mem_cons_of_mem _ hd)) (legal_push ht hc _ _) hmore

/-- Reading keeps a document sound. -/
theorem keepsSound (fuel : Nat) : KeepsSound fuel := by
  induction fuel with
  | zero =>
    refine ⟨fun _ h => ?_, fun _ h => ?_, fun _ _ _ h => ?_⟩
    · simp [content?] at h
    · simp [element?] at h
    · simp [text?] at h
  | succ fuel ih => exact ⟨content?_sound ih, element?_sound ih, text?_sound ih⟩

end Reading

end Marginalia.Xml
