import Marginalia.Proofs.Xml.Passages

/-! Elements read back from where they are printed: the same names, attributes and order, and the
text of each element that holds text alone. -/

namespace Marginalia.Xml

open Text (SameWords IsGap)

/-! ### What a document is compared by -/

/-- An element as documents are compared by: its name, its attributes, its text and the elements
in it. -/
inductive Outline where
  | mk (uri : Option (List Char)) (name : List Char) (attributes : List Attribute)
    (text : List Char) (children : List Outline)

/-- The text of the outermost element of an outline. -/
def Outline.text : Outline → List Char
  | .mk _ _ _ text _ => text

mutual
/-- The outline of an element whose text is taken in some way; there is none of another node. -/
def Node.outline (text : List Node → List Char) : Node → List Outline
  | .element h children =>
    [⟨h.uri, h.name, h.attributes, text children, outlinesIn text children⟩]
  | _ => []
/-- The outlines of the elements among nodes. -/
def outlinesIn (text : List Node → List Char) : List Node → List Outline
  | [] => []
  | n :: ns => n.outline text ++ outlinesIn text ns
end

/-- The text directly inside an element, up to white space. -/
def wholeText (children : List Node) : List Char := Text.collapse (textIn children)

/-- The same where an element holds text alone. -/
def loneText (children : List Node) : List Char :=
  if children.all Node.isText then wholeText children else []

section Outline

variable {text : List Node → List Char} {ns ms : List Node}

@[simp] theorem outlinesIn_nil (text : List Node → List Char) : outlinesIn text [] = [] := by
  rw [outlinesIn]

theorem outlinesIn_append (ns ms : List Node) :
    outlinesIn text (ns ++ ms) = outlinesIn text ns ++ outlinesIn text ms := by
  induction ns with
  | nil => simp
  | cons n ns ih => rw [List.cons_append, outlinesIn, outlinesIn, ih, List.append_assoc]

theorem outline_of_isText {n : Node} (h : n.isText = true) : n.outline text = [] := by
  cases n with
  | text s => rw [Node.outline]; simp
  | element h ms => cases h
  | comment s => cases h
  | instruction t v => cases h

/-- Text does not matter to the elements beside it. -/
theorem outlinesIn_others (ns : List Node) : outlinesIn text (others ns) = outlinesIn text ns := by
  induction ns with
  | nil => rfl
  | cons n ns ih =>
    have hcons : others (n :: ns) = if n.isText then others ns else n :: others ns := by
      simp only [others, List.filter_cons]
      cases n.isText <;> rfl
    rw [hcons, outlinesIn]
    split
    · next h => rw [outline_of_isText h, ih, List.nil_append]
    · rw [outlinesIn, ih]

theorem Grown.outlines {s : List Char} (h : Grown ns ms s) :
    outlinesIn text ms = outlinesIn text ns := by
  rw [← outlinesIn_others, h.others, outlinesIn_others]

theorem outlinesIn_of_texts (h : ns.all Node.isText = true) : outlinesIn text ns = [] := by
  have hnone : others ns = [] := by
    rw [others, List.filter_eq_nil_iff]
    intro n hn
    simpa using List.all_eq_true.mp h n hn
  rw [← outlinesIn_others, hnone, outlinesIn_nil]

end Outline

/-! ### Nodes that can be printed -/

mutual
/-- A node with legal texts, inside of which names have their namespaces. -/
def Node.Sound (outer : List Binding) : Node → Prop
  | .element h children => h.Sound outer ∧ SoundIn h.bindings children
  | .text s => ∀ c ∈ s, isLegal c = true
  | .comment s => IsCommentText s
  | .instruction t v => IsInstruction t v
def SoundIn (outer : List Binding) : List Node → Prop
  | [] => True
  | n :: ns => n.Sound outer ∧ SoundIn outer ns
end

/-- A node among some or anywhere below them. -/
inductive Within (n : Node) : List Node → Prop
  | here {ns : List Node} : n ∈ ns → Within n ns
  | inside {h : Head} {children ns : List Node} : .element h children ∈ ns → Within n children →
      Within n ns

/-- The text that an element is printed with stands for the text that it holds. -/
def Shown (limit : Nat) (es : List Entity) (source : List Char) (h : Head)
    (children : List Node) : Prop :=
  ∃ s, Passage limit es (elementText source h children) s ∧ Text.collapse s = wholeText children

/-- Nodes that come through printing. -/
structure Printable (limit : Nat) (es : List Entity) (source : List Char) (ns : List Node) :
    Prop where
  heads : ∀ h children, Within (.element h children) ns → h.Writable
  instructions : ∀ t v, Within (.instruction t v) ns → t = "xml".toList → v = none
  shown : ∀ h children, Within (.element h children) ns → children.all Node.isText = true →
    Shown limit es source h children

section Printable

variable {limit : Nat} {es : List Entity} {source : List Char} {outer : List Binding}
  {ns ms : List Node} {n : Node} {h : Head} {children : List Node}

theorem Within.mono (hn : Within n ns) (hsub : ns ⊆ ms) : Within n ms := by
  cases hn with
  | here hm => exact .here (hsub hm)
  | inside hm hw => exact .inside (hsub hm) hw

theorem sound_element :
    (Node.element h children).Sound outer ↔ h.Sound outer ∧ SoundIn h.bindings children := by
  rw [Node.Sound]

theorem soundIn_nil (outer : List Binding) : SoundIn outer [] := by
  rw [SoundIn]
  trivial

theorem sound_of_mem (hs : SoundIn outer ns) (hn : n ∈ ns) : n.Sound outer := by
  induction ns with
  | nil => cases hn
  | cons m ns ih =>
    rw [SoundIn] at hs
    rcases List.mem_cons.mp hn with rfl | hn
    · exact hs.1
    · exact ih hs.2 hn

/-- What is below sound nodes is sound. -/
theorem Within.sound (hn : Within n ns) :
    ∀ {outer}, SoundIn outer ns → ∃ outer', n.Sound outer' := by
  induction hn with
  | here hm => exact fun hs => ⟨_, sound_of_mem hs hm⟩
  | inside hm _ ih => exact fun hs => ih (sound_element.mp (sound_of_mem hs hm)).2

theorem soundIn_append : SoundIn outer (ns ++ ms) ↔ SoundIn outer ns ∧ SoundIn outer ms := by
  induction ns with
  | nil => simp [SoundIn]
  | cons n ns ih => rw [List.cons_append, SoundIn, SoundIn, ih, and_assoc]

theorem Printable.mono (h : Printable limit es source ms) (hsub : ns ⊆ ms) :
    Printable limit es source ns :=
  ⟨fun hd cs hw => h.heads hd cs (hw.mono hsub), fun t v hw => h.instructions t v (hw.mono hsub),
    fun hd cs hw => h.shown hd cs (hw.mono hsub)⟩

theorem Printable.below (hp : Printable limit es source ns) (hm : .element h children ∈ ns) :
    Printable limit es source children :=
  ⟨fun hd cs hw => hp.heads hd cs (.inside hm hw),
    fun t v hw => hp.instructions t v (.inside hm hw),
    fun hd cs hw => hp.shown hd cs (.inside hm hw)⟩

end Printable

/-! ### The text of an element -/

/-- What is printed between the tags of an element; nothing where it has one tag alone. -/
def Layout.inner (o : Layout) (level : Nat) (h : Head) (children : List Node) : List Char :=
  if children.all Node.isText then
    if o.sameLine then elementText o.source h children
    else '\n' :: indentText (level + 1) (elementText o.source h children) ++
      '\n' :: indentation level
  else '\n' :: o.nodes (level + 1) h.bindings children ++ indentation level

def Head.closingTag (h : Head) : List Char := "</".toList ++ h.label ++ ['>']

/-- An element as it is printed, without the indentation before it and the line end after it. -/
def Layout.element (o : Layout) (level : Nat) (outer : List Binding) (h : Head)
    (children : List Node) : List Char :=
  if children.all Node.isText ∧ elementText o.source h children = [] then
    h.openTag outer ++ " />".toList
  else h.openTag outer ++ (">".toList ++ (o.inner level h children ++ h.closingTag))

theorem node_element (o : Layout) (level : Nat) (outer : List Binding) (h : Head)
    (children : List Node) :
    o.node level outer (.element h children) =
      indentation level ++ o.element level outer h children ++ ['\n'] := by
  rw [Layout.node]
  unfold Layout.element Layout.inner Layout.closedElement Head.closingTag
  cases hall : children.all Node.isText with
  | false => simp
  | true =>
    by_cases ht : elementText o.source h children = []
    · simp [ht]
    · cases o.sameLine <;> simp [ht]

theorem node_comment (o : Layout) (level : Nat) (outer : List Binding) (s : List Char) :
    o.node level outer (.comment s) =
      indentation level ++ ("<!--".toList ++ s ++ "-->".toList) ++ ['\n'] := by
  rw [Layout.node]
  simp

theorem node_instruction (o : Layout) (level : Nat) (outer : List Binding) (t : List Char)
    (v : Option (List Char)) :
    o.node level outer (.instruction t v) =
      indentation level ++ writtenInstruction t v ++ ['\n'] := by
  cases v <;> simp [Layout.node, writtenInstruction]

/-! ### Steps of reading what is printed -/

section Steps

variable {limit stop fuel : Nat} {es es' : List Entity} {b : Builder} {q : QName} {hd : Head}
  {cs : List Node} {tag : QName × Nat} {flag : Bool} {w rest tail : List Char}

theorem append_inside (b : Builder) (q : QName) (hd : Head) (cs : List Node)
    (tag tag' : QName × Nat) (flag : Bool) (n : Node) :
    Builder.append { b.inside q hd cs tag flag with tag := some tag' } n =
      b.inside q hd (cs ++ [n]) tag' false := rfl

theorem ample_iff {length : Nat} : Ample limit length fuel ↔
    length + 10 * (limit + 3) + 2 ≤ fuel := by
  simp only [Ample, fuelFor, Nat.sub_zero]

/-- White space inside an element is read as text of it. -/
theorem content?_filler (hw : IsFiller w) (hes : SameEntities es es') (hb : b.entities = es')
    (hn : b.nesting = .none) (hj : Joined cs flag)
    (htail : Stops (fun c => decide (c ≠ '<')) tail) (hfuel : Ample limit (w ++ tail).length fuel) :
    ∃ fuel' cs' flag' g, content? stop fuel (w ++ tail) (b.inside q hd cs tag flag) =
        content? stop fuel' tail (b.inside q hd cs' tag flag') ∧
      Ample limit tail.length fuel' ∧ Joined cs' flag' ∧ Grown cs cs' g ∧ IsGap g := by
  have hpassage : Passage limit es w w := by
    have hnone : Passage limit es [] [] := .nil
    have h := hnone.between hw (by simp [IsFiller] : IsFiller [])
    simpa using h
  obtain ⟨fuel', cs', flag', g, hread, hfuel', hj', hg, hsame⟩ :=
    @Passage.content? limit es w w hpassage es' stop fuel b q hd cs tag flag tail hes hb hn hj htail
      hfuel
  exact ⟨fuel', cs', flag', g, hread, hfuel', hj', hg, hsame.isGap hw.isGap⟩

theorem content?_comment {s : List Char} (hs : IsCommentText s) :
    content? stop (fuel + 1) ("<!--".toList ++ s ++ "-->".toList ++ rest) b =
      content? stop fuel rest (b.append (.comment s)) := by
  have hlead : Text.dropLead? "<!--".toList ("<!--".toList ++ s ++ "-->".toList ++ rest) =
      some (s ++ "-->".toList ++ rest) := by
    simp only [List.append_assoc]
    exact dropLead?_self _ _
  have hread := hs rest
  obtain ⟨r, hr⟩ : ∃ r, "<!--".toList ++ s ++ "-->".toList ++ rest = '<' :: '!' :: r := by
    refine ⟨"--".toList ++ s ++ "-->".toList ++ rest, ?_⟩
    simp only [String.reduceToList, List.cons_append, List.nil_append]
  rw [hr] at hlead ⊢
  rw [content?]
  simp only [hlead, hread]

theorem content?_instruction {t : List Char} {v : Option (List Char)} (h : IsInstruction t v)
    (hxml : t = "xml".toList → v = none) :
    content? stop (fuel + 1) (writtenInstruction t v ++ rest) b =
      content? stop fuel rest (b.append (.instruction t v)) := by
  have hread := instruction?_written h hxml rest
  obtain ⟨r, hr⟩ : ∃ r, writtenInstruction t v ++ rest = '<' :: '?' :: r := by
    cases v with
    | none => exact ⟨t ++ "?>".toList ++ rest, by simp [writtenInstruction]⟩
    | some v => exact ⟨t ++ ' ' :: v ++ "?>".toList ++ rest, by simp [writtenInstruction]⟩
  rw [hr] at hread ⊢
  rw [content?]
  simp only [hread]

/-- A tag that begins with a name is the tag of an element. -/
theorem content?_openTag {outer : List Binding} {h : Head} (hs : h.Sound outer) :
    content? stop (fuel + 1) (h.openTag outer ++ rest) b =
      match element? stop fuel (h.openTag outer ++ rest) b with
      | some (r, b) => content? stop fuel r b
      | none => none := by
  have hlegal := legal_label hs
  obtain ⟨c, t, hct, hc⟩ := exists_spell_cons hlegal
  obtain ⟨r, hr⟩ : ∃ r, h.openTag outer ++ rest = '<' :: c :: r := by
    refine ⟨t ++ writtenAll (h.written outer) ++ rest, ?_⟩
    rw [openTag_eq hs, hct]
    simp only [List.cons_append, List.append_assoc]
  have hbang : c ≠ '!' := by
    rintro rfl
    exact absurd hc (by decide)
  have hquery : c ≠ '?' := by
    rintro rfl
    exact absurd hc (by decide)
  have hslash : c ≠ '/' := by
    rintro rfl
    exact absurd hc (by decide)
  rw [hr, content?]
  -- the other cases of the definition ask for another sign after the mark
  all_goals first | rfl | (intros; simp_all)

end Steps

/-! ### Elements and nodes -/

/-- A builder that can take in a text of a size with some entities. -/
structure Builder.Reads (es : List Entity) (size : Nat) (b : Builder) : Prop where
  entities : SameEntities es b.entities
  ready : b.Ready
  budget : size ≤ b.budget

/-- Printed nodes are read inside an element with their outlines, and with white space around
them. -/
def NodesRead (limit : Nat) (es : List Entity) (o : Layout) (level : Nat) (outer : List Binding)
    (ns : List Node) : Prop :=
  ∀ (stop fuel size : Nat) (b : Builder) (q : QName) (hd : Head) (cs : List Node)
    (tag : QName × Nat) (flag : Bool) (w w' tail : List Char),
    b.Reads es size → (o.nodes level outer ns).length ≤ size → Agree outer hd.bindings →
    Joined cs flag → IsFiller w → IsFiller w' → Stops (fun c => decide (c ≠ '<')) tail →
    Ample limit (w ++ (o.nodes level outer ns ++ (w' ++ tail))).length fuel →
    ∃ fuel' cs' tag' flag' g,
      content? stop fuel (w ++ (o.nodes level outer ns ++ (w' ++ tail)))
        (b.inside q hd cs tag flag) = content? stop fuel' tail (b.inside q hd cs' tag' flag') ∧
      Ample limit tail.length fuel' ∧ Joined cs' flag' ∧ textIn cs' = textIn cs ++ g ∧ IsGap g ∧
      outlinesIn wholeText cs' = outlinesIn wholeText cs ++ outlinesIn loneText ns

/-- A printed node is read inside an element as a node of the same outline. -/
def NodeRead (limit : Nat) (es : List Entity) (outer : List Binding) (core : List Char)
    (n : Node) : Prop :=
  ∀ (stop fuel size : Nat) (b : Builder) (q : QName) (hd : Head) (cs : List Node)
    (tag : QName × Nat) (flag : Bool) (rest : List Char),
    b.Reads es size → core.length ≤ size → Agree outer hd.bindings →
    Ample limit (core ++ rest).length (fuel + 1) →
    ∃ m tag', textIn [m] = [] ∧ outlinesIn wholeText [m] = n.outline loneText ∧
      content? stop (fuel + 1) (core ++ rest) (b.inside q hd cs tag flag) =
        content? stop fuel rest (b.inside q hd (cs ++ [m]) tag' false)

/-- The nodes read in an element tell of what its children do. -/
structure ReadAs (children cs : List Node) : Prop where
  text : wholeText cs = loneText children
  outlines : outlinesIn wholeText cs = outlinesIn loneText children

/-- What is printed between the tags of an element is read up to its closing tag. -/
def InnerRead (limit : Nat) (es : List Entity) (h : Head) (children : List Node)
    (inner : List Char) : Prop :=
  ∀ (stop fuel size : Nat) (b : Builder) (q : QName) (h' : Head) (tag : QName × Nat)
    (tail : List Char), b.Reads es size → inner.length ≤ size → SameHead h h' →
    Stops (fun c => decide (c ≠ '<')) tail → Ample limit (inner ++ tail).length fuel →
    ∃ fuel' cs tag' flag',
      content? stop fuel (inner ++ tail) (b.inside q h' [] tag false) =
        content? stop fuel' tail (b.inside q h' cs tag' flag') ∧
      Ample limit tail.length fuel' ∧ ReadAs children cs

section Elements

variable {limit : Nat} {es : List Entity} {o : Layout} {level : Nat} {outer : List Binding}
  {ns : List Node} {n : Node} {h : Head} {children : List Node}

theorem Builder.Reads.inside {size : Nat} {b : Builder} (hb : b.Reads es size) (q : QName)
    (hd : Head) (cs : List Node) (tag : QName × Nat) (flag : Bool) :
    (b.inside q hd cs tag flag).Reads es size :=
  ⟨hb.entities, ⟨hb.ready.bindings, hb.ready.attributes, hb.ready.nesting⟩, hb.budget⟩

theorem isFiller_append {w w' : List Char} (hw : IsFiller w) (hw' : IsFiller w') :
    IsFiller (w ++ w') :=
  List.forall_mem_append.mpr ⟨hw, hw'⟩

theorem isFiller_indentation (level : Nat) : IsFiller (indentation level) := by
  intro c hc
  obtain rfl := List.eq_of_mem_replicate hc
  decide

theorem isFiller_line : IsFiller ['\n'] := by
  intro c hc
  obtain rfl := List.mem_singleton.mp hc
  decide

theorem nodesRead_nil : NodesRead limit es o level outer [] := by
  intro stop fuel size b q hd cs tag flag w w' tail hb hsize hagree hj hw hw' htail hfuel
  have hnodes : o.nodes level outer [] = [] := by rw [Layout.nodes]
  rw [hnodes, List.nil_append, ← List.append_assoc] at hfuel ⊢
  obtain ⟨fuel', cs', flag', g, hread, hfuel', hj', hg, hgap⟩ :=
    @content?_filler limit stop fuel es b.entities b q hd cs tag flag (w ++ w') tail
      (isFiller_append hw hw') hb.entities rfl hb.ready.nesting hj htail hfuel
  refine ⟨fuel', cs', tag, flag', g, hread, hfuel', hj', hg.text, hgap, ?_⟩
  rw [hg.outlines, outlinesIn_nil, List.append_nil]

/-- Nodes are read one after another. -/
theorem nodesRead_cons {core : List Char}
    (hnode : o.node level outer n = indentation level ++ core ++ ['\n'])
    (hopen : ∃ t, core = '<' :: t) (hn : NodeRead limit es outer core n)
    (hns : NodesRead limit es o level outer ns) : NodesRead limit es o level outer (n :: ns) := by
  intro stop fuel size b q hd cs tag flag w w' tail hb hsize hagree hj hw hw' htail hfuel
  have hnodes : o.nodes level outer (n :: ns) =
      indentation level ++ (core ++ (['\n'] ++ o.nodes level outer ns)) := by
    rw [Layout.nodes, hnode]
    simp only [List.append_assoc]
  have htext : w ++ (o.nodes level outer (n :: ns) ++ (w' ++ tail)) =
      (w ++ indentation level) ++
        (core ++ (['\n'] ++ (o.nodes level outer ns ++ (w' ++ tail)))) := by
    rw [hnodes]
    simp only [List.append_assoc]
  have hstops : Stops (fun c => decide (c ≠ '<'))
      (core ++ (['\n'] ++ (o.nodes level outer ns ++ (w' ++ tail)))) := by
    obtain ⟨t, rfl⟩ := hopen
    simp
  have hcore : core.length ≤ size ∧ (o.nodes level outer ns).length ≤ size := by
    rw [hnodes] at hsize
    simp only [List.length_append] at hsize
    omega
  rw [htext] at hfuel ⊢
  obtain ⟨fuel₁, cs₁, flag₁, g₁, hread₁, hfuel₁, hj₁, hg₁, hgap₁⟩ :=
    @content?_filler limit stop fuel es b.entities b q hd cs tag flag (w ++ indentation level)
      _ (isFiller_append hw (isFiller_indentation level)) hb.entities rfl hb.ready.nesting hj
      hstops hfuel
  obtain ⟨k, rfl⟩ : ∃ k, fuel₁ = k + 1 := ⟨fuel₁ - 1, by rw [ample_iff] at hfuel₁; omega⟩
  obtain ⟨m, tag₂, hm, hout, hread₂⟩ :=
    hn stop k size b q hd cs₁ tag flag₁ _ hb hcore.1 hagree hfuel₁
  have hfuel₂ : Ample limit (['\n'] ++ (o.nodes level outer ns ++ (w' ++ tail))).length k := by
    obtain ⟨t, rfl⟩ := hopen
    rw [ample_iff] at hfuel₁ ⊢
    simp only [List.length_append, List.length_cons] at hfuel₁ ⊢
    omega
  obtain ⟨fuel', cs', tag', flag', g, hread, hfuel', hj', hg, hgap, houtlines⟩ :=
    hns stop k size b q hd (cs₁ ++ [m]) tag₂ false ['\n'] w' tail hb hcore.2 hagree (joined_false _)
      isFiller_line hw' htail hfuel₂
  refine ⟨fuel', cs', tag', flag', g₁ ++ g, ?_, hfuel', hj', ?_, hgap₁.append hgap, ?_⟩
  · rw [hread₁, hread₂, hread]
  · rw [hg, textIn_append, hm, hg₁.text, List.append_nil, List.append_assoc]
  · rw [houtlines, outlinesIn_append, hg₁.outlines, hout, outlinesIn, List.append_assoc]

theorem nodeRead_comment {s : List Char} (hs : IsCommentText s) :
    NodeRead limit es outer ("<!--".toList ++ s ++ "-->".toList) (.comment s) := by
  intro stop fuel size b q hd cs tag flag rest hb hsize hagree hfuel
  refine ⟨.comment s, tag, rfl, ?_, content?_comment hs⟩
  rw [outlinesIn, Node.outline, Node.outline]
  all_goals simp

theorem nodeRead_instruction {t : List Char} {v : Option (List Char)} (h : IsInstruction t v)
    (hxml : t = "xml".toList → v = none) :
    NodeRead limit es outer (writtenInstruction t v) (.instruction t v) := by
  intro stop fuel size b q hd cs tag flag rest hb hsize hagree hfuel
  refine ⟨.instruction t v, tag, rfl, ?_, content?_instruction h hxml⟩
  rw [outlinesIn, Node.outline, Node.outline]
  all_goals simp

/-- An element is read from its tag on to its closing tag, if what is between them is read. -/
theorem element?_closed {stop fuel size : Nat} {b : Builder} {inner rest : List Char}
    (hs : h.Sound outer) (hw : h.Writable) (houter : (outer.map Binding.short).Nodup)
    (hinner : InnerRead limit es h children inner) (hb : b.Reads es size)
    (hagree : Agree outer b.outerBindings)
    (hsize : (h.openTag outer ++ (">".toList ++ (inner ++ h.closingTag))).length ≤ size)
    (hfuel : Ample limit
      (h.openTag outer ++ (">".toList ++ (inner ++ (h.closingTag ++ rest)))).length (fuel + 1)) :
    ∃ h' cs tag, SameHead h h' ∧ ReadAs children cs ∧
      element? stop fuel (h.openTag outer ++ (">".toList ++ (inner ++ (h.closingTag ++ rest)))) b =
        some (rest, { b with tag := some tag }.append (.element h' cs)) := by
  have hlen : (h.openTag outer).length ≤ size ∧ inner.length ≤ size := by
    simp only [List.length_append] at hsize
    omega
  have hstops : Stops (fun c => decide (c ≠ '<')) (h.closingTag ++ rest) := by
    simp [Head.closingTag]
  obtain ⟨k, rfl⟩ : ∃ k, fuel = k + 1 := ⟨fuel - 1, by rw [ample_iff] at hfuel; omega⟩
  obtain ⟨h', tag, hsame, hopen⟩ := @element?_of_openTag stop k b h outer
    (inner ++ (h.closingTag ++ rest)) size hs hw hb.ready hlen.1 hb.budget houter hagree false
  simp only [Bool.false_eq_true, if_false] at hopen
  have hfuel' : Ample limit (inner ++ (h.closingTag ++ rest)).length k := by
    have hpos : 1 ≤ (h.openTag outer).length := by
      rw [openTag_eq hs, List.cons_append, List.length_cons]
      omega
    have hclose : ">".toList.length = 1 := by decide
    rw [ample_iff] at hfuel ⊢
    rw [List.length_append, List.length_append, hclose] at hfuel
    omega
  obtain ⟨fuel₁, cs, tag', flag', hread, hfuel₁, htold⟩ :=
    hinner stop k size b (h.qname h.uri h.name) h' tag _ hb hlen.2 hsame hstops hfuel'
  obtain ⟨k₁, rfl⟩ : ∃ k, fuel₁ = k + 1 := ⟨fuel₁ - 1, by rw [ample_iff] at hfuel₁; omega⟩
  have hlegal := legal_label hs
  have hclosing : h.closingTag ++ rest =
      "</".toList ++ (h.qname h.uri h.name).spell ++ '>' :: rest := by
    rw [Head.closingTag, Head.label, spell_qname]
    simp only [List.append_assoc, List.singleton_append]
  refine ⟨{ h' with stop := stop - rest.length }, cs, tag',
    ⟨hsame.uri, hsame.name, hsame.attributes, hsame.bindings⟩, htold, ?_⟩
  rw [hopen, hread, hclosing, content?_closingTag hlegal, endElement?_inside hb.ready]
  rfl

/-- An element without children is read from its tag alone. -/
theorem element?_selfClosed {stop fuel size : Nat} {b : Builder} {rest : List Char}
    (hs : h.Sound outer) (hw : h.Writable) (houter : (outer.map Binding.short).Nodup)
    (hb : b.Reads es size) (hagree : Agree outer b.outerBindings)
    (hsize : (h.openTag outer ++ " />".toList).length ≤ size)
    (hfuel : Ample limit (h.openTag outer ++ (" />".toList ++ rest)).length (fuel + 1)) :
    ∃ h' tag, SameHead h h' ∧
      element? stop fuel (h.openTag outer ++ (" />".toList ++ rest)) b =
        some (rest, { b with tag := some tag }.append (.element h' [])) := by
  obtain ⟨k, rfl⟩ : ∃ k, fuel = k + 1 := ⟨fuel - 1, by rw [ample_iff] at hfuel; omega⟩
  rw [List.length_append] at hsize
  obtain ⟨h', tag, hsame, hopen⟩ := @element?_of_openTag stop k b h outer rest size hs hw
    hb.ready (by omega) hb.budget houter hagree true
  exact ⟨h', tag, hsame, by simpa only [if_true] using hopen⟩

/-- The text of an element is read between its tags. -/
theorem passage_inner (hall : children.all Node.isText = true)
    (hshown : Shown limit es o.source h children) :
    ∃ s, Passage limit es (o.inner level h children) s ∧
      Text.collapse s = wholeText children := by
  obtain ⟨s, hpassage, hs⟩ := hshown
  unfold Layout.inner
  rw [if_pos hall]
  split
  · exact ⟨s, hpassage, hs⟩
  · obtain ⟨s', hspaced, hs'⟩ := hpassage.spaced (k := 4 * (level + 1))
    have hw : IsFiller ('\n' :: indentation (level + 1)) :=
      isFiller_append isFiller_line (isFiller_indentation (level + 1))
    have hw' : IsFiller ('\n' :: indentation level) :=
      isFiller_append isFiller_line (isFiller_indentation level)
    refine ⟨'\n' :: indentation (level + 1) ++ s' ++ '\n' :: indentation level, ?_, ?_⟩
    · rw [indentText_eq]
      exact hspaced.between hw hw'
    · rw [Text.collapse_between hw.isGap hw'.isGap, hs'.collapse, hs]

theorem innerRead_text (hall : children.all Node.isText = true)
    (hshown : Shown limit es o.source h children) :
    InnerRead limit es h children (o.inner level h children) := by
  intro stop fuel size b q h' tag tail hb hsize hsame htail hfuel
  obtain ⟨s, hpassage, hcollapse⟩ := @passage_inner limit es o level h children hall hshown
  obtain ⟨fuel', cs, flag', s', hread, hfuel', -, hg, hs'⟩ := @Passage.content? limit es _ s
    hpassage b.entities stop fuel b q h' [] tag false _ hb.entities rfl hb.ready.nesting
    (joined_false _) htail hfuel
  have htext : textIn cs = s' := hg.text
  refine ⟨fuel', cs, tag, flag', hread, hfuel', ?_, ?_⟩
  · rw [wholeText, htext, hs'.collapse, hcollapse, loneText, if_pos hall]
  · rw [hg.outlines, outlinesIn_nil, outlinesIn_of_texts hall]

theorem innerRead_nodes (hall : children.all Node.isText = false)
    (hchildren : NodesRead limit es o (level + 1) h.bindings children) :
    InnerRead limit es h children (o.inner level h children) := by
  intro stop fuel size b q h' tag tail hb hsize hsame htail hfuel
  have hinner : o.inner level h children =
      ['\n'] ++ (o.nodes (level + 1) h.bindings children ++ indentation level) := by
    simp [Layout.inner, hall]
  have hnodes : (o.nodes (level + 1) h.bindings children).length ≤ size := by
    rw [hinner] at hsize
    simp only [List.length_append] at hsize
    omega
  simp only [hinner, List.append_assoc] at hfuel ⊢
  obtain ⟨fuel', cs, tag', flag', g, hread, hfuel', -, hg, hgap, houtlines⟩ :=
    hchildren stop fuel size b q h' [] tag false ['\n'] (indentation level) tail hb hnodes
      hsame.bindings (joined_false _) isFiller_line (isFiller_indentation level) htail hfuel
  have htext : textIn cs = g := hg
  refine ⟨fuel', cs, tag', flag', hread, hfuel', ?_, ?_⟩
  · rw [wholeText, htext, Text.collapse_gap hgap, loneText, hall]
    rfl
  · rw [houtlines, outlinesIn_nil, List.nil_append]

/-- Where the text of an element is empty, it tells of no more than an element without children. -/
theorem readAs_nil (hall : children.all Node.isText = true)
    (ht : elementText o.source h children = []) (hshown : Shown limit es o.source h children) :
    ReadAs children [] := by
  obtain ⟨s, hpassage, hcollapse⟩ := hshown
  rw [ht] at hpassage
  refine ⟨?_, ?_⟩
  · rw [loneText, if_pos hall, ← hcollapse, hpassage.eq_nil]
    rfl
  · rw [outlinesIn_of_texts hall, outlinesIn_nil]

/-- A printed element is read with its outline. -/
theorem element?_printed (hsound : (Node.element h children).Sound outer)
    (hp : Printable limit es o.source [.element h children])
    (houter : (outer.map Binding.short).Nodup)
    (hchildren : NodesRead limit es o (level + 1) h.bindings children)
    {stop fuel size : Nat} {b : Builder} {rest : List Char} (hb : b.Reads es size)
    (hagree : Agree outer b.outerBindings)
    (hsize : (o.element level outer h children).length ≤ size)
    (hfuel : Ample limit (o.element level outer h children ++ rest).length (fuel + 1)) :
    ∃ h' cs tag, SameHead h h' ∧ ReadAs children cs ∧
      element? stop fuel (o.element level outer h children ++ rest) b =
        some (rest, { b with tag := some tag }.append (.element h' cs)) := by
  rw [Node.Sound] at hsound
  obtain ⟨hs, -⟩ := hsound
  have hw := hp.heads h children (.here List.mem_cons_self)
  have hshown := hp.shown h children (.here List.mem_cons_self)
  unfold Layout.element at hsize hfuel ⊢
  split at hsize
  · next hempty =>
    rw [if_pos hempty, List.append_assoc] at hfuel ⊢
    obtain ⟨h', tag, hsame, hread⟩ :=
      @element?_selfClosed limit es outer h stop fuel size b rest hs hw houter hb hagree hsize hfuel
    exact ⟨h', [], tag, hsame, readAs_nil hempty.1 hempty.2 (hshown hempty.1), hread⟩
  · next hempty =>
    rw [if_neg hempty] at hfuel ⊢
    simp only [List.append_assoc] at hsize hfuel ⊢
    refine element?_closed hs hw houter ?_ hb hagree hsize hfuel
    cases hall : children.all Node.isText with
    | true => exact innerRead_text hall (hshown hall)
    | false => exact innerRead_nodes hall hchildren

theorem nodeRead_element (hsound : (Node.element h children).Sound outer)
    (hp : Printable limit es o.source [.element h children])
    (houter : (outer.map Binding.short).Nodup)
    (hchildren : NodesRead limit es o (level + 1) h.bindings children) :
    NodeRead limit es outer (o.element level outer h children) (.element h children) := by
  intro stop fuel size b q hd cs tag flag rest hb hsize hagree hfuel
  have hs : h.Sound outer := by
    rw [Node.Sound] at hsound
    exact hsound.1
  obtain ⟨h', ms, tag', hsame, htold, hread⟩ :=
    @element?_printed limit es o level outer h children hsound hp houter hchildren stop fuel size
      (b.inside q hd cs tag flag) rest (hb.inside q hd cs tag flag) hagree hsize hfuel
  have hcontent : content? stop (fuel + 1) (o.element level outer h children ++ rest)
      (b.inside q hd cs tag flag) = content? stop fuel rest
        (b.inside q hd (cs ++ [.element h' ms]) tag' false) := by
    obtain ⟨t, ht⟩ : ∃ t, o.element level outer h children = h.openTag outer ++ t := by
      unfold Layout.element
      split
      · exact ⟨_, rfl⟩
      · exact ⟨_, rfl⟩
    rw [ht, List.append_assoc] at hread ⊢
    rw [content?_openTag hs, hread, append_inside]
  refine ⟨.element h' ms, tag', rfl, ?_, hcontent⟩
  rw [outlinesIn, outlinesIn_nil, Node.outline, Node.outline, List.append_nil, hsame.uri,
    hsame.name, hsame.attributes, htold.text, htold.outlines]

theorem exists_element_cons (o : Layout) (level : Nat) {outer : List Binding} {h : Head}
    (hs : h.Sound outer) (children : List Node) :
    ∃ t, o.element level outer h children = '<' :: t := by
  have hopen := openTag_eq hs
  unfold Layout.element
  split
  · exact ⟨_, by rw [hopen, List.cons_append, List.cons_append]⟩
  · exact ⟨_, by rw [hopen, List.cons_append, List.cons_append]⟩

theorem nodesRead_text {s : List Char} (hns : NodesRead limit es o level outer ns) :
    NodesRead limit es o level outer (.text s :: ns) := by
  have hnodes : o.nodes level outer (.text s :: ns) = o.nodes level outer ns := by
    rw [Layout.nodes, Layout.node, List.nil_append]
  have houtlines : outlinesIn loneText (.text s :: ns) = outlinesIn loneText ns := by
    rw [outlinesIn, outline_of_isText rfl, List.nil_append]
  unfold NodesRead
  rw [hnodes, houtlines]
  exact hns

end Elements

/-- Printed nodes are read with their outlines, whatever level they are printed at. -/
theorem nodesRead {limit : Nat} {es : List Entity} {o : Layout} :
    ∀ (ns : List Node) (level : Nat) {outer : List Binding}, SoundIn outer ns →
      Printable limit es o.source ns → (outer.map Binding.short).Nodup →
      NodesRead limit es o level outer ns
  | [], level, outer, hs, hp, houter => nodesRead_nil
  | .element h children :: ns, level, outer, hs, hp, houter => by
    rw [SoundIn] at hs
    obtain ⟨hn, hns⟩ := hs
    have hparts := hn
    rw [Node.Sound] at hparts
    have hhead := hp.heads h children (.here List.mem_cons_self)
    have hone : Printable limit es o.source [.element h children] :=
      hp.mono fun n hm => List.mem_singleton.mp hm ▸ List.mem_cons_self
    have hchildren := nodesRead children (level + 1) hparts.2 (hp.below List.mem_cons_self)
      hhead.distinct
    exact nodesRead_cons (node_element o level outer h children)
      (exists_element_cons o level hparts.1 children) (nodeRead_element hn hone houter hchildren)
      (nodesRead ns level hns (hp.mono (List.subset_cons_self _ ns)) houter)
  | .text s :: ns, level, outer, hs, hp, houter => by
    rw [SoundIn] at hs
    exact nodesRead_text
      (nodesRead ns level hs.2 (hp.mono (List.subset_cons_self _ ns)) houter)
  | .comment s :: ns, level, outer, hs, hp, houter => by
    rw [SoundIn, Node.Sound] at hs
    exact nodesRead_cons (node_comment o level outer s)
      ⟨"!--".toList ++ s ++ "-->".toList, by simp⟩ (nodeRead_comment hs.1)
      (nodesRead ns level hs.2 (hp.mono (List.subset_cons_self _ ns)) houter)
  | .instruction t v :: ns, level, outer, hs, hp, houter => by
    rw [SoundIn, Node.Sound] at hs
    have hopen : ∃ r, writtenInstruction t v = '<' :: r := by
      cases v <;> simp [writtenInstruction]
    have hxml := hp.instructions t v (.here List.mem_cons_self)
    exact nodesRead_cons (node_instruction o level outer t v) hopen
      (nodeRead_instruction hs.1 hxml)
      (nodesRead ns level hs.2 (hp.mono (List.subset_cons_self _ ns)) houter)

end Marginalia.Xml
