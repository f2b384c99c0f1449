import Marginalia.Proofs.Xml.Parts

/-! Documents that are printed and read back: the same elements, attributes and texts. -/

namespace Marginalia.Xml

/-! ### Documents that come through printing -/

/-- An element whose tag can be written, or an instruction that is not taken for a declaration. -/
def Node.Writable : Node → Prop
  | .element h _ => h.Writable
  | .instruction t v => t = "xml".toList → v = none
  | _ => True

/-- The text of an element without other nodes is one text, written without character data
sections. -/
def Node.Whole (source : List Char) : Node → Prop
  | .element h children => children.all Node.isText = true → children.length ≤ 1 ∧
      Text.splitAt? "<![CDATA[".toList (innerSource source h) = none
  | _ => True

/-- A document with one element at the top and with whole texts. -/
structure Document.Whole (d : Document) : Prop where
  root : (d.nodes.filter Node.isElement).length = 1
  texts : ∀ n, Within n d.nodes → n.Whole d.source

/-- A document whose names and values can be written, and whose declarations are found where they
are read. Its entities hold text alone, or do not matter. -/
structure Document.Tidy (d : Document) : Prop where
  declaration : Text.startsWith "<?xml ".toList d.source = true →
    ∀ cs ∈ skipDeclaration? d.source, declaration d.source = consumed d.source cs
  doctype : ∀ root ∈ d.root?, printedDoctype d.source root = doctypeAsRead d.source
  nodes : ∀ n, Within n d.nodes → n.Writable
  entities : (∀ e ∈ entitiesOf d.source, '<' ∉ e.value) ∨ d.Whole

/-! ### Whether a document comes through printing can be computed -/

mutual
/-- A node and all that is below it. -/
def Node.subtree : Node → List Node
  | .element h children => .element h children :: subtrees children
  | .text s => [.text s]
  | .comment s => [.comment s]
  | .instruction t v => [.instruction t v]
/-- Nodes and all that is below them. -/
def subtrees : List Node → List Node
  | [] => []
  | n :: ns => n.subtree ++ subtrees ns
end

section Below

variable {n m : Node} {ns : List Node} {h : Head} {children : List Node}

theorem within_cons : Within n (m :: ns) ↔ Within n [m] ∨ Within n ns := by
  constructor
  · intro hw
    cases hw with
    | here hm =>
      rcases List.mem_cons.mp hm with rfl | hm
      · exact Or.inl (.here List.mem_cons_self)
      · exact Or.inr (.here hm)
    | inside hm hw =>
      rcases List.mem_cons.mp hm with rfl | hm
      · exact Or.inl (.inside List.mem_cons_self hw)
      · exact Or.inr (.inside hm hw)
  · rintro (hw | hw)
    · exact hw.mono (by simp)
    · exact hw.mono (List.subset_cons_self m ns)

theorem within_element :
    Within n [.element h children] ↔ n = .element h children ∨ Within n children := by
  constructor
  · intro hw
    cases hw with
    | here hm => exact Or.inl (List.mem_singleton.mp hm)
    | inside hm hw =>
      obtain ⟨rfl, rfl⟩ := Node.element.inj (List.mem_singleton.mp hm)
      exact Or.inr hw
  · rintro (rfl | hw)
    · exact .here List.mem_cons_self
    · exact .inside List.mem_cons_self hw

theorem within_leaf (hm : m.isElement = false) : Within n [m] ↔ n = m := by
  constructor
  · intro hw
    cases hw with
    | here hn => exact List.mem_singleton.mp hn
    | inside hn _ =>
      rw [← List.mem_singleton.mp hn] at hm
      cases hm
  · rintro rfl
    exact .here List.mem_cons_self

theorem mem_subtrees : ∀ ns : List Node, n ∈ subtrees ns ↔ Within n ns
  | [] => by
    rw [subtrees]
    constructor
    · intro hn
      cases hn
    · intro hw
      cases hw with
      | here hm => cases hm
      | inside hm _ => cases hm
  | .element h children :: ns => by
    rw [subtrees, Node.subtree, List.mem_append, List.mem_cons, mem_subtrees children,
      mem_subtrees ns, within_cons, within_element]
  | .text s :: ns => by
    rw [subtrees, Node.subtree, List.mem_append, List.mem_singleton, mem_subtrees ns, within_cons,
      within_leaf rfl]
  | .comment s :: ns => by
    rw [subtrees, Node.subtree, List.mem_append, List.mem_singleton, mem_subtrees ns, within_cons,
      within_leaf rfl]
  | .instruction t v :: ns => by
    rw [subtrees, Node.subtree, List.mem_append, List.mem_singleton, mem_subtrees ns, within_cons,
      within_leaf rfl]

end Below

instance (v : List Char) : Decidable (IsWritable v) :=
  List.decidableBAll (fun c => isLegal c = true ∧ c ≠ '\t' ∧ c ≠ '\n' ∧ c ≠ '\r') v

instance (h : Head) : Decidable h.Writable :=
  decidable_of_iff ((h.bindings.map Binding.short).Nodup ∧
      (∀ b ∈ h.bindings, b.short ≠ some "xmlns".toList) ∧
      (∀ a ∈ h.attributes, ∀ u ∈ a.uri, h.shortFor? u ≠ none) ∧
      (∀ a ∈ h.attributes, IsWritable a.value) ∧ ∀ b ∈ h.bindings, IsWritable b.uri)
    ⟨fun ⟨distinct, shorts, attributes, values, uris⟩ =>
        ⟨distinct, shorts, attributes, values, uris⟩,
      fun hw => ⟨hw.distinct, hw.shorts, hw.attributes, hw.values, hw.uris⟩⟩

instance (n : Node) : Decidable n.Writable :=
  match n with
  | .element h _ => inferInstanceAs (Decidable h.Writable)
  | .instruction t v => inferInstanceAs (Decidable (t = "xml".toList → v = none))
  | .text _ => .isTrue trivial
  | .comment _ => .isTrue trivial

instance (source : List Char) (n : Node) : Decidable (n.Whole source) :=
  match n with
  | .element h children => inferInstanceAs (Decidable (children.all Node.isText = true →
      children.length ≤ 1 ∧ Text.splitAt? "<![CDATA[".toList (innerSource source h) = none))
  | .instruction _ _ => .isTrue trivial
  | .text _ => .isTrue trivial
  | .comment _ => .isTrue trivial

instance (d : Document) : Decidable d.Whole :=
  decidable_of_iff ((d.nodes.filter Node.isElement).length = 1 ∧
      ∀ n ∈ subtrees d.nodes, n.Whole d.source)
    ⟨fun ⟨root, texts⟩ => ⟨root, fun n hn => texts n ((mem_subtrees d.nodes).mpr hn)⟩,
      fun hd => ⟨hd.root, fun n hn => hd.texts n ((mem_subtrees d.nodes).mp hn)⟩⟩

instance (d : Document) : Decidable d.Tidy :=
  decidable_of_iff ((Text.startsWith "<?xml ".toList d.source = true →
        ∀ cs ∈ skipDeclaration? d.source, declaration d.source = consumed d.source cs) ∧
      (∀ root ∈ d.root?, printedDoctype d.source root = doctypeAsRead d.source) ∧
      (∀ n ∈ subtrees d.nodes, n.Writable) ∧
      ((∀ e ∈ entitiesOf d.source, '<' ∉ e.value) ∨ d.Whole))
    ⟨fun ⟨declaration, doctype, nodes, entities⟩ =>
        ⟨declaration, doctype, fun n hn => nodes n ((mem_subtrees d.nodes).mpr hn), entities⟩,
      fun hd => ⟨hd.declaration, hd.doctype,
        fun n hn => hd.nodes n ((mem_subtrees d.nodes).mp hn), hd.entities⟩⟩

/-! ### Documents that are read -/

/-- One element at the top. -/
def OneRoot (ns : List Node) : Prop :=
  ∃ pre h children post, ns = pre ++ .element h children :: post ∧
    (∀ n ∈ pre, n.isElement = false) ∧ ∀ n ∈ post, n.isElement = false

section Source

variable {source cs r : List Char} {ns after : List Node} {es : List Entity} {b : Builder}
  {d : Document} {n : Node} {outer : List Binding} {lim : Nat} {h : Head} {children : List Node}

theorem soundIn_of_misc (h : ∀ n ∈ ns, IsMisc n) (outer : List Binding) : SoundIn outer ns := by
  induction ns with
  | nil => exact soundIn_nil outer
  | cons n ns ih =>
    rw [SoundIn]
    exact ⟨(h n List.mem_cons_self).2.2 outer, ih fun m hm => h m (List.mem_cons_of_mem n hm)⟩

/-- A document that is read is sound. -/
theorem parse?_sound (h : Document.parse? source = some d) : SoundIn [] d.nodes := by
  obtain ⟨ns, es, cs, r, b, after, hprolog, helement, hafter, -, -, rfl⟩ := parse?_eq_some h
  have hstart : (Builder.start source es ns).Sound :=
    ⟨soundIn_of_misc (prolog?_facts hprolog).1 [], trivial, fun x hx => (nomatch hx),
      fun a ha => (nomatch ha), fun q p htag => (nomatch htag)⟩
  have hb := (keepsSound (12 * (source.length + 2))).element hstart helement
  exact soundIn_append.mpr ⟨hb.top, soundIn_of_misc (misc?_facts hafter).1 []⟩

/-- Where entities hold text alone, a document has one root, and slices stand for texts. -/
theorem parse?_told (h : Document.parse? source = some d)
    (hes : PlainEntities lim (entitiesOf source)) :
    OneRoot d.nodes ∧ ToldIn lim (entitiesOf source) source d.nodes := by
  obtain ⟨ns, es, cs, r, b, after, hprolog, helement, hafter, hframes, hany, rfl⟩ :=
    parse?_eq_some h
  rw [entitiesOf_eq hprolog] at hes ⊢
  obtain ⟨hmisc, hsuffix, -⟩ := prolog?_facts hprolog
  have hns : ∀ n ∈ ns, n.isElement = false := fun n hn => (hmisc n hn).2.1
  have hrest : ∀ n ∈ after, n.isElement = false := fun n hn => ((misc?_facts hafter).1 n hn).2.1
  cases (tells lim es source (12 * (source.length + 2))).element
    (b := Builder.start source es ns) ⟨rfl, hes, rfl, hsuffix⟩ helement with
  | cut hlt =>
    rw [hframes] at hlt
    exact absurd hlt (by simp)
  | missing _ htop =>
    have hstart : b.top = ns := htop
    obtain ⟨n, hn, hone⟩ := List.any_eq_true.mp hany
    rw [hstart] at hn
    have hnone : n.isElement = false := (List.mem_append.mp hn).elim (hns n) (hrest n)
    rw [hnone] at hone
    cases hone
  | @formed u _ hd ms _ hcs htold htaken =>
    have htop : b.top = ns ++ [.element hd ms] := htaken.top
    rw [htop]
    refine ⟨⟨ns, hd, ms, after, by simp, hns, hrest⟩, ?_⟩
    exact ((toldIn_of_plain hns).append htold).append (toldIn_of_plain hrest)

theorem parse?_source (h : Document.parse? source = some d) : d.source = source := by
  obtain ⟨ns, es, cs, r, b, after, -, -, -, -, -, rfl⟩ := parse?_eq_some h
  rfl

/-- The entities of a text are parts of it. -/
theorem length_entitiesOf {e : Entity} (he : e ∈ entitiesOf source) :
    e.value.length < source.length := by
  unfold entitiesOf at he
  split at he
  · next ns es rest hprolog => exact (prolog?_facts hprolog).2.2 e he
  · cases he

theorem oneRoot_of_length (hroot : (ns.filter Node.isElement).length = 1) : OneRoot ns := by
  obtain ⟨n, hn⟩ := List.length_eq_one_iff.mp hroot
  have hone : n ∈ ns ∧ n.isElement = true := List.mem_filter.mp (hn ▸ List.mem_singleton.mpr rfl)
  obtain ⟨pre, post, rfl⟩ := List.append_of_mem hone.1
  rw [List.filter_append, List.filter_cons, if_pos hone.2] at hn
  have hnone : pre.filter Node.isElement = [] ∧ post.filter Node.isElement = [] := by
    cases hpre : pre.filter Node.isElement with
    | nil =>
      rw [hpre, List.nil_append] at hn
      exact ⟨rfl, (List.cons.inj hn).2⟩
    | cons m ms =>
      rw [hpre] at hn
      simp at hn
  cases n with
  | element h children =>
    refine ⟨pre, h, children, post, rfl, fun m hm => ?_, fun m hm => ?_⟩
    · simpa using List.filter_eq_nil_iff.mp hnone.1 m hm
    · simpa using List.filter_eq_nil_iff.mp hnone.2 m hm
  | text s => exact absurd hone.2 (by simp [Node.isElement])
  | comment s => exact absurd hone.2 (by simp [Node.isElement])
  | instruction t v => exact absurd hone.2 (by simp [Node.isElement])

theorem onePiece_of_length (hall : children.all Node.isText = true) (h : children.length ≤ 1) :
    OnePiece children := by
  cases children with
  | nil => exact Or.inl rfl
  | cons n ns =>
    obtain rfl : ns = [] := by simpa using h
    cases n with
    | text s => exact Or.inr ⟨s, rfl⟩
    | element hd cs => simp [Node.isText] at hall
    | comment s => simp [Node.isText] at hall
    | instruction t v => simp [Node.isText] at hall

theorem Document.Tidy.oneRoot (hd : d.Tidy) (h : Document.parse? source = some d) :
    OneRoot d.nodes := by
  rcases hd.entities with hplain | hplain
  · rw [parse?_source h] at hplain
    exact (parse?_told h fun e he => ⟨hplain e he, Nat.le_of_lt (length_entitiesOf he)⟩).1
  · exact oneRoot_of_length hplain.root

/-- Every part of a tidy document can be printed. -/
theorem Document.Tidy.printable (hd : d.Tidy) (h : Document.parse? source = some d)
    (hlen : ∀ e ∈ entitiesOf source, e.value.length ≤ lim) :
    Printable lim (entitiesOf source) source d.nodes := by
  refine ⟨fun hd' children hwithin => hd.nodes _ hwithin,
    fun t v hwithin => hd.nodes _ hwithin, fun hd' children hwithin hall => ?_⟩
  have hlegal : ∀ s, .text s ∈ children → ∀ c ∈ s, isLegal c = true := by
    intro s hs
    obtain ⟨outer, hsound⟩ := hwithin.sound (parse?_sound h)
    have htext := sound_of_mem (sound_element.mp hsound).2 hs
    rwa [Node.Sound] at htext
  rcases hd.entities with hplain | hplain
  · rw [parse?_source h] at hplain
    have htold := (parse?_told h fun e he => ⟨hplain e he, hlen e he⟩).2 hd' children hwithin hall
    cases hsections : Text.splitAt? "<![CDATA[".toList (innerSource source hd') with
    | none => exact shown_of_text hsections htold.piece hlegal
    | some x => exact shown_of_told (by rw [hsections]; exact Option.some_ne_none x) htold
  · obtain ⟨hpiece, hsections⟩ := hplain.texts _ hwithin hall
    rw [parse?_source h] at hsections
    exact shown_of_text hsections (onePiece_of_length hall hpiece) hlegal

end Source

/-! ### Printing and reading -/

section RoundTrip

variable {xml : List Char} {d : Document} {pre post : List Node} {root : Head}
  {children : List Node}

theorem root?_eq (hnodes : d.nodes = pre ++ .element root children :: post)
    (hpre : ∀ n ∈ pre, n.isElement = false) : d.root? = some root := by
  have hnone : pre.findSome? Node.head? = none := by
    rw [List.findSome?_eq_none_iff]
    intro n hn
    have helement := hpre n hn
    cases n with
    | element h cs => cases helement
    | text s => rfl
    | comment s => rfl
    | instruction t v => rfl
  unfold Document.root?
  rw [hnodes, List.findSome?_append, hnone]
  rfl

theorem prettify?_eq (h : Document.parse? xml = some d) (hroot : d.root? = some root)
    (sameLine : Bool) : prettify? sameLine xml = some (printedDeclaration xml ++
      (printedDoctype xml root ++ Layout.nodes ⟨xml, sameLine⟩ 0 [] d.nodes)) := by
  have hne : xml ≠ [] := by
    rintro rfl
    obtain ⟨ns, es, cs, r, b, after, hprolog, -⟩ := parse?_eq_some h
    exact absurd (List.suffix_nil.mp (prolog?_facts hprolog).2.1) (by simp)
  unfold prettify?
  rw [if_neg hne, h]
  simp only [Option.bind_eq_bind, Option.bind_some, hroot, Option.pure_def, List.append_assoc]
  rfl

theorem nodes_append (o : Layout) (level : Nat) (outer : List Binding) (ns ms : List Node) :
    o.nodes level outer (ns ++ ms) = o.nodes level outer ns ++ o.nodes level outer ms := by
  induction ns with
  | nil => rw [List.nil_append, Layout.nodes, List.nil_append]
  | cons n ns ih => rw [List.cons_append, Layout.nodes, Layout.nodes, ih, List.append_assoc]

theorem outlinesIn_of_plain {text : List Node → List Char} {ns : List Node}
    (h : ∀ n ∈ ns, n.isElement = false) : outlinesIn text ns = [] := by
  induction ns with
  | nil => rw [outlinesIn]
  | cons n ns ih =>
    have hn := h n List.mem_cons_self
    rw [outlinesIn, ih fun m hm => h m (List.mem_cons_of_mem n hm), List.append_nil]
    cases n with
    | element hd cs => cases hn
    | text s => rw [Node.outline]; simp
    | comment s => rw [Node.outline]; simp
    | instruction t v => rw [Node.outline]; simp

/-- The root element begins with a name. -/
theorem element_begins (o : Layout) (level : Nat) {outer : List Binding} {h : Head}
    (hs : h.Sound outer) (children : List Node) :
    BeginsTag (o.element level outer h children) := by
  obtain ⟨c, t, hct, hc⟩ := exists_spell_cons (legal_label hs)
  have hopen : ∃ x, h.openTag outer = '<' :: c :: x := by
    rw [openTag_eq hs, hct]
    exact ⟨_, rfl⟩
  obtain ⟨x, hx⟩ := hopen
  have hplain : c ≠ '!' ∧ c ≠ '?' := by
    constructor
    all_goals
      rintro rfl
      exact absurd hc (by decide)
  unfold Layout.element
  rw [hx]
  split
  · exact ⟨c, _, rfl, hplain⟩
  · exact ⟨c, _, rfl, hplain⟩

/-- The root element is printed between the nodes before it and those after it. -/
theorem nodes_around_root (o : Layout) (pre : List Node) (root : Head) (children post : List Node) :
    o.nodes 0 [] (pre ++ .element root children :: post) = o.nodes 0 [] pre ++
      (o.element 0 [] root children ++ (['\n'] ++ o.nodes 0 [] post)) := by
  rw [nodes_append, Layout.nodes, node_element]
  simp [indentation]

/-- Entities with the contents of those that a text declares are shorter than the text. -/
theorem length_of_sameEntities {source cs : List Char} {ns : List Node} {es es' : List Entity}
    (hsame : SameEntities es es') (h : prolog? source = some (ns, es', cs)) :
    ∀ e ∈ es, e.value.length ≤ source.length - 1 := by
  intro e he
  obtain ⟨e', he', hvalue⟩ := hsame.exists_mem he
  have hlt := (prolog?_facts h).2.2 e' he'
  rw [← hvalue]
  omega

/-- A text is a document if it is a prolog, a printed element and what is printed after it. -/
theorem parse?_printed {o : Layout} {out : List Char} {before : List Node} {es es' : List Entity}
    (hprolog : prolog? out = some (before, es',
      o.element 0 [] root children ++ (['\n'] ++ o.nodes 0 [] post)))
    (hbefore : ∀ n ∈ before, n.isElement = false) (hsame : SameEntities es es')
    (hsound : (Node.element root children).Sound [])
    (hp : Printable (out.length - 1) es o.source [.element root children])
    (hsoundPost : SoundIn [] post) (hpost : ∀ n ∈ post, n.isElement = false)
    (hxml : ∀ q v, .instruction q v ∈ post → q = "xml".toList → v = none) :
    ∃ d', Document.parse? out = some d' ∧
      outlinesIn wholeText d'.nodes = (Node.element root children).outline loneText := by
  have hlen := (prolog?_facts hprolog).2.1.length_le
  rw [List.length_append, List.length_append, List.length_singleton] at hlen
  have hbuilder : (Builder.start out es' before).Reads es out.length :=
    ⟨hsame, ⟨rfl, rfl, rfl⟩, by simp only [Builder.start]; omega⟩
  have hchildren := nodesRead children 1 (sound_element.mp hsound).2 (hp.below List.mem_cons_self)
    (hp.heads root children (.here List.mem_cons_self)).distinct
  have hfuel : Ample (out.length - 1) (o.element 0 [] root children ++
      (['\n'] ++ o.nodes 0 [] post)).length (12 * (out.length + 2) + 1) := by
    rw [ample_iff, List.length_append, List.length_append, List.length_singleton]
    omega
  obtain ⟨h', cs, tag, hhead, ⟨htext, houtlines⟩, hread⟩ := element?_printed hsound hp (by simp)
    hchildren hbuilder (fun _ => rfl) (by omega) hfuel
  obtain ⟨after, hafter, hmisc⟩ := @miscRead_nodes 0 ['\n'] [] post o [] hsoundPost hpost hxml
    pastMisc_nil isSpace_line out.length (by omega)
  rw [List.append_nil] at hmisc
  obtain ⟨c, t, hbegins, -, -⟩ := element_begins o 0 (sound_element.mp hsound).1 children
  rw [hbegins] at hprolog hread
  have htop : ({ Builder.start out es' before with tag := some tag }.append
      (.element h' cs)).top = before ++ [.element h' cs] := rfl
  refine ⟨_, parse?_of_prolog hprolog hread hmisc rfl (by rw [htop]; simp [Node.isElement]), ?_⟩
  rw [htop, outlinesIn_append, outlinesIn_append, outlinesIn_of_plain hbefore,
    outlinesIn_of_plain hafter, List.nil_append, List.append_nil, outlinesIn, outlinesIn_nil,
    List.append_nil, Node.outline, Node.outline, hhead.uri, hhead.name, hhead.attributes, htext,
    houtlines]

end RoundTrip

/-- A document with declarations, an entity, two namespaces and a character data section. -/
def declaredSample : List Char :=
  ("<?xml version=\"1.0\"?>\n<!DOCTYPE r SYSTEM \"r.dtd\" [<!ENTITY e \"x &gt; y\">]>\n" ++
    "<!-- c --><r xmlns=\"u\" xmlns:p=\"v\" p:a=\"1 &lt; 2\"><p:b>t &amp; u</p:b>" ++
    "<c><![CDATA[<&e;]]> &e; </c><?q w?><f/></r><?z?>").toList

end Marginalia.Xml
