import Marginalia.Proofs.Xml.RoundTrip

/-! What stands outside of the root element, as it is read and as it is printed: declarations,
comments and instructions, in the order of the text where they are found there. -/

namespace Marginalia.Xml

/-! ### The root element among the nodes at the top -/

/-- Some nodes, an element directly behind them, and more nodes. -/
def RootBehind (ns top : List Node) : Prop :=
  ∃ h children after, top = ns ++ .element h children :: after

/-- The nodes read before the root element are in front, and the root element is open or stands
behind them. -/
def Builder.Rooted (ns : List Node) (b : Builder) : Prop :=
  (b.top = ns ∧ b.frames ≠ []) ∨ RootBehind ns b.top

section Rooted

variable {ns ms : List Node} {b b' : Builder} {q : QName}

theorem RootBehind.append (h : RootBehind ns ms) (more : List Node) :
    RootBehind ns (ms ++ more) := by
  obtain ⟨hd, children, after, rfl⟩ := h
  exact ⟨hd, children, after ++ more, by simp⟩

theorem extendLast_last (ms : List Node) (s : List Char) (n : Node) :
    ∃ m, Builder.extendLast s (ms ++ [n]) = ms ++ [m] := by
  cases n with
  | text t => exact ⟨.text (t ++ s), Builder.extendLast_concat t s ms⟩
  | element h children => exact ⟨.element h children, by simp [Builder.extendLast]⟩
  | comment t => exact ⟨.comment t, by simp [Builder.extendLast]⟩
  | instruction t v => exact ⟨.instruction t v, by simp [Builder.extendLast]⟩

/-- Text joins a text behind the root element, never the root element. -/
theorem RootBehind.extendLast (h : RootBehind ns ms) (s : List Char) :
    RootBehind ns (Builder.extendLast s ms) := by
  obtain ⟨hd, children, after, rfl⟩ := h
  rcases List.eq_nil_or_concat after with rfl | ⟨after, n, rfl⟩
  · exact ⟨hd, children, [], by simp [Builder.extendLast]⟩
  · have hlist : ns ++ .element hd children :: (after ++ [n]) =
        (ns ++ .element hd children :: after) ++ [n] := by simp
    obtain ⟨m, hm⟩ := extendLast_last (ns ++ .element hd children :: after) s n
    exact ⟨hd, children, after ++ [m], by rw [List.concat_eq_append, hlist, hm]; simp⟩

namespace Builder

theorem Rooted.of_same (h : b.Rooted ns) (htop : b'.top = b.top) (hframes : b'.frames = b.frames) :
    b'.Rooted ns := by
  unfold Rooted at *
  rw [htop, hframes]
  exact h

theorem Rooted.modifyChildren (h : b.Rooted ns) {f : List Node → List Node}
    (hf : ∀ ms, RootBehind ns ms → RootBehind ns (f ms)) : (b.modifyChildren f).Rooted ns := by
  unfold Builder.modifyChildren
  cases hframes : b.frames with
  | nil =>
    rcases h with ⟨-, hopen⟩ | hbehind
    · exact absurd hframes hopen
    · exact Or.inr (hf b.top hbehind)
  | cons fr frs =>
    rcases h with ⟨htop, -⟩ | hbehind
    · exact Or.inl ⟨htop, List.cons_ne_nil _ _⟩
    · exact Or.inr hbehind

theorem Rooted.append (h : b.Rooted ns) (n : Node) : (b.append n).Rooted ns :=
  (h.modifyChildren fun _ hms => hms.append [n]).of_same rfl rfl

theorem Rooted.appendText (h : b.Rooted ns) (s : List Char) : (b.appendText s).Rooted ns := by
  unfold Builder.appendText
  split
  · exact h.modifyChildren fun _ hms => hms.extendLast s
  · exact (h.append (.text s)).of_same rfl rfl

theorem Rooted.addText (h : b.Rooted ns) (s : List Char) : (b.addText s).Rooted ns := by
  unfold Builder.addText
  split
  · exact h
  · exact h.appendText s

theorem Rooted.beginElement? (h : b.Rooted ns) {stop : Nat} {isEmpty : Bool}
    (hbegin : b.beginElement? stop isEmpty = some b') : b'.Rooted ns := by
  unfold Builder.beginElement? at hbegin
  obtain ⟨⟨q, start⟩, -, hbegin⟩ := Option.bind_eq_some_iff.mp hbegin
  obtain ⟨hd, -, hbegin⟩ := Option.bind_eq_some_iff.mp hbegin
  have hclear : b.clearTag.Rooted ns := h.of_same rfl rfl
  dsimp only at hbegin
  split at hbegin
  · obtain rfl := Option.some.inj hbegin
    exact hclear.append _
  · obtain rfl := Option.some.inj hbegin
    rcases h with ⟨htop, -⟩ | hbehind
    · exact Or.inl ⟨htop, List.cons_ne_nil _ _⟩
    · exact Or.inr hbehind

/-- The element that ends is the root element, or it stands inside of it. -/
theorem Rooted.endElement? (h : b.Rooted ns) {stop : Nat}
    (hend : b.endElement? q stop = some b') : b'.Rooted ns := by
  unfold Builder.endElement? at hend
  obtain ⟨t, -, hend⟩ := Option.bind_eq_some_iff.mp hend
  obtain ⟨as, -, hend⟩ := Option.bind_eq_some_iff.mp hend
  split at hend
  · cases hend
  · next fr frs hfr =>
    split at hend
    · cases hend
    · obtain rfl := Option.some.inj hend
      rcases h with ⟨htop, -⟩ | hbehind
      · cases frs with
        | nil => exact Or.inr ⟨_, _, [], by rw [← htop]; rfl⟩
        | cons fr' frs => exact Or.inl ⟨htop, List.cons_ne_nil _ _⟩
      · have hleft : Builder.Rooted ns { b.clearTag with frames := frs } := Or.inr hbehind
        exact hleft.append _

end Builder

theorem StartTagRead.rooted {limit : Nat} {cs r : List Char} {stop : TagEnd}
    (h : StartTagRead limit cs b stop r b') (hb : b.Rooted ns) : b'.Rooted ns := by
  induction h with
  | missing => exact hb
  | empty _ hbegin => exact hb.beginElement? hbegin
  | opened _ hbegin => exact hb.beginElement? hbegin
  | @more cs raw r₁ r q e b b₁ b' _ hadd _ ih =>
    obtain ⟨nesting, value, bindings, attributes, -, hb₁⟩ := addAttribute?_cases hadd
    have htop : b₁.top = b.top := by rw [hb₁]
    have hframes : b₁.frames = b.frames := by rw [hb₁]
    exact ih (hb.of_same htop hframes)

end Rooted

/-- What each part of a document leaves in its place when it is read with some fuel. -/
structure KeepsRoot (ns : List Node) (fuel : Nat) : Prop where
  content : ∀ {limit cs b r b'}, b.Rooted ns →
    content? limit fuel cs b = some (r, b') → b'.Rooted ns
  element : ∀ {limit cs b r b'}, b.Rooted ns →
    element? limit fuel cs b = some (r, b') → b'.Rooted ns
  text : ∀ {limit cs text written b b'}, b.Rooted ns →
    text? limit fuel cs text written b = some b' → b'.Rooted ns

section Reading

variable {limit fuel : Nat} {cs r : List Char} {b b' : Builder} {ns : List Node}

theorem content?_rooted (ih : KeepsRoot ns fuel) (hb : b.Rooted ns)
    (h : content? limit (fuel + 1) cs b = some (r, b')) : b'.Rooted ns := by
  cases contentStep_of_content? h with
  | ended _ hb' => exact hb' ▸ hb
  | node _ _ _ hmore => exact ih.content (hb.append _) hmore
  | cdata _ _ hmore => exact ih.content (hb.appendText _) hmore
  | closing _ hend => exact hb.endElement? hend
  | child hb₁ hmore => exact ih.content (ih.element hb hb₁) hmore
  | run _ _ _ _ hb₁ hmore => exact ih.content (ih.text hb hb₁) hmore

theorem element?_rooted (ih : KeepsRoot ns fuel) (hb : b.Rooted ns)
    (h : element? limit (fuel + 1) cs b = some (r, b')) : b'.Rooted ns := by
  have hnamed (q : QName) :
      Builder.Rooted ns { b with tag := some (q, limit - cs.length), afterText := false } :=
    hb.of_same rfl rfl
  cases elementStep_of_element? h with
  | opened _ htag hmore => exact ih.content (htag.rooted (hnamed _)) hmore
  | ended _ _ htag => exact htag.rooted (hnamed _)

theorem text?_rooted (ih : KeepsRoot ns fuel) {text : Buffer} {written : Bool} (hb : b.Rooted ns)
    (h : text? limit (fuel + 1) cs text written b = some b') : b'.Rooted ns := by
  cases textStep_of_text? h with
  | ended hb' => exact hb' ▸ hb.addText _
  | char _ hmore => exact ih.text hb hmore
  | @entity name r r' rest e inner b₁ _ _ _ hb₁ hmore =>
    have hadd := hb.addText text.reverse
    have hinner := ih.content (b := { b.addText text.reverse with nesting := inner, tag := none })
      (hadd.of_same rfl rfl) hb₁
    have hnext : Builder.Rooted ns { b₁ with nesting := b₁.nesting.leave, tag := b.tag } :=
      hinner.of_same rfl rfl
    exact ih.text hnext hmore
  | plain _ hmore => exact ih.text hb hmore

/-- Reading leaves the nodes before the root element in front, whatever the entities hold. -/
theorem keepsRoot (ns : List Node) (fuel : Nat) : KeepsRoot ns fuel := by
  induction fuel with
  | zero =>
    refine ⟨fun _ h => ?_, fun _ h => ?_, fun _ h => ?_⟩
    · simp [content?] at h
    · simp [element?] at h
    · simp [text?] at h
  | succ fuel ih => exact ⟨content?_rooted ih, element?_rooted ih, text?_rooted ih⟩

/-- The first element at the top is behind the nodes that were there before, or there is none. -/
theorem rootBehind_of_element? (hframes : b.frames = []) (hnesting : b.nesting = .none)
    (h : element? limit fuel cs b = some (r, b')) (hclosed : b'.frames = []) :
    RootBehind b.top b'.top ∨ b'.top = b.top := by
  cases fuel with
  | zero => simp [element?] at h
  | succ fuel =>
    cases elementStep_of_element? h with
    | @opened q r₀ r₁ b₁ _ htag hmore =>
      cases htag.begun hnesting rfl with
      | opened _ _ _ hfr htop =>
        have hopen : b₁.Rooted b.top := Or.inl ⟨htop, by rw [hfr]; exact List.cons_ne_nil _ _⟩
        rcases (keepsRoot b.top fuel).content hopen hmore with ⟨-, hne⟩ | hbehind
        · exact absurd hclosed hne
        · exact Or.inl hbehind
    | ended _ hne htag =>
      cases htag.begun hnesting rfl with
      | opened => exact absurd rfl hne
      | missing _ htop => exact Or.inr htop
      | @empty u _ hd _ _ _ _ _ htaken =>
        refine Or.inl ⟨hd, [], [], ?_⟩
        rw [htaken.top]
        simp only [hframes, topWith]

end Reading

/-! ### The parts of a document -/

/-- The parts of a document in the order of its text: what stands before the root element, the
root element, and what follows it. -/
structure Parts where
  declaration : List Char
  /-- The comments and instructions before the document type declaration. -/
  before : List Node
  /-- The lines of the document type declaration. -/
  doctype : List Char
  /-- The comments and instructions inside of it. -/
  subset : List Node
  between : List Node
  root : Head
  children : List Node
  after : List Node

/-- The XML declaration of a text, as it is read. -/
def declarationAsRead (source : List Char) : List Char :=
  match skipDeclaration? (skipMark source) with
  | some cs => consumed (skipMark source) cs
  | none => []

/-- The parts of a text, as they are read one after the other. -/
def parts? (source : List Char) : Option Parts := do
  let d ← Document.parse? source
  let (before, cs) ← beforeDoctype? source
  let (subset, cs) ← doctype? source.length cs
  let (between, _) ← misc? source.length cs
  match d.nodes.drop (before ++ subset.nodes ++ between).length with
  | .element root children :: after =>
    return ⟨declarationAsRead source, before, doctypeAsRead source, subset.nodes, between, root,
      children, after⟩
  | _ => none

/-- The nodes before the root element. -/
def Parts.front (p : Parts) : List Node := p.before ++ p.subset ++ p.between

def Parts.nodes (p : Parts) : List Node := p.front ++ .element p.root p.children :: p.after

section Parts

variable {source : List Char} {d : Document} {p : Parts}

/-- The first element of a document stands directly behind the nodes before it in the text. -/
theorem rootBehind_of_parse? (h : Document.parse? source = some d) :
    ∃ ns es rest, prolog? source = some (ns, es, rest) ∧ RootBehind ns d.nodes := by
  obtain ⟨ns, es, cs, r, b, after, hprolog, helement, hafter, hframes, hany, rfl⟩ :=
    parse?_eq_some h
  refine ⟨ns, es, _, hprolog, ?_⟩
  rcases rootBehind_of_element? rfl rfl helement hframes with hbehind | htop
  · exact RootBehind.append hbehind after
  · have hstart : b.top = ns := htop
    obtain ⟨n, hn, hone⟩ := List.any_eq_true.mp hany
    have hnone : n.isElement = false := by
      rw [hstart] at hn
      rcases List.mem_append.mp hn with hn | hn
      · exact ((prolog?_facts hprolog).1 n hn).2.1
      · exact ((misc?_facts hafter).1 n hn).2.1
    rw [hnone] at hone
    cases hone

/-- A document has its parts. -/
theorem parts?_of_parse? (h : Document.parse? source = some d) :
    ∃ p, parts? source = some p ∧ d.nodes = p.nodes ∧ ∀ n ∈ p.front, IsMisc n := by
  obtain ⟨ns, es, rest, hprolog, root, children, after, hnodes⟩ := rootBehind_of_parse? h
  have hmisc := (prolog?_facts hprolog).1
  unfold prolog? at hprolog
  obtain ⟨⟨before, cs⟩, hbefore, hprolog⟩ := Option.bind_eq_some_iff.mp hprolog
  obtain ⟨⟨subset, cs₂⟩, hdoctype, hprolog⟩ := Option.bind_eq_some_iff.mp hprolog
  obtain ⟨⟨between, cs₃⟩, hbetween, hprolog⟩ := Option.bind_eq_some_iff.mp hprolog
  obtain ⟨rfl, -⟩ := Prod.mk.inj (Option.some.inj hprolog)
  refine ⟨⟨declarationAsRead source, before, doctypeAsRead source, subset.nodes, between, root,
    children, after⟩, ?_, hnodes, hmisc⟩
  unfold parts?
  simp only [Option.bind_eq_bind, h, Option.bind_some, hbefore, hdoctype, hbetween, hnodes,
    List.drop_left, Option.pure_def]

theorem Parts.root?_eq (hnodes : d.nodes = p.nodes) (hfront : ∀ n ∈ p.front, IsMisc n) :
    d.root? = some p.root :=
  Xml.root?_eq hnodes fun n hn => (hfront n hn).2.1

end Parts

/-! ### What is printed around the root element -/

/-- Something that stands outside of a root element. -/
inductive Item where
  | declaration (text : List Char)
  | doctype (lines : List Char)
  | node (n : Node)

def Layout.item (o : Layout) : Item → List Char
  | .declaration text => text ++ ['\n']
  | .doctype lines => lines
  | .node n => o.node 0 [] n

/-- A document on its lines: what stands before the root element, the element, what follows. -/
def Layout.document (o : Layout) (before : List Item) (root : Node) (after : List Item) :
    List Char :=
  before.flatMap o.item ++ o.node 0 [] root ++ after.flatMap o.item

/-- A declaration where there is one. -/
def optional (make : List Char → Item) (text : List Char) : List Item :=
  if text = [] then [] else [make text]

namespace Parts

/-- What stands before the root element, in the order of the text. -/
def itemsBefore (p : Parts) : List Item :=
  optional .declaration p.declaration ++ p.before.map .node ++ optional .doctype p.doctype ++
    p.between.map .node

/-- The comments and instructions behind the root element. -/
def itemsAfter (p : Parts) : List Item :=
  (p.after.filter fun n => !n.isText && !n.isElement).map .node

/-- What is printed before the root element: the declarations as they are found in the text, then
all nodes that stand before it. -/
def printedBefore (p : Parts) (source : List Char) : List Item :=
  optional .declaration (Xml.declaration source) ++
    optional .doctype (printedDoctype source p.root) ++ p.front.map .node

/-- What is printed behind the root element: all nodes but texts. -/
def printedAfter (p : Parts) : List Item := (p.after.filter fun n => !n.isText).map .node

/-- A document whose declarations are found as they are read, with no comments or instructions
before the document type declaration or inside of it, and with one root element. -/
structure Plain (p : Parts) (source : List Char) : Prop where
  declaration : Xml.declaration source = p.declaration
  doctype : printedDoctype source p.root = p.doctype
  order : p.doctype = [] ∨ p.before = []
  subset : p.subset = []
  root : ∀ n ∈ p.after, n.isElement = false

instance (p : Parts) (source : List Char) : Decidable (p.Plain source) :=
  decidable_of_iff (Xml.declaration source = p.declaration ∧
      printedDoctype source p.root = p.doctype ∧ (p.doctype.isEmpty ∨ p.before.isEmpty) ∧
      p.subset.isEmpty ∧ ∀ n ∈ p.after, n.isElement = false)
    ⟨fun ⟨declaration, doctype, order, subset, root⟩ => ⟨declaration, doctype,
        order.imp List.isEmpty_iff.mp List.isEmpty_iff.mp, List.isEmpty_iff.mp subset, root⟩,
      fun h => ⟨h.declaration, h.doctype,
        h.order.imp List.isEmpty_iff.mpr List.isEmpty_iff.mpr, List.isEmpty_iff.mpr h.subset,
        h.root⟩⟩

end Parts

section Items

variable {source xml t : List Char} {p : Parts} {d : Document} {ns : List Node}

theorem flatMap_nodes (o : Layout) (ns : List Node) :
    (ns.map Item.node).flatMap o.item = o.nodes 0 [] ns := by
  induction ns with
  | nil => rw [Layout.nodes]; rfl
  | cons n ns ih =>
    rw [List.map_cons, List.flatMap_cons, ih, Layout.nodes]
    rfl

/-- Texts at the top are not printed. -/
theorem nodes_without_texts (o : Layout) (ns : List Node) :
    o.nodes 0 [] (ns.filter fun n => !n.isText) = o.nodes 0 [] ns := by
  induction ns with
  | nil => rfl
  | cons n ns ih =>
    cases n with
    | text s =>
      have hleft : (Node.text s :: ns).filter (fun n => !n.isText) =
          ns.filter fun n => !n.isText := List.filter_cons_of_neg (by simp [Node.isText])
      rw [hleft, ih, Layout.nodes, Layout.node, List.nil_append]
    | element h children =>
      rw [List.filter_cons_of_pos (by rfl), Layout.nodes, Layout.nodes, ih]
    | comment s => rw [List.filter_cons_of_pos (by rfl), Layout.nodes, Layout.nodes, ih]
    | instruction q v => rw [List.filter_cons_of_pos (by rfl), Layout.nodes, Layout.nodes, ih]

theorem flatMap_declaration (o : Layout) (source : List Char) :
    (optional .declaration (declaration source)).flatMap o.item = printedDeclaration source := by
  unfold optional printedDeclaration
  split
  · rfl
  · rw [List.flatMap_singleton]
    rfl

theorem flatMap_doctype (o : Layout) (t : List Char) :
    (optional .doctype t).flatMap o.item = t := by
  unfold optional
  split
  · next ht => rw [ht]; rfl
  · rw [List.flatMap_singleton]
    rfl

/-- The pretty form is what is printed before the root element, the element, and the rest. -/
theorem prettify?_parts (h : Document.parse? source = some d) (hnodes : d.nodes = p.nodes)
    (hfront : ∀ n ∈ p.front, IsMisc n) (sameLine : Bool) :
    prettify? sameLine source = some (Layout.document ⟨source, sameLine⟩ (p.printedBefore source)
      (.element p.root p.children) p.printedAfter) := by
  rw [prettify?_eq h (Parts.root?_eq hnodes hfront), hnodes]
  simp only [Layout.document, Parts.nodes, Parts.printedBefore, Parts.printedAfter,
    List.flatMap_append, flatMap_declaration, flatMap_doctype, flatMap_nodes, nodes_without_texts,
    nodes_append, Layout.nodes, List.append_assoc]

/-! ### What is printed is what is read -/

def Item.declaration? : Item → Option (List Char)
  | .declaration t => some t
  | _ => none

def Item.doctype? : Item → Option (List Char)
  | .doctype t => some t
  | _ => none

def Item.node? : Item → Option Node
  | .node n => some n
  | _ => none

theorem optional_inj {make : List Char → Item} {f : Item → Option (List Char)}
    (hf : ∀ t, f (make t) = some t) {a b : List Char}
    (h : (optional make a).filterMap f = (optional make b).filterMap f) : a = b := by
  unfold optional at h
  split at h
  · next ha =>
    split at h
    · next hb => rw [ha, hb]
    · simp [hf] at h
  · split at h
    · simp [hf] at h
    · simpa [hf] using h

theorem filterMap_optional_none {β : Type} (make : List Char → Item) (f : Item → Option β)
    (hf : ∀ t, f (make t) = none) (a : List Char) : (optional make a).filterMap f = [] := by
  unfold optional
  split
  · rfl
  · simp [hf]

theorem filterMap_nodes_none {β : Type} {f : Item → Option β} (hf : ∀ n, f (.node n) = none)
    (ns : List Node) : (ns.map Item.node).filterMap f = [] := by
  rw [List.filterMap_map, List.filterMap_eq_nil_iff]
  exact fun n _ => hf n

theorem filterMap_nodes (ns : List Node) : (ns.map Item.node).filterMap Item.node? = ns := by
  rw [List.filterMap_map]
  exact List.filterMap_some

/-- What stands before the root element is printed in its order exactly where the declarations
are found as they are read, and the nodes before the root element are not about the document type
declaration. -/
theorem Parts.printedBefore_eq_iff (p : Parts) (source : List Char) :
    p.printedBefore source = p.itemsBefore ↔ Xml.declaration source = p.declaration ∧
      printedDoctype source p.root = p.doctype ∧ (p.doctype = [] ∨ p.before = []) ∧
      p.subset = [] := by
  unfold Parts.printedBefore Parts.itemsBefore Parts.front
  constructor
  · intro h
    have hdeclaration := congrArg (List.filterMap Item.declaration?) h
    have hdoctype := congrArg (List.filterMap Item.doctype?) h
    have hnodes := congrArg (List.filterMap Item.node?) h
    simp only [List.filterMap_append, List.map_append] at hdeclaration hdoctype hnodes
    simp only [filterMap_nodes_none (f := Item.declaration?) (fun _ => rfl),
      filterMap_optional_none .doctype Item.declaration? (fun _ => rfl),
      List.append_nil] at hdeclaration
    simp only [filterMap_nodes_none (f := Item.doctype?) (fun _ => rfl),
      filterMap_optional_none .declaration Item.doctype? (fun _ => rfl),
      List.append_nil, List.nil_append] at hdoctype
    simp only [filterMap_nodes,
      filterMap_optional_none .declaration Item.node? (fun _ => rfl),
      filterMap_optional_none .doctype Item.node? (fun _ => rfl),
      List.append_nil, List.nil_append] at hnodes
    have hd := optional_inj (fun _ => rfl) hdeclaration
    have ht := optional_inj (fun _ => rfl) hdoctype
    have hs : p.subset = [] := by
      rw [List.append_assoc, List.append_cancel_left_eq] at hnodes
      exact List.append_left_eq_self.mp hnodes
    refine ⟨hd, ht, ?_, hs⟩
    rw [hd, ht, hs, List.append_nil] at h
    by_contra hboth
    obtain ⟨hdoctype, hbefore⟩ := not_or.mp hboth
    obtain ⟨n, before, hn⟩ := List.exists_cons_of_ne_nil hbefore
    rw [List.append_assoc, List.append_assoc, List.append_assoc, List.append_cancel_left_eq,
      hn, optional, if_neg hdoctype] at h
    cases (List.cons.inj h).1
  · rintro ⟨hd, ht, horder, hs⟩
    rw [hd, ht, hs]
    rcases horder with hnone | hnone
    · simp [hnone, optional]
    · simp [hnone]

theorem Parts.printedAfter_eq_iff (p : Parts) :
    p.printedAfter = p.itemsAfter ↔ ∀ n ∈ p.after, n.isElement = false := by
  have hinj : Function.Injective Item.node := fun n m h => Item.node.inj h
  unfold Parts.printedAfter Parts.itemsAfter
  rw [hinj.list_map.eq_iff]
  constructor
  · intro h n hn
    by_contra hone
    rw [Bool.not_eq_false] at hone
    have hplain : n.isText = false := by
      cases n with
      | element hd children => rfl
      | text s => cases hone
      | comment s => cases hone
      | instruction q v => cases hone
    have hmem : n ∈ p.after.filter fun n => !n.isText := List.mem_filter.mpr ⟨hn, by simp [hplain]⟩
    rw [h] at hmem
    simpa [hone] using (List.mem_filter.mp hmem).2
  · intro h
    exact List.filter_congr fun n hn => by simp [h n hn]

end Items

/-- A document with both declarations, and with comments and instructions around its root. -/
def surroundedSample : List Char :=
  ("<?xml version=\"1.0\"?>\n<!DOCTYPE r [<!ENTITY e \"x\"><!ELEMENT r ANY>]>\n" ++
    "<!-- c --><?q w?><r>&e;</r><!-- d --><?z?>").toList

end Marginalia.Xml
