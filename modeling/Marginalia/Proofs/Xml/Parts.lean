import Marginalia.Proofs.Xml.Prolog

/-! The parts of a document: what stands before its root element, the root element, and what
follows. What stands before the root element is read back from where it is printed. -/

namespace Marginalia.Xml

/-! ### What stands before the root element -/

/-- The nodes before a document type declaration, and what follows them. -/
def beforeDoctype? (source : List Char) : Option (List Node × List Char) := do
  let cs ← skipDeclaration? (skipMark source)
  let (ns, cs) ← misc? source.length cs
  return (ns, skipSpaces cs)

/-- The nodes before the root element, the entities declared there, and what follows. -/
def prolog? (source : List Char) : Option (List Node × List Entity × List Char) := do
  let (before, cs) ← beforeDoctype? source
  let (subset, cs) ← doctype? source.length cs
  let (between, cs) ← misc? source.length cs
  return (before ++ subset.nodes ++ between, subset.entities, skipSpaces cs)

/-- The entities that a text declares. -/
def entitiesOf (source : List Char) : List Entity :=
  match prolog? source with
  | some (_, es, _) => es
  | none => []

/-- The lines of the document type declaration of a text, as it is read. -/
def doctypeAsRead (source : List Char) : List Char :=
  match beforeDoctype? source with
  | some (_, cs) => doctypeRead source.length cs
  | none => []

/-- The lines that a document type declaration is printed on. -/
def printedDoctype (source : List Char) (root : Head) : List Char :=
  match findDoctype? (source.take root.start) with
  | some t => doctypeLines t
  | none => []

/-- The line that an XML declaration is printed on. -/
def printedDeclaration (source : List Char) : List Char :=
  if declaration source = [] then [] else declaration source ++ ['\n']

section Prolog

variable {source rest cs r y : List Char} {ns after : List Node} {es : List Entity} {b : Builder}
  {d : Document}

theorem prolog?_eq_some (h : prolog? source = some (ns, es, rest)) :
    ∃ cs₀ before cs₁ subset cs₂ between cs₃, skipDeclaration? (skipMark source) = some cs₀ ∧
      misc? source.length cs₀ = some (before, cs₁) ∧
      doctype? source.length (skipSpaces cs₁) = some (subset, cs₂) ∧
      misc? source.length cs₂ = some (between, cs₃) ∧
      ns = before ++ subset.nodes ++ between ∧ es = subset.entities ∧ rest = skipSpaces cs₃ ∧
      doctypeAsRead source = doctypeRead source.length (skipSpaces cs₁) := by
  unfold prolog? at h
  obtain ⟨⟨before, cs⟩, hbefore, h⟩ := Option.bind_eq_some_iff.mp h
  obtain ⟨⟨subset, cs₂⟩, hdoctype, h⟩ := Option.bind_eq_some_iff.mp h
  obtain ⟨⟨between, cs₃⟩, hbetween, h⟩ := Option.bind_eq_some_iff.mp h
  obtain ⟨rfl, he⟩ := Prod.mk.inj (Option.some.inj h)
  obtain ⟨rfl, rfl⟩ := Prod.mk.inj he
  have hread : doctypeAsRead source = doctypeRead source.length cs := by
    unfold doctypeAsRead
    rw [hbefore]
  unfold beforeDoctype? at hbefore
  obtain ⟨cs₀, hdeclaration, hbefore⟩ := Option.bind_eq_some_iff.mp hbefore
  obtain ⟨⟨before', cs₁⟩, hmisc, hbefore⟩ := Option.bind_eq_some_iff.mp hbefore
  obtain ⟨rfl, rfl⟩ := Prod.mk.inj (Option.some.inj hbefore)
  exact ⟨cs₀, before', cs₁, subset, cs₂, between, cs₃, hdeclaration, hmisc, hdoctype, hbetween,
    rfl, rfl, rfl, hread⟩

theorem prolog?_of_parts {cs₀ cs₁ cs₂ cs₃ : List Char} {before between : List Node} {s : Subset}
    (hdeclaration : skipDeclaration? (skipMark source) = some cs₀)
    (hbefore : misc? source.length cs₀ = some (before, cs₁))
    (hdoctype : doctype? source.length (skipSpaces cs₁) = some (s, cs₂))
    (hbetween : misc? source.length cs₂ = some (between, cs₃)) :
    prolog? source = some (before ++ s.nodes ++ between, s.entities, skipSpaces cs₃) := by
  unfold prolog? beforeDoctype?
  simp only [Option.bind_eq_bind, hdeclaration, Option.bind_some, hbefore, Option.pure_def,
    hdoctype, hbetween]

theorem entitiesOf_eq (h : prolog? source = some (ns, es, rest)) : entitiesOf source = es := by
  unfold entitiesOf
  rw [h]

/-- The nodes before the root element are no elements. -/
theorem prolog?_facts (h : prolog? source = some (ns, es, rest)) :
    (∀ n ∈ ns, IsMisc n) ∧ rest <:+ source ∧ ∀ e ∈ es, e.value.length < source.length := by
  obtain ⟨cs₀, before, cs₁, subset, cs₂, between, cs₃, hdeclaration, hbefore, hdoctype, hbetween,
    rfl, rfl, rfl, -⟩ := prolog?_eq_some h
  obtain ⟨hmisc₁, hsuffix₁⟩ := misc?_facts hbefore
  obtain ⟨hlen, hmisc₂, hsuffix₂⟩ := readOf_doctype? hdoctype
  obtain ⟨hmisc₃, hsuffix₃⟩ := misc?_facts hbetween
  have hmark : skipMark source <:+ source := by
    unfold skipMark
    split
    · exact List.suffix_cons _ _
    · exact List.suffix_refl _
  have hpast : skipSpaces cs₁ <:+ source :=
    (List.dropWhile_suffix _).trans
      (hsuffix₁.trans ((skipDeclaration?_suffix hdeclaration).trans hmark))
  have hmisc := List.forall_mem_append.mpr ⟨List.forall_mem_append.mpr ⟨hmisc₁, hmisc₂⟩, hmisc₃⟩
  refine ⟨hmisc, ?_, fun e he => ?_⟩
  · exact (List.dropWhile_suffix _).trans (hsuffix₃.trans (hsuffix₂.trans hpast))
  · exact Nat.lt_of_lt_of_le (hlen e he) hpast.length_le

/-- A document is a prolog, an element and comments and instructions after it. -/
theorem parse?_eq_some (h : Document.parse? source = some d) :
    ∃ ns es cs r b after, prolog? source = some (ns, es, '<' :: cs) ∧
      element? source.length (12 * (source.length + 2)) ('<' :: cs) (Builder.start source es ns) =
        some (r, b) ∧
      misc? source.length r = some (after, []) ∧ b.frames = [] ∧
      (b.top ++ after).any Node.isElement = true ∧ d = ⟨source, b.top ++ after⟩ := by
  unfold Document.parse? at h
  obtain ⟨cs₀, hdeclaration, h⟩ := Option.bind_eq_some_iff.mp h
  obtain ⟨⟨before, cs₁⟩, hbefore, h⟩ := Option.bind_eq_some_iff.mp h
  obtain ⟨⟨subset, cs₂⟩, hdoctype, h⟩ := Option.bind_eq_some_iff.mp h
  obtain ⟨⟨between, cs₃⟩, hbetween, h⟩ := Option.bind_eq_some_iff.mp h
  have hprolog := prolog?_of_parts hdeclaration hbefore hdoctype hbetween
  have hend {r : List Char} {b : Builder}
      (h : ((misc? source.length r).bind fun a =>
        if a.2 ≠ [] then none
        else if !(b.top ++ a.1).any Node.isElement || !b.frames.isEmpty then none
        else some (⟨source, b.top ++ a.1⟩ : Document)) = some d) :
      ∃ after, misc? source.length r = some (after, []) ∧ b.frames = [] ∧
        (b.top ++ after).any Node.isElement = true ∧ d = ⟨source, b.top ++ after⟩ := by
    obtain ⟨⟨after, r'⟩, hafter, h⟩ := Option.bind_eq_some_iff.mp h
    dsimp only at h
    split at h
    · cases h
    · next hr' =>
      split at h
      · cases h
      · next hgood =>
        obtain rfl := Option.some.inj h
        obtain rfl : r' = [] := by simpa using hr'
        rw [Bool.or_eq_true, not_or, Bool.not_eq_true', Bool.not_eq_true', Bool.not_eq_false,
          Bool.not_eq_false, List.isEmpty_iff] at hgood
        exact ⟨after, hafter, hgood.2, hgood.1, rfl⟩
  dsimp only at h
  split at h
  · next r hr =>
    obtain ⟨⟨r', b⟩, helement, h⟩ := Option.bind_eq_some_iff.mp h
    obtain ⟨after, hafter, hframes, hany, rfl⟩ := hend h
    rw [hr] at hprolog
    exact ⟨_, _, r, r', b, after, hprolog, helement, hafter, hframes, hany, rfl⟩
  · obtain ⟨after, hafter, -, hany, -⟩ := hend h
    have hmisc := (prolog?_facts hprolog).1
    obtain ⟨n, hn, helement⟩ := List.any_eq_true.mp hany
    have hnone : n.isElement = false := by
      rcases List.mem_append.mp hn with hn | hn
      · exact (hmisc n hn).2.1
      · exact ((misc?_facts hafter).1 n hn).2.1
    rw [hnone] at helement
    cases helement

theorem parse?_of_prolog (hprolog : prolog? source = some (ns, es, '<' :: cs))
    (helement : element? source.length (12 * (source.length + 2)) ('<' :: cs)
      (Builder.start source es ns) = some (r, b))
    (hafter : misc? source.length r = some (after, [])) (hframes : b.frames = [])
    (hany : (b.top ++ after).any Node.isElement = true) :
    Document.parse? source = some ⟨source, b.top ++ after⟩ := by
  obtain ⟨cs₀, before, cs₁, subset, cs₂, between, cs₃, hdeclaration, hbefore, hdoctype, hbetween,
    rfl, rfl, hrest, -⟩ := prolog?_eq_some hprolog
  unfold Document.parse?
  simp only [Option.bind_eq_bind, hdeclaration, Option.bind_some, hbefore, hdoctype, hbetween,
    ← hrest]
  have hbudget (es : List Entity) (ns : List Node) :
      (Builder.start source es ns).budget = 12 * (source.length + 2) := rfl
  rw [hbudget, helement, Option.bind_some, hafter, Option.bind_some]
  dsimp only
  rw [hany, hframes]
  rfl

end Prolog

/-! ### Declarations that are printed -/

/-- A text with neither a byte order mark nor an XML declaration in front. -/
structure IsUndeclared (cs : List Char) : Prop where
  mark : skipMark cs = cs
  declaration : Text.startsWith "<?xml ".toList cs = false

section Declarations

variable {source cs r t y tail : List Char} {ns : List Node} {fuel level : Nat} {o : Layout}
  {outer : List Binding}

theorem instruction?_of_misc? (h : misc? fuel cs = some (ns, r)) (hfuel : 0 < fuel)
    (hquery : Text.startsWith "<?".toList cs = true) :
    ∃ n rest, instruction? cs = some (n, rest) := by
  obtain ⟨z, rfl⟩ := startsWith_eq_true.mp hquery
  have hskip : skipSpaces ("<?".toList ++ z) = "<?".toList ++ z := skipSpaces_cons (by decide)
  have hcomment : Text.dropLead? "<!--".toList ("<?".toList ++ z) = none := rfl
  obtain ⟨fuel, rfl⟩ : ∃ f, fuel = f + 1 := ⟨fuel - 1, by omega⟩
  rw [misc?] at h
  dsimp only at h
  rw [hskip, hcomment, if_pos hquery] at h
  dsimp only at h
  split at h
  · next n rest hn => exact ⟨n, rest, hn⟩
  · cases h

/-- An instruction that is taken for a declaration is printed as it is written. -/
theorem declaration_of_instruction? {u : List Char} {n : Node}
    (hmark : Text.startsWith "<?xml".toList source = true) (hn : instruction? source = some (n, r))
    (hu : source = u ++ r) : declaration source = u := by
  obtain ⟨inner, hsplit⟩ := splitAt?_instruction hn
  have hall : source = inner ++ "?>".toList ++ r := Text.append_eq_of_splitAt? hsplit
  unfold declaration
  rw [if_pos hmark, hsplit]
  exact List.append_cancel_right (hall.symm.trans hu)

/-- A line in front of a text is passed over where a document begins. What is left of it is read
along with the comments and instructions behind it. -/
def LinePassed (line y : List Char) : Prop :=
  ∃ lead, skipDeclaration? (skipMark (line ++ y)) = some (lead ++ y) ∧
    lead.length ≤ line.length ∧
    ∀ k rest, (∀ w, (∀ c ∈ w, isSpace c = true) → MiscRead k (w ++ y) rest) →
      MiscRead (k + lead.length) (lead ++ y) rest

theorem linePassed_nil (hy : IsUndeclared y) : LinePassed [] y := by
  refine ⟨[], ?_, Nat.le_refl _, fun k rest hmore => hmore [] (by simp)⟩
  rw [List.nil_append, hy.mark, skipDeclaration?_none hy.declaration]

theorem linePassed_declaration {u : List Char}
    (h : ∀ x, skipDeclaration? ("<?xml ".toList ++ u ++ x) = some x) (y : List Char) :
    LinePassed ("<?xml ".toList ++ u ++ ['\n']) y := by
  refine ⟨['\n'], ?_, by simp, fun k rest hmore => (hmore ['\n'] isSpace_line).mono (by simp)⟩
  rw [List.append_assoc ("<?xml ".toList ++ u)]
  exact h (['\n'] ++ y)

/-- An instruction on the line stays as a whole. -/
theorem linePassed_instruction {u : List Char} {q : List Char} {v : Option (List Char)}
    (h : ∀ x, instruction? (u ++ x) = some (.instruction q v, x)) (y : List Char) :
    LinePassed (u ++ ['\n']) y := by
  obtain ⟨⟨x, hx⟩, hplain⟩ := instruction?_begins (h (['\n'] ++ y))
  have hkeep : skipMark (u ++ (['\n'] ++ y)) = u ++ (['\n'] ++ y) := by
    rw [hx]
    rfl
  refine ⟨u ++ ['\n'], ?_, Nat.le_refl _, fun k rest hmore => ?_⟩
  · rw [List.append_assoc, hkeep, skipDeclaration?_none hplain]
  · have hread := @miscRead_instruction k _ rest [] u _ (by simp) rfl
      (h (['\n'] ++ y)) (hmore ['\n'] isSpace_line)
    rw [List.append_assoc]
    exact hread.mono (by simp)

/-- A declaration is read from its line, an instruction that is taken for one as an instruction. -/
theorem printedDeclaration_read (h : skipDeclaration? (skipMark source) = some cs)
    (hmisc : misc? fuel cs = some (ns, r)) (hfuel : 0 < fuel)
    (hfound : Text.startsWith "<?xml ".toList source = true → ∀ cs,
      skipDeclaration? source = some cs → declaration source = consumed source cs)
    (hy : IsUndeclared y) : LinePassed (printedDeclaration source) y := by
  by_cases hempty : declaration source = []
  · have hline : printedDeclaration source = [] := if_pos hempty
    rw [hline]
    exact linePassed_nil hy
  · have hline : printedDeclaration source = declaration source ++ ['\n'] := if_neg hempty
    have hmark : Text.startsWith "<?xml".toList source = true := by
      by_contra hno
      exact hempty (if_neg hno)
    obtain ⟨z, hz⟩ := startsWith_eq_true.mp hmark
    have hsource : skipMark source = source := by
      rw [hz]
      rfl
    rw [hsource] at h
    rw [hline]
    cases hspace : Text.startsWith "<?xml ".toList source with
    | true =>
      obtain ⟨u, hu, hlocal⟩ := skipDeclaration?_eq_some h hspace
      have hused : declaration source = "<?xml ".toList ++ u := by
        rw [hfound hspace cs h, hu, consumed_append]
      rw [hused]
      exact linePassed_declaration hlocal y
    | false =>
      rw [skipDeclaration?_none hspace] at h
      obtain rfl := Option.some.inj h
      have hquery : Text.startsWith "<?".toList source = true := by
        rw [hz]
        rfl
      obtain ⟨n, r₁, hn⟩ := instruction?_of_misc? hmisc hfuel hquery
      obtain ⟨q, v, rfl, -, u, hu, -, hlocal⟩ := instruction?_eq_some hn
      rw [declaration_of_instruction? hmark hn hu]
      exact linePassed_instruction hlocal y

/-- What is printed at the top does not begin with a declaration. -/
theorem isUndeclared_nodes (hs : SoundIn outer ns) (hns : ∀ n ∈ ns, n.isElement = false)
    (hxml : ∀ q v, .instruction q v ∈ ns → q = "xml".toList → v = none)
    (htail : IsUndeclared tail) : IsUndeclared (o.nodes 0 outer ns ++ tail) := by
  induction ns with
  | nil =>
    have hnodes : o.nodes 0 outer [] = [] := by rw [Layout.nodes]
    rw [hnodes, List.nil_append]
    exact htail
  | cons n ns ih =>
    rw [SoundIn] at hs
    have hnodes : o.nodes 0 outer (n :: ns) = o.node 0 outer n ++ o.nodes 0 outer ns := by
      rw [Layout.nodes]
    rw [hnodes, List.append_assoc]
    cases n with
    | element h children => exact absurd (hns _ List.mem_cons_self) (by simp [Node.isElement])
    | text s =>
      rw [Layout.node, List.nil_append]
      exact ih hs.2 (fun m hm => hns m (List.mem_cons_of_mem _ hm))
        fun q v hm => hxml q v (List.mem_cons_of_mem _ hm)
    | comment s =>
      rw [node_comment]
      exact ⟨rfl, rfl⟩
    | instruction q v =>
      have hi : Node.Sound outer (.instruction q v) := hs.1
      rw [Node.Sound] at hi
      have hread := instruction?_written hi (hxml q v List.mem_cons_self)
        (['\n'] ++ (o.nodes 0 outer ns ++ tail))
      obtain ⟨⟨x, hx⟩, hplain⟩ := instruction?_begins hread
      have hnode : o.node 0 outer (.instruction q v) = writtenInstruction q v ++ ['\n'] :=
        node_instruction o 0 outer q v
      rw [hnode, List.append_assoc]
      refine ⟨?_, hplain⟩
      rw [hx]
      rfl

theorem BeginsTag.isUndeclared (h : BeginsTag tail) : IsUndeclared tail := by
  obtain ⟨c, t, rfl, -, hquery⟩ := h
  exact ⟨rfl, by simp [Text.startsWith, Text.dropLead?, hquery.symm]⟩

theorem BeginsTag.doctype? (h : BeginsTag tail) (stop : Nat) :
    Xml.doctype? stop (skipSpaces tail) = some (⟨[], []⟩, tail) := by
  have hskip : skipSpaces tail = tail := dropWhile_eq_self h.pastMisc.space
  obtain ⟨c, t, rfl, hbang, -⟩ := h
  rw [hskip]
  exact doctype?_none (by simp [Text.startsWith, Text.dropLead?, hbang.symm])

/-- The text before the root element is read from where it is printed: first where it declares a
document type. -/
theorem prolog?_printed_doctype {cs₀ cs₁ cs₂ out : List Char} {ns₁ : List Node} {s : Subset}
    (hdeclaration : skipDeclaration? (skipMark source) = some cs₀)
    (hmisc : misc? source.length cs₀ = some (ns₁, cs₁)) (hsource : 0 < source.length)
    (hdoctype : doctype? source.length (skipSpaces cs₁) = some (s, cs₂)) (hcs₂ : cs₂ ≠ [])
    (hstart : Text.startsWith "<!DOCTYPE".toList (skipSpaces cs₁) = true)
    (hfound : Text.startsWith "<?xml ".toList source = true → ∀ cs,
      skipDeclaration? source = some cs → declaration source = consumed source cs)
    (hs : SoundIn [] ns) (hns : ∀ n ∈ ns, n.isElement = false)
    (hxml : ∀ q v, .instruction q v ∈ ns → q = "xml".toList → v = none) (htail : BeginsTag tail)
    (hout : out = printedDeclaration source ++
      (doctypeRead source.length (skipSpaces cs₁) ++ (o.nodes 0 [] ns ++ tail))) :
    ∃ before es, prolog? out = some (before, es, tail) ∧ SameEntities s.entities es := by
  obtain ⟨⟨x, hx⟩, hlocal⟩ := doctype?_lines hdoctype hcs₂ hstart
  generalize hy : doctypeRead source.length (skipSpaces cs₁) ++ (o.nodes 0 [] ns ++ tail) = y
    at hout
  have hmark : PastMisc y ∧ IsUndeclared y := by
    rw [← hy, hx, List.append_assoc]
    exact ⟨pastMisc_doctype _, rfl, rfl⟩
  obtain ⟨lead, hlead, hlen, hmore⟩ :=
    printedDeclaration_read hdeclaration hmisc hsource hfound hmark.2
  rw [← hout] at hlead
  have hfuel : 0 + lead.length < out.length ∧ (o.nodes 0 [] ns).length < out.length := by
    have hmarked : (o.nodes 0 [] ns).length < y.length := by
      rw [← hy, hx]
      simp only [List.length_append]
      have hname : "<!DOCTYPE".toList.length = 9 := rfl
      omega
    rw [hout, List.length_append]
    omega
  obtain ⟨before₁, -, hread₁⟩ :=
    hmore 0 y (fun w hw => miscRead_end hw hmark.1) out.length hfuel.1
  obtain ⟨s', hdoctype', hsame⟩ := hlocal out.length (o.nodes 0 [] ns ++ tail)
  obtain ⟨before₂, -, hread₂⟩ := @miscRead_nodes 0 ['\n'] _ ns o [] hs hns hxml htail.pastMisc
    isSpace_line out.length hfuel.2
  have hstay : skipSpaces y = y := dropWhile_eq_self hmark.1.space
  rw [hy, ← hstay] at hdoctype'
  have hprolog := prolog?_of_parts hlead hread₁ hdoctype' hread₂
  have hskip : skipSpaces tail = tail := dropWhile_eq_self htail.pastMisc.space
  rw [hskip] at hprolog
  exact ⟨_, _, hprolog, hsame⟩

/-- The same where it declares none. -/
theorem prolog?_printed_plain {cs₀ cs₁ out : List Char} {ns₁ : List Node}
    (hdeclaration : skipDeclaration? (skipMark source) = some cs₀)
    (hmisc : misc? source.length cs₀ = some (ns₁, cs₁)) (hsource : 0 < source.length)
    (hfound : Text.startsWith "<?xml ".toList source = true → ∀ cs,
      skipDeclaration? source = some cs → declaration source = consumed source cs)
    (hs : SoundIn [] ns) (hns : ∀ n ∈ ns, n.isElement = false)
    (hxml : ∀ q v, .instruction q v ∈ ns → q = "xml".toList → v = none) (htail : BeginsTag tail)
    (hout : out = printedDeclaration source ++ (o.nodes 0 [] ns ++ tail)) :
    ∃ before, prolog? out = some (before, [], tail) := by
  obtain ⟨lead, hlead, hlen, hmore⟩ := printedDeclaration_read hdeclaration hmisc hsource hfound
    (@isUndeclared_nodes tail ns o [] hs hns hxml htail.isUndeclared)
  rw [← hout] at hlead
  have hfuel : (o.nodes 0 [] ns).length + lead.length < out.length := by
    obtain ⟨c, t, rfl, -⟩ := htail
    rw [hout]
    simp only [List.length_append, List.length_cons]
    omega
  obtain ⟨before₁, -, hread₁⟩ := hmore _ _
    (fun w hw => @miscRead_nodes 0 w _ ns o [] hs hns hxml htail.pastMisc hw) out.length hfuel
  obtain ⟨before₂, -, hread₂⟩ :=
    (@miscRead_end [] tail (by simp) htail.pastMisc) out.length (by omega)
  have hprolog := prolog?_of_parts hlead hread₁ (htail.doctype? out.length) hread₂
  have hskip : skipSpaces tail = tail := dropWhile_eq_self htail.pastMisc.space
  rw [hskip] at hprolog
  exact ⟨_, hprolog⟩

/-- The text before the root element is read from where it is printed: the same entities, and
comments and instructions alone. -/
theorem prolog?_printed {es : List Entity} {before : List Node}
    (h : prolog? source = some (before, es, r)) (hr : r ≠ [])
    (hfound : Text.startsWith "<?xml ".toList source = true → ∀ cs,
      skipDeclaration? source = some cs → declaration source = consumed source cs)
    (hs : SoundIn [] ns) (hns : ∀ n ∈ ns, n.isElement = false)
    (hxml : ∀ q v, .instruction q v ∈ ns → q = "xml".toList → v = none) (htail : BeginsTag tail)
    {out : List Char} (hout : out = printedDeclaration source ++
      (doctypeAsRead source ++ (o.nodes 0 [] ns ++ tail))) :
    ∃ before' es', prolog? out = some (before', es', tail) ∧
      (∀ n ∈ before', n.isElement = false) ∧ SameEntities es es' := by
  have hsource : 0 < source.length :=
    Nat.lt_of_lt_of_le (List.length_pos_iff.mpr hr) (prolog?_facts h).2.1.length_le
  obtain ⟨cs₀, ns₁, cs₁, subset, cs₂, ns₂, cs₃, hdeclaration, hmisc₁, hdoctype, hmisc₂, -, rfl,
    rfl, hread⟩ := prolog?_eq_some h
  have hplain {before' es'} (hprolog : prolog? out = some (before', es', tail)) :
      ∀ n ∈ before', n.isElement = false :=
    fun n hn => ((prolog?_facts hprolog).1 n hn).2.1
  rw [hread] at hout
  cases hstart : Text.startsWith "<!DOCTYPE".toList (skipSpaces cs₁) with
  | true =>
    have hcs₂ : cs₂ ≠ [] := by
      rintro rfl
      obtain rfl := List.suffix_nil.mp (misc?_facts hmisc₂).2
      exact hr rfl
    obtain ⟨before', es', hprolog, hsame⟩ := prolog?_printed_doctype hdeclaration hmisc₁ hsource
      hdoctype hcs₂ hstart hfound hs hns hxml htail hout
    exact ⟨before', es', hprolog, hplain hprolog, hsame⟩
  | false =>
    rw [doctypeRead_none hstart, List.nil_append] at hout
    obtain ⟨before', hprolog⟩ := prolog?_printed_plain hdeclaration hmisc₁ hsource hfound hs hns
      hxml htail hout
    rw [doctype?_none hstart] at hdoctype
    obtain ⟨rfl, -⟩ := Prod.mk.inj (Option.some.inj hdoctype)
    exact ⟨before', [], hprolog, hplain hprolog, sameEntities_nil⟩

end Declarations

end Marginalia.Xml
