import Marginalia.Xml.Parser
import Marginalia.Proofs.Xml.Lexing

/-! Entities that hold text alone. What a reference to one of them adds to the text of an element
depends on nothing but the entities, however much fuel is left. -/

namespace Marginalia.Xml

/-! ### Text added to the children -/

namespace Builder

variable {b : Builder} {s t : List Char} {ns : List Node}

theorem extendLast_concat (s t : List Char) (ns : List Node) :
    extendLast t (ns ++ [.text s]) = ns ++ [.text (s ++ t)] := by
  simp [extendLast]

theorem extendLast_append (s t : List Char) (ns : List Node) :
    extendLast (s ++ t) ns = extendLast t (extendLast s ns) := by
  have hcases : (∃ ms u, ns = ms ++ [.text u]) ∨ ∀ s, extendLast s ns = ns := by
    cases hl : ns.getLast? with
    | none => exact Or.inr fun s => by simp [extendLast, hl]
    | some n =>
      cases n with
      | text u =>
        obtain ⟨ms, hms⟩ := List.getLast?_eq_some_iff.mp hl
        exact Or.inl ⟨ms, u, hms⟩
      | element h ms => exact Or.inr fun s => by simp [extendLast, hl]
      | comment u => exact Or.inr fun s => by simp [extendLast, hl]
      | instruction u v => exact Or.inr fun s => by simp [extendLast, hl]
  rcases hcases with ⟨ms, u, rfl⟩ | hsame
  · simp only [extendLast_concat, List.append_assoc]
  · simp only [hsame]

/-- Text joins the children, unless it is empty. -/
def addText (b : Builder) (s : List Char) : Builder := if s = [] then b else b.appendText s

theorem flush_eq (b : Builder) (text : Buffer) : b.flush text = b.addText text.reverse := by
  simp [flush, addText]

theorem appendText_appendText (s t : List Char) :
    (b.appendText s).appendText t = b.appendText (s ++ t) := by
  unfold appendText append modifyChildren
  cases b.afterText <;> cases b.frames <;> simp [extendLast_concat, extendLast_append]

theorem addText_append (s t : List Char) : b.addText (s ++ t) = (b.addText s).addText t := by
  unfold addText
  by_cases hs : s = []
  · simp [hs]
  · by_cases ht : t = []
    · simp [ht]
    · simp [hs, ht, appendText_appendText]

/-- Nesting and tag do not matter to what text does. -/
theorem addText_within (b : Builder) (s : List Char) (n : Nesting) (tag : Option (QName × Nat)) :
    addText { b with nesting := n, tag := tag } s =
      { b.addText s with nesting := n, tag := tag } := by
  unfold addText appendText append modifyChildren
  split
  · rfl
  · cases b.afterText <;> cases b.frames <;> rfl

@[simp] theorem entities_addText : (b.addText s).entities = b.entities := by
  unfold addText appendText append modifyChildren
  split
  · rfl
  · cases b.afterText <;> cases b.frames <;> rfl

@[simp] theorem nesting_addText : (b.addText s).nesting = b.nesting := by
  unfold addText appendText append modifyChildren
  split
  · rfl
  · cases b.afterText <;> cases b.frames <;> rfl

@[simp] theorem tag_addText : (b.addText s).tag = b.tag := by
  unfold addText appendText append modifyChildren
  split
  · rfl
  · cases b.afterText <;> cases b.frames <;> rfl

/-- Text of an entity joins the text before it and the text after it. -/
theorem addText_around (b : Builder) (u s t : List Char) (inner n : Nesting) :
    addText { addText { b.addText u with nesting := inner, tag := none } s with
        nesting := n, tag := b.tag } t =
      { b.addText (u ++ s ++ t) with nesting := n } := by
  have htag : b.tag = (b.addText (u ++ s ++ t)).tag := tag_addText.symm
  rw [addText_within (b.addText u) s inner none, ← addText_append]
  rw [addText_within (b.addText (u ++ s)) t n b.tag, ← addText_append, htag]

end Builder

/-! ### Steps of reading text -/

section Steps

variable {limit fuel : Nat} {cs r r' : List Char} {buf : Buffer} {written : Bool} {b : Builder}

/-- A character joins the text before it, as it is or with line ends made uniform. -/
def Buffer.push (buf : Buffer) (written : Bool) (c : Char) (atEnd : Bool) : Buffer :=
  if written then c :: buf else Buffer.pushText buf c atEnd

theorem text?_bare (hr : reference? r = none) :
    text? limit (fuel + 1) ('&' :: r) buf written b = none := by
  rw [text?]
  simp only [hr]

theorem text?_char {c : Char} (hr : reference? r = some (.char c, r')) :
    text? limit (fuel + 1) ('&' :: r) buf written b =
      text? limit fuel r' (buf.push (b.nesting.depth == 0) c r'.isEmpty)
        (b.nesting.depth == 0 || written) b := by
  rw [text?]
  simp only [hr]
  by_cases hd : b.nesting.depth = 0
  · rw [if_pos hd, hd]
    rfl
  · rw [if_neg hd, beq_eq_false_iff_ne.mpr hd]
    rfl

theorem text?_entity {name : List Char} (hr : reference? r = some (.entity name, r')) :
    text? limit (fuel + 1) ('&' :: r) buf written b =
      match b.entities.find? fun e => e.name = name with
      | none => none
      | some e =>
        match b.nesting.enter? with
        | none => none
        | some inner =>
          match content? e.stop fuel e.value
            { b.addText buf.reverse with nesting := inner, tag := none } with
          | none => none
          | some (_, b') =>
            text? limit fuel r' [] false { b' with nesting := b'.nesting.leave, tag := b.tag } := by
  generalize hread : text? limit (fuel + 1) ('&' :: r) buf written b = x
  rw [text?] at hread
  simp only [hr, Builder.flush_eq, Builder.entities_addText, Builder.nesting_addText,
    Builder.tag_addText] at hread ⊢
  exact hread.symm

theorem text?_plain {c : Char} (hc : c ≠ '&') :
    text? limit (fuel + 1) (c :: r) buf written b =
      text? limit fuel r (buf.push written c r.isEmpty) false b := by
  rw [text?]
  · cases written <;> rfl
  · exact hc

theorem text?_nil : text? limit (fuel + 1) [] buf written b = some (b.addText buf.reverse) := by
  rw [text?, Builder.flush_eq]

/-- A step of reading text: what stands first, and what is read after it. -/
inductive TextStep (limit fuel : Nat) (buf : Buffer) (written : Bool) (b b' : Builder) :
    List Char → Prop
  | ended : b' = b.addText buf.reverse → TextStep limit fuel buf written b b' []
  | char {c : Char} {r r' : List Char} : reference? r = some (.char c, r') →
      text? limit fuel r' (buf.push (b.nesting.depth == 0) c r'.isEmpty)
        (b.nesting.depth == 0 || written) b = some b' →
      TextStep limit fuel buf written b b' ('&' :: r)
  | entity {name r r' rest : List Char} {e : Entity} {inner : Nesting} {b₁ : Builder} :
      reference? r = some (.entity name, r') →
      (b.entities.find? fun e => e.name = name) = some e → b.nesting.enter? = some inner →
      content? e.stop fuel e.value
        { b.addText buf.reverse with nesting := inner, tag := none } = some (rest, b₁) →
      text? limit fuel r' [] false
        { b₁ with nesting := b₁.nesting.leave, tag := b.tag } = some b' →
      TextStep limit fuel buf written b b' ('&' :: r)
  | plain {c : Char} {r : List Char} : c ≠ '&' →
      text? limit fuel r (buf.push written c r.isEmpty) false b = some b' →
      TextStep limit fuel buf written b b' (c :: r)

theorem textStep_of_text? {b' : Builder}
    (h : text? limit (fuel + 1) cs buf written b = some b') :
    TextStep limit fuel buf written b b' cs := by
  cases cs with
  | nil =>
    rw [text?_nil] at h
    exact .ended (Option.some.inj h).symm
  | cons c r =>
    by_cases hc : c = '&'
    · subst hc
      cases hr : reference? r with
      | none =>
        rw [text?_bare hr] at h
        cases h
      | some xr =>
        obtain ⟨x, r'⟩ := xr
        cases x with
        | char c =>
          rw [text?_char hr] at h
          exact .char hr h
        | entity name =>
          rw [text?_entity hr] at h
          split at h
          · cases h
          · next e he =>
            split at h
            · cases h
            · next inner hinner =>
              split at h
              · cases h
              · next rest b₁ hb₁ => exact .entity hr he hinner hb₁ h
    · rw [text?_plain hc] at h
      exact .plain hc h

theorem content?_nil : content? limit (fuel + 1) [] b = some ([], b) := by
  rw [content?]

/-- A run of text that may stand between tags. -/
def IsRun (cs : List Char) : Bool := cs.all isLegal && (Text.splitAt? "]]>".toList cs).isNone

/-- The text up to the next mark is read as one run. -/
theorem content?_run {run tail : List Char} (hne : run ≠ []) (hopen : '<' ∉ run)
    (htail : Stops (fun c => decide (c ≠ '<')) tail) :
    content? limit (fuel + 1) (run ++ tail) b =
      if IsRun run then
        (text? limit fuel run [] false b).bind fun b' => content? limit fuel tail b'
      else none := by
  have hrun : ∀ c ∈ run, decide (c ≠ '<') = true := by
    intro c hc
    simpa using fun he : c = '<' => hopen (he ▸ hc)
  have htake := takeWhile_run hrun htail
  have hdrop := dropWhile_run hrun htail
  obtain ⟨c, run, rfl⟩ := List.exists_cons_of_ne_nil hne
  have hc : c ≠ '<' := fun he => hopen (he ▸ List.mem_cons_self)
  rw [content?]
  · simp only [htake, hdrop]
    change (if IsRun (c :: run) = true then _ else none) = _
    cases IsRun (c :: run) with
    | true => cases text? limit fuel (c :: run) [] false b <;> rfl
    | false => rfl
  all_goals
    intros
    simp_all

end Steps

/-! ### What a reference leads to -/

/-- Entities that hold text alone, none of them longer than a number of characters. -/
def PlainEntities (limit : Nat) (es : List Entity) : Prop :=
  ∀ e ∈ es, '<' ∉ e.value ∧ e.value.length ≤ limit

/-- The same entities, which may stand elsewhere in a text. -/
def SameEntities (es es' : List Entity) : Prop :=
  es.map (fun e => (e.name, e.value)) = es'.map fun e => (e.name, e.value)

theorem SameEntities.find? {es es' : List Entity} (h : SameEntities es es') {name : List Char}
    {e : Entity} (he : (es.find? fun e => e.name = name) = some e) :
    ∃ e', (es'.find? fun e => e.name = name) = some e' ∧ e'.value = e.value := by
  induction es generalizing es' with
  | nil => cases he
  | cons d es ih =>
    cases es' with
    | nil => cases h
    | cons d' es' =>
      obtain ⟨hd, hes⟩ := List.cons.inj h
      obtain ⟨hname, hvalue⟩ := Prod.mk.inj hd
      rw [List.find?_cons] at he
      split at he
      · next hn =>
        obtain rfl := Option.some.inj he
        exact ⟨d', by rw [List.find?_cons, ← hname, hn], hvalue.symm⟩
      · next hn =>
        obtain ⟨e', he', hv⟩ := ih hes he
        refine ⟨e', ?_, hv⟩
        rw [List.find?_cons, ← hname, hn]
        exact he'

theorem SameEntities.exists_mem {es es' : List Entity} (h : SameEntities es es') {e : Entity}
    (he : e ∈ es) : ∃ e' ∈ es', e'.value = e.value := by
  have hm : (e.name, e.value) ∈ es'.map fun e => (e.name, e.value) := h ▸ List.mem_map_of_mem he
  obtain ⟨e', he', heq⟩ := List.mem_map.mp hm
  exact ⟨e', he', (Prod.mk.inj heq).2⟩

theorem depth_leave (n : Nesting) : n.leave.depth = n.depth - 1 := by
  unfold Nesting.leave
  split
  · next h =>
    simp only
    omega
  · rfl

theorem depth_enter? {n inner : Nesting} (h : n.enter? = some inner) :
    inner.depth = n.depth + 1 ∧ n.depth < 10 := by
  unfold Nesting.enter? at h
  split at h
  · cases h
  · split at h
    · next hlt =>
      obtain rfl := Option.some.inj h
      exact ⟨rfl, hlt⟩
    · cases h

/-- The fuel that text of a length may take at a depth inside entities. -/
def fuelFor (limit length depth : Nat) : Nat := length + (10 - depth) * (limit + 3) + 1

/-- What a text adds to any builder with the same entities, given enough fuel, and the nesting
that is left. -/
def Adds (limit : Nat) (es : List Entity) (n : Nesting) (cs : List Char) (buf : Buffer)
    (written : Bool) (s : List Char) (n' : Nesting) : Prop :=
  ∀ es' stop fuel b, SameEntities es es' → b.entities = es' → b.nesting = n →
    fuelFor limit cs.length n.depth ≤ fuel →
      text? stop fuel cs buf written b = some { b.addText s with nesting := n' }

/-- The same of an entity's text. -/
def Brings (limit : Nat) (es : List Entity) (n : Nesting) (cs s : List Char) (n' : Nesting) :
    Prop :=
  ∀ es' stop fuel b, SameEntities es es' → b.entities = es' → b.nesting = n →
    fuelFor limit cs.length n.depth + 1 ≤ fuel →
      content? stop fuel cs b = some ([], { b.addText s with nesting := n' })

/-- An entity's text is one run, or nothing. -/
theorem brings_of_adds {limit : Nat} {es : List Entity} {n n' : Nesting} {cs s : List Char}
    (hopen : '<' ∉ cs) (hrun : cs = [] ∨ IsRun cs = true) (h : Adds limit es n cs [] false s n') :
    Brings limit es n cs s n' := by
  intro es' stop fuel b hes hb hn hfuel
  have hpos : 1 ≤ fuelFor limit cs.length n.depth := by
    unfold fuelFor
    omega
  obtain ⟨fuel, rfl⟩ : ∃ k, fuel = k + 1 + 1 := ⟨fuel - 2, by omega⟩
  have hadds := h es' stop (fuel + 1) b hes hb hn (by omega)
  by_cases hne : cs = []
  · subst hne
    rw [text?_nil] at hadds
    rw [content?_nil]
    exact congrArg (Option.map fun b => ([], b)) hadds
  · have hread := @content?_run stop (fuel + 1) b cs [] hne hopen (by simp)
    rw [List.append_nil] at hread
    rw [hread, if_pos (hrun.resolve_left hne), hadds, Option.bind_some, content?_nil]

section Effect

variable {limit : Nat} {es : List Entity}

theorem adds_nil (n : Nesting) (buf : Buffer) (written : Bool) :
    Adds limit es n [] buf written buf.reverse n := by
  intro es' stop fuel b hes hb hn hfuel
  obtain ⟨fuel, rfl⟩ : ∃ k, fuel = k + 1 := ⟨fuel - 1, by unfold fuelFor at hfuel; omega⟩
  rw [text?_nil]
  have hnest : (b.addText buf.reverse).nesting = n := by rw [Builder.nesting_addText, hn]
  rw [← hnest]

theorem adds_char {n n' : Nesting} {r r' s : List Char} {c : Char} {buf : Buffer} {written : Bool}
    (hr : reference? r = some (.char c, r')) (hlen : r'.length ≤ r.length)
    (h : Adds limit es n r' (buf.push (n.depth == 0) c r'.isEmpty) (n.depth == 0 || written)
      s n') :
    Adds limit es n ('&' :: r) buf written s n' := by
  intro es' stop fuel b hes hb hn hfuel
  have hbound : fuelFor limit r'.length n.depth + 1 ≤ fuel := by
    unfold fuelFor at hfuel ⊢
    simp only [List.length_cons] at hfuel
    omega
  obtain ⟨fuel, rfl⟩ : ∃ k, fuel = k + 1 := ⟨fuel - 1, by omega⟩
  rw [text?_char hr, hn]
  exact h es' stop fuel b hes hb hn (by omega)

theorem adds_plain {n n' : Nesting} {r s : List Char} {c : Char} {buf : Buffer} {written : Bool}
    (hc : c ≠ '&') (h : Adds limit es n r (buf.push written c r.isEmpty) false s n') :
    Adds limit es n (c :: r) buf written s n' := by
  intro es' stop fuel b hes hb hn hfuel
  have hbound : fuelFor limit r.length n.depth + 1 ≤ fuel := by
    unfold fuelFor at hfuel ⊢
    simp only [List.length_cons] at hfuel
    omega
  obtain ⟨fuel, rfl⟩ : ∃ k, fuel = k + 1 := ⟨fuel - 1, by omega⟩
  rw [text?_plain hc]
  exact h es' stop fuel b hes hb hn (by omega)

/-- A reference to an entity adds what the entity's text brings, between the text before it and
the text after it. -/
theorem adds_entity {n n₁ n₂ inner : Nesting} {r r' s t name : List Char} {e : Entity}
    {buf : Buffer} {written : Bool} (hr : reference? r = some (.entity name, r'))
    (hlen : r'.length ≤ r.length) (he : (es.find? fun e => e.name = name) = some e)
    (hplain : e.value.length ≤ limit) (hinner : n.enter? = some inner)
    (hbrings : Brings limit es inner e.value s n₁)
    (hrest : Adds limit es n₁.leave r' [] false t n₂) (hleave : n₁.leave.depth = n.depth) :
    Adds limit es n ('&' :: r) buf written (buf.reverse ++ s ++ t) n₂ := by
  intro es' stop fuel b hes hb hn hfuel
  obtain ⟨hdepth, hlt⟩ := depth_enter? hinner
  obtain ⟨k, hk⟩ : ∃ k, 10 - n.depth = k + 1 := ⟨9 - n.depth, by omega⟩
  have hk' : 10 - (n.depth + 1) = k := by omega
  have hfirst : fuelFor limit e.value.length inner.depth + 1 + 1 ≤ fuel := by
    unfold fuelFor at hfuel ⊢
    rw [hk, Nat.succ_mul] at hfuel
    rw [hdepth, hk']
    simp only [List.length_cons] at hfuel
    omega
  have hsecond : fuelFor limit r'.length n.depth + 1 ≤ fuel := by
    unfold fuelFor at hfuel ⊢
    simp only [List.length_cons] at hfuel
    omega
  obtain ⟨fuel, rfl⟩ : ∃ k, fuel = k + 1 := ⟨fuel - 1, by omega⟩
  obtain ⟨e', he', hvalue⟩ := hes.find? he
  have hentities : b.entities = es' := hb
  have hread := hbrings es' e'.stop fuel
    { b.addText buf.reverse with nesting := inner, tag := none } hes
    ((Builder.entities_addText).trans hentities) rfl (by omega)
  have hgo := hrest es' stop fuel { Builder.addText { b.addText buf.reverse with
      nesting := inner, tag := none } s with nesting := n₁.leave, tag := b.tag } hes
    (by simp [hentities]) rfl (by rw [hleave]; omega)
  rw [text?_entity hr, hentities, he']
  simp only [hn, hinner, hvalue, hread]
  refine hgo.trans (congrArg some ?_)
  exact congrArg (fun b => { b with nesting := n₂ })
    (Builder.addText_around b buf.reverse s t inner n₁.leave)

/-- What was read of a text is what the text adds to every builder. -/
def Added (limit : Nat) (cs : List Char) (buf : Buffer) (written : Bool) (b b' : Builder) : Prop :=
  ∃ s n, n.depth = b.nesting.depth ∧ b' = { b.addText s with nesting := n } ∧
    Adds limit b.entities b.nesting cs buf written s n

theorem brought_of_content? {stop fuel : Nat} {e : Entity} {b b' : Builder} {rest : List Char}
    (hopen : '<' ∉ e.value)
    (ih : ∀ fuel' < fuel, ∀ b', text? stop fuel' e.value [] false b = some b' →
      Added limit e.value [] false b b')
    (h : content? stop fuel e.value b = some (rest, b')) :
    ∃ s n, n.depth = b.nesting.depth ∧ b' = { b.addText s with nesting := n } ∧
      Brings limit b.entities b.nesting e.value s n := by
  cases fuel with
  | zero => simp [content?] at h
  | succ fuel =>
    by_cases hne : e.value = []
    · rw [hne, content?_nil] at h
      obtain ⟨-, rfl⟩ := Prod.mk.inj (Option.some.inj h)
      refine ⟨[], b.nesting, rfl, rfl, ?_⟩
      rw [hne]
      exact brings_of_adds (by simp) (Or.inl rfl) (adds_nil _ _ _)
    · have hread := @content?_run stop fuel b e.value [] hne hopen (by simp)
      rw [List.append_nil] at hread
      rw [hread] at h
      split at h
      · next hrun =>
        obtain ⟨b₁, hb₁, h⟩ := Option.bind_eq_some_iff.mp h
        cases fuel with
        | zero => simp [content?] at h
        | succ fuel =>
          rw [content?_nil] at h
          obtain ⟨-, rfl⟩ := Prod.mk.inj (Option.some.inj h)
          obtain ⟨s, n, hn, hb, hadds⟩ := ih (fuel + 1) (by omega) b₁ hb₁
          exact ⟨s, n, hn, hb, brings_of_adds hopen (Or.inr hrun) hadds⟩
      · cases h

theorem length_of_reference? {r r' : List Char} {x : Reference}
    (hr : reference? r = some (x, r')) : r'.length ≤ r.length := by
  obtain ⟨raw, rfl, -, -⟩ := reference?_eq_some hr
  rw [List.length_append, List.length_cons]
  omega

theorem added_of_text? {fuel : Nat} : ∀ {stop : Nat} {cs : List Char} {buf : Buffer}
    {written : Bool} {b b' : Builder}, PlainEntities limit b.entities → b.nesting.depth ≤ 10 →
    text? stop fuel cs buf written b = some b' → Added limit cs buf written b b' := by
  induction fuel using Nat.strongRecOn with
  | _ fuel ih =>
    intro stop cs buf written b b' hes hdepth h
    cases fuel with
    | zero => simp [text?] at h
    | succ fuel =>
      cases textStep_of_text? h with
      | ended hb' =>
        refine ⟨buf.reverse, b.nesting, rfl, ?_, adds_nil _ _ _⟩
        have hnest : (b.addText buf.reverse).nesting = b.nesting := Builder.nesting_addText
        rw [hb', ← hnest]
      | char hr hmore =>
        obtain ⟨s, n, hn, hb, hadds⟩ := ih fuel (by omega) hes hdepth hmore
        exact ⟨s, n, hn, hb, adds_char hr (length_of_reference? hr) hadds⟩
      | plain hc hmore =>
        obtain ⟨s, n, hn, hb, hadds⟩ := ih fuel (by omega) hes hdepth hmore
        exact ⟨s, n, hn, hb, adds_plain hc hadds⟩
      | @entity name r r' rest e inner b₁ hr he hinner hb₁ hmore =>
        obtain ⟨hopen, hle⟩ := hes e (List.mem_of_find?_eq_some he)
        obtain ⟨hd, hlt⟩ := depth_enter? hinner
        obtain ⟨s, n, hn, rfl, hbrings⟩ := brought_of_content? hopen
          (fun fuel' hf b' => ih fuel' (by omega) (by simpa using hes)
            (by simp only; omega)) hb₁
        simp only at hn
        have hleave : n.leave.depth = b.nesting.depth := by
          rw [depth_leave, hn, hd]
          omega
        rw [Builder.entities_addText] at hbrings
        obtain ⟨t, n₂, hn₂, rfl, hadds⟩ := ih fuel (by omega) (by simpa using hes)
          (by simp only; omega) hmore
        simp only at hn₂ hadds
        refine ⟨buf.reverse ++ s ++ t, n₂, hn₂.trans hleave, ?_,
          adds_entity hr (length_of_reference? hr) he hle hinner hbrings ?_ hleave⟩
        · exact congrArg (fun b => { b with nesting := n₂ })
            (Builder.addText_around b buf.reverse s t inner n.leave)
        · simpa using hadds

end Effect

end Marginalia.Xml
