import Marginalia.Proofs.Xml.Sound

/-! Where the elements of a document stand in its text, and what stands between their tags. -/

namespace Marginalia.Xml

open Text (SameWords)

/-! ### The extent of a tag -/

/-- A part of a tag that leaves the search for its end where it was. -/
def Quiet (u : List Char) : Prop := ∀ x, afterTag? none (u ++ x) = afterTag? none x

/-- A tag, or the rest of one, up to and with its end. -/
def Closes (u : List Char) : Prop := ∀ x, afterTag? none (u ++ x) = some x

section Tags

variable {u v cs r raw : List Char} {c : Char} {q : QName}

theorem Quiet.append (hu : Quiet u) (hv : Quiet v) : Quiet (u ++ v) := by
  intro x
  rw [List.append_assoc, hu, hv]

theorem Quiet.closes (hu : Quiet u) (hv : Closes v) : Closes (u ++ v) := by
  intro x
  rw [List.append_assoc, hu, hv]

theorem quiet_of_plain (hu : ∀ c ∈ u, c ≠ '"' ∧ c ≠ '\'' ∧ c ≠ '>') : Quiet u := by
  intro x
  induction u with
  | nil => rfl
  | cons c u ih =>
    obtain ⟨hdouble, hsingle, hclose⟩ := hu c List.mem_cons_self
    rw [List.cons_append, afterTag?, if_neg (by simp [hdouble, hsingle]), if_neg hclose]
    exact ih fun d hd => hu d (List.mem_cons_of_mem c hd)

theorem closes_end : Closes ['>'] := by
  intro x
  simp [afterTag?]

theorem quiet_name (hu : ∀ c ∈ u, isNameChar c = true) : Quiet u := by
  refine quiet_of_plain fun c hc => ⟨?_, ?_, ?_⟩
  all_goals
    rintro rfl
    exact absurd (hu _ hc) (by decide)

theorem quiet_spaces (hu : ∀ c ∈ u, isSpace c = true) : Quiet u := by
  refine quiet_of_plain fun c hc => ⟨?_, ?_, ?_⟩
  all_goals
    rintro rfl
    exact absurd (hu _ hc) (by decide)

theorem afterTag?_quote (q : Char) (hu : q ∉ u) (x : List Char) :
    afterTag? (some q) (u ++ q :: x) = afterTag? none x := by
  induction u with
  | nil => simp [afterTag?]
  | cons c u ih =>
    have hc : c ≠ q := fun he => hu (he ▸ List.mem_cons_self)
    rw [List.cons_append, afterTag?, if_neg hc]
    exact ih fun hm => hu (List.mem_cons_of_mem c hm)

theorem quiet_quoted {q : Char} (hq : q = '"' ∨ q = '\'') (hu : q ∉ u) :
    Quiet (q :: (u ++ [q])) := by
  intro x
  have hcons : q :: (u ++ [q]) ++ x = q :: (u ++ q :: x) := by simp
  rw [hcons, afterTag?, if_pos hq, afterTag?_quote q hu]

/-- The spaces that are skipped, and what follows them. -/
theorem skipSpaces_split (cs : List Char) :
    ∃ w, cs = w ++ skipSpaces cs ∧ (∀ c ∈ w, isSpace c = true) ∧ Stops isSpace (skipSpaces cs) :=
  ⟨cs.takeWhile isSpace, List.takeWhile_append_dropWhile.symm, of_mem_takeWhile,
    stops_dropWhile _ _⟩

theorem quoted?_eq_some (h : quoted? cs = some (v, r)) :
    ∃ q, (q = '"' ∨ q = '\'') ∧ q ∉ v ∧ cs = q :: (v ++ [q]) ++ r := by
  unfold quoted? at h
  obtain ⟨⟨q, cs₁⟩, hq, h⟩ := Option.bind_eq_some_iff.mp h
  have hquote : (q = '"' ∨ q = '\'') ∧ cs = q :: cs₁ := by
    unfold quote? at hq
    split at hq
    · obtain ⟨rfl, rfl⟩ := Prod.mk.inj (Option.some.inj hq)
      exact ⟨Or.inl rfl, rfl⟩
    · obtain ⟨rfl, rfl⟩ := Prod.mk.inj (Option.some.inj hq)
      exact ⟨Or.inr rfl, rfl⟩
    · cases hq
  dsimp only at h
  split at h
  · next d rest hd =>
    obtain ⟨rfl, rfl⟩ := Prod.mk.inj (Option.some.inj h)
    have hstop := stops_dropWhile (fun c => decide (c ≠ q)) cs₁
    rw [hd] at hstop
    obtain rfl : d = q := by simpa using hstop
    have hnot : d ∉ cs₁.takeWhile fun c => decide (c ≠ d) := by
      intro hm
      simpa using of_mem_takeWhile d hm
    refine ⟨d, hquote.1, hnot, ?_⟩
    rw [hquote.2]
    have hsplit := List.takeWhile_append_dropWhile (p := fun c => decide (c ≠ d)) (l := cs₁)
    rw [hd] at hsplit
    simpa using hsplit.symm
  · cases h

theorem quiet_attribute? (h : attribute? cs = some (q, raw, r)) : ∃ u, cs = u ++ r ∧ Quiet u := by
  unfold attribute? at h
  obtain ⟨⟨q', cs₁⟩, hq, h⟩ := Option.bind_eq_some_iff.mp h
  obtain ⟨cs₂, hequals, h⟩ := Option.bind_eq_some_iff.mp h
  obtain ⟨⟨v, cs₃⟩, hvalue, h⟩ := Option.bind_eq_some_iff.mp h
  obtain ⟨-, he⟩ := Prod.mk.inj (Option.some.inj h)
  obtain ⟨-, rfl⟩ := Prod.mk.inj he
  obtain ⟨-, word, rfl, hword, -, -⟩ := legal_of_qname? hq
  unfold equals? at hequals
  obtain ⟨w₁, hw₁, hspaces₁, -⟩ := skipSpaces_split cs₁
  split at hequals
  · next cs₄ hcs₄ =>
    obtain rfl := Option.some.inj hequals
    obtain ⟨w₂, hw₂, hspaces₂, -⟩ := skipSpaces_split cs₄
    unfold value? at hvalue
    obtain ⟨⟨v', cs₅⟩, hquoted, hvalue⟩ := Option.bind_eq_some_iff.mp hvalue
    dsimp only at hvalue
    split at hvalue
    · obtain ⟨rfl, rfl⟩ := Prod.mk.inj (Option.some.inj hvalue)
      obtain ⟨d, hd, hnot, hcs₅⟩ := quoted?_eq_some hquoted
      have hequal : Quiet ['='] := quiet_of_plain (by simp)
      refine ⟨word ++ (w₁ ++ (['='] ++ (w₂ ++ d :: (v' ++ [d])))), ?_,
        (quiet_name hword).append ((quiet_spaces hspaces₁).append (hequal.append
          ((quiet_spaces hspaces₂).append (quiet_quoted hd hnot))))⟩
      rw [hcs₅] at hw₂
      rw [hcs₄, hw₂] at hw₁
      rw [hw₁]
      simp only [List.append_assoc, List.cons_append, List.nil_append]
    · cases hvalue
  · cases hequals

end Tags

/-! ### Builders that take in one more node -/

/-- Open elements, the innermost one with one more child. -/
def framesWith (frames : List Frame) (n : Node) : List Frame :=
  match frames with
  | [] => []
  | fr :: frs => { fr with children := fr.children ++ [n] } :: frs

def topWith (frames : List Frame) (top : List Node) (n : Node) : List Node :=
  match frames with
  | [] => top ++ [n]
  | _ :: _ => top

/-- A builder outside of entities that has taken in one more node. -/
structure Taken (frs : List Frame) (ns : List Node) (es : List Entity) (n : Node)
    (b : Builder) : Prop where
  frames : b.frames = framesWith frs n
  top : b.top = topWith frs ns n
  entities : b.entities = es
  nesting : b.nesting = .none
  afterText : b.afterText = false

theorem taken_append {b : Builder} {n : Node} (hn : b.nesting = .none) :
    Taken b.frames b.top b.entities n (b.append n) := by
  unfold Builder.append Builder.modifyChildren
  cases hfr : b.frames with
  | nil => exact ⟨rfl, rfl, rfl, hn, rfl⟩
  | cons fr frs => exact ⟨rfl, rfl, rfl, hn, rfl⟩

section StartTag

variable {limit fuel start : Nat} {cs r : List Char} {b b' : Builder} {q : QName}

theorem nesting_of_normalValue {es : List Entity} :
    ∀ {fuel : Nat} {n n' : Nesting} {cs : List Char} {buf buf' : Buffer},
      normalValue es fuel n cs buf = some (n', buf') →
      n'.depth = n.depth ∧ (n = .none → n' = .none) := by
  intro fuel
  induction fuel with
  | zero =>
    intro n n' cs buf buf' h
    simp [normalValue] at h
  | succ fuel ih =>
    intro n n' cs buf buf' h
    rw [normalValue.eq_def] at h
    dsimp only at h
    split at h
    · obtain ⟨rfl, -⟩ := Prod.mk.inj (Option.some.inj h)
      exact ⟨rfl, fun he => he⟩
    · split at h
      · cases h
      · exact ih h
      · split at h
        · cases h
        · split at h
          · cases h
          · next inner hinner =>
            split at h
            · cases h
            · next inner' buf₁ hvalue =>
              obtain ⟨hdepth, -⟩ := depth_enter? hinner
              have hleave : inner'.leave.depth = n.depth := by
                rw [depth_leave, (ih hvalue).1, hdepth]
                omega
              refine ⟨(ih h).1.trans hleave, fun hn => (ih h).2 (leave_of_depth ?_)⟩
              rw [(ih hvalue).1, hdepth, hn]
              rfl
    · exact ih h

/-- An attribute of a tag touches what the builder knows about the tag, and nothing else. -/
theorem addAttribute?_cases {raw : List Char} (h : b.addAttribute? q raw = some b') :
    ∃ nesting value bindings attributes,
      normalValue b.entities b.budget b.nesting raw [] = some (nesting, value) ∧
      b' = { b with nesting := nesting, bindings := bindings, attributes := attributes } := by
  obtain ⟨nesting, value, hvalue, hstep⟩ := Builder.attributeStep_of_addAttribute? h
  cases hstep with
  | inForce => exact ⟨nesting, value, _, _, hvalue, rfl⟩
  | named => exact ⟨nesting, value, _, _, hvalue, rfl⟩
  | unnamed => exact ⟨nesting, value, _, _, hvalue, rfl⟩
  | plain => exact ⟨nesting, value, _, _, hvalue, rfl⟩

theorem addAttribute?_keeps {raw : List Char} (hn : b.nesting = .none)
    (h : b.addAttribute? q raw = some b') :
    b'.frames = b.frames ∧ b'.top = b.top ∧ b'.entities = b.entities ∧ b'.nesting = .none ∧
      b'.tag = b.tag := by
  obtain ⟨nesting, value, bindings, attributes, hvalue, rfl⟩ := addAttribute?_cases h
  exact ⟨rfl, rfl, rfl, (nesting_of_normalValue hvalue).2 hn, rfl⟩

/-- What a start tag leads to: an element, an open element, or nothing where the text ends. -/
inductive Begun (limit : Nat) (b : Builder) (start : Nat) (cs : List Char) :
    TagEnd → List Char → Builder → Prop
  | empty {u r : List Char} {h : Head} {b' : Builder} : cs = u ++ r → Closes u → h.start = start →
      h.stop = limit - r.length → Taken b.frames b.top b.entities (.element h []) b' →
      Begun limit b start cs .empty r b'
  | opened {u r : List Char} {q : QName} {h : Head} {b' : Builder} : cs = u ++ r → Closes u →
      h.start = start → b'.frames = ⟨q, h, []⟩ :: b.frames → b'.top = b.top →
      b'.entities = b.entities → b'.nesting = .none → b'.afterText = false →
      Begun limit b start cs .opened r b'
  | missing {b' : Builder} : b'.frames = b.frames → b'.top = b.top → b'.entities = b.entities →
      b'.nesting = .none → Begun limit b start cs .missing [] b'

theorem begun_empty {stop : Nat} (hn : b.nesting = .none) (htag : b.tag = some (q, start))
    (h : b.beginElement? stop true = some b') :
    ∃ hd : Head, hd.start = start ∧ hd.stop = stop ∧
      Taken b.frames b.top b.entities (.element hd []) b' := by
  unfold Builder.beginElement? at h
  rw [htag, Option.bind_eq_bind, Option.bind_some] at h
  obtain ⟨hd, hhead, h⟩ := Option.bind_eq_some_iff.mp h
  obtain rfl := Option.some.inj h
  unfold Builder.head? at hhead
  obtain ⟨as, -, hhead⟩ := Option.bind_eq_some_iff.mp hhead
  obtain ⟨uri, -, hhead⟩ := Option.bind_eq_some_iff.mp hhead
  obtain rfl := Option.some.inj hhead
  exact ⟨_, rfl, rfl, @taken_append b.clearTag _ hn⟩

theorem begun_opened {stop : Nat} (htag : b.tag = some (q, start))
    (h : b.beginElement? stop false = some b') :
    ∃ hd : Head, hd.start = start ∧ b' = { b.clearTag with frames := ⟨q, hd, []⟩ :: b.frames } := by
  unfold Builder.beginElement? at h
  rw [htag, Option.bind_eq_bind, Option.bind_some] at h
  obtain ⟨hd, hhead, h⟩ := Option.bind_eq_some_iff.mp h
  obtain rfl := Option.some.inj h
  unfold Builder.head? at hhead
  obtain ⟨as, -, hhead⟩ := Option.bind_eq_some_iff.mp hhead
  obtain ⟨uri, -, hhead⟩ := Option.bind_eq_some_iff.mp hhead
  obtain rfl := Option.some.inj hhead
  exact ⟨_, rfl, rfl⟩

theorem StartTagRead.begun {e : TagEnd} (h : StartTagRead limit cs b e r b')
    (hn : b.nesting = .none) (htag : b.tag = some (q, start)) : Begun limit b start cs e r b' := by
  induction h with
  | missing => exact .missing rfl rfl rfl hn
  | @empty cs r b b' hend hbegin =>
    obtain ⟨w, hw, hspaces, -⟩ := skipSpaces_split cs
    obtain ⟨hd, hstart, hstop, htaken⟩ := begun_empty hn htag hbegin
    rw [hend] at hw
    have hslash : Quiet ['/'] := quiet_of_plain (by simp)
    exact .empty (u := w ++ (['/'] ++ ['>'])) (by rw [hw]; simp)
      ((quiet_spaces hspaces).closes (hslash.closes closes_end)) hstart hstop htaken
  | @opened cs r b b' hend hbegin =>
    obtain ⟨w, hw, hspaces, -⟩ := skipSpaces_split cs
    obtain ⟨hd, hstart, rfl⟩ := begun_opened htag hbegin
    rw [hend] at hw
    exact .opened (u := w ++ ['>']) (by rw [hw]; simp)
      ((quiet_spaces hspaces).closes closes_end) hstart rfl rfl rfl hn rfl
  | @more cs raw r₁ r q' e b b₁ b' hattribute hadd _ ih =>
    obtain ⟨w, hw, hspaces, -⟩ := skipSpaces_split cs
    obtain ⟨hframes, htop, hentities, hnesting, htag₁⟩ := addAttribute?_keeps hn hadd
    obtain ⟨u, hu, hquiet⟩ := quiet_attribute? hattribute
    have hcs : cs = (w ++ u) ++ r₁ := by
      rw [List.append_assoc, ← hu]
      exact hw
    have hboth := (quiet_spaces hspaces).append hquiet
    cases ih hnesting (htag₁.trans htag) with
    | empty hr hcloses hstart hstop htaken =>
      rw [hframes, htop, hentities] at htaken
      exact .empty (by rw [hcs, hr]; simp) (hboth.closes hcloses) hstart hstop htaken
    | opened hr hcloses hstart hfr htop' hes' hn' hflag =>
      exact .opened (by rw [hcs, hr]; simp) (hboth.closes hcloses) hstart
        (by rw [hfr, hframes]) (htop'.trans htop) (hes'.trans hentities) hn' hflag
    | missing hfr htop' hes' hn' =>
      exact .missing (hfr.trans hframes) (htop'.trans htop) (hes'.trans hentities) hn'

end StartTag

/-! ### Runs of text outside of entities -/

/-- What is read of a run is what the run stands for. -/
theorem stands_of_text? {lim fuel : Nat} :
    ∀ {stop : Nat} {cs : List Char} {buf : Buffer} {written : Bool} {b b' : Builder},
      PlainEntities lim b.entities → b.nesting = .none → '<' ∉ cs →
      text? stop fuel cs buf written b = some b' →
      ∃ s s', Stands lim b.entities cs s ∧ b' = b.addText s' ∧ SameWords s' (buf.reverse ++ s) := by
  induction fuel with
  | zero =>
    intro stop cs buf written b b' hes hn hopen h
    simp [text?] at h
  | succ fuel ih =>
    intro stop cs buf written b b' hes hn hopen h
    cases textStep_of_text? h with
    | ended hb' =>
      refine ⟨[], buf.reverse, .nil, hb', ?_⟩
      rw [List.append_nil]
      exact SameWords.refl _
    | @char d r r' hr hmore =>
      obtain ⟨raw, rfl, hlocal, hline, hmark⟩ := reference?_eq_some hr
      obtain ⟨s, s', hstands, hb', hs'⟩ := ih hes hn (fun hm => hopen (by simp [hm])) hmore
      refine ⟨d :: s, s', .reference hlocal hline hmark hstands, hb', hs'.trans ?_⟩
      have hpush := sameWords_push buf (b.nesting.depth == 0) d r'.isEmpty
      simpa using hpush.append (SameWords.refl s)
    | @entity name r r' rest e inner b₁ hr he hinner hb₁ hmore =>
      obtain ⟨raw, rfl, hlocal, hline, hmark⟩ := reference?_eq_some hr
      obtain ⟨hplain, hle⟩ := hes e (List.mem_of_find?_eq_some he)
      rw [hn, enter?_none] at hinner
      obtain rfl := Option.some.inj hinner
      obtain ⟨t, n, hdepth, rfl, hbrings⟩ := brought_of_content? hplain
        (fun fuel' _ b' hb' => added_of_text? (by simpa using hes) (by simp) hb') hb₁
      have hone : n.depth = 1 := hdepth
      rw [Builder.entities_addText] at hbrings
      obtain ⟨s, s', hstands, hb', hs'⟩ := ih (by simpa using hes) (leave_of_depth hone)
        (fun hm => hopen (by simp [hm])) hmore
      have haround := Builder.addText_around b buf.reverse t s' ⟨1, 0⟩ n.leave
      have hnest : (b.addText (buf.reverse ++ t ++ s')).nesting = n.leave := by
        rw [Builder.nesting_addText, hn, leave_of_depth hone]
      refine ⟨t ++ s, buf.reverse ++ t ++ s',
        .entity hlocal hline hmark he hle hbrings hone (by simpa using hstands), ?_, ?_⟩
      · rw [hb']
        refine haround.trans ?_
        rw [← hnest]
      · have hjoined := hs'.append_left (buf.reverse ++ t)
        simpa using hjoined
    | @plain c r hamp hmore =>
      obtain ⟨hc, hopen'⟩ := List.ne_and_not_mem_of_not_mem_cons hopen
      obtain ⟨s, s', hstands, hb', hs'⟩ := ih hes hn hopen' hmore
      refine ⟨c :: s, s', .char hamp (Ne.symm hc) hstands, hb', hs'.trans ?_⟩
      simpa using (sameWords_push buf written c r.isEmpty).append (SameWords.refl s)

/-! ### What stands between the tags of an element -/

section Inner

variable {source pre tag mid w r : List Char} {h : Head}

theorem splitAtLast?_closing (hw : '/' ∉ w) (a : List Char) :
    Text.splitAtLast? "</".toList (a ++ ("</".toList ++ (w ++ ['>']))) = some (a, w ++ ['>']) := by
  have hrev : (a ++ ("</".toList ++ (w ++ ['>']))).reverse =
      ('>' :: w.reverse) ++ '/' :: (['<'] ++ a.reverse) := by
    simp
  have hmark : "</".toList.reverse = '/' :: ['<'] := by decide
  have hnot : '/' ∉ '>' :: w.reverse := by simpa using hw
  rw [Text.splitAtLast?, hrev, hmark, splitAt?_lead hnot]
  simp

theorem append_eq_of_splitAtLast? {p s a b : List Char}
    (h : Text.splitAtLast? p s = some (a, b)) : s = a ++ p ++ b := by
  unfold Text.splitAtLast? at h
  obtain ⟨⟨x, y⟩, hsplit, he⟩ := Option.map_eq_some_iff.mp h
  obtain ⟨rfl, rfl⟩ := Prod.mk.inj he
  have hrev := congrArg List.reverse (Text.append_eq_of_splitAt? hsplit)
  simpa using hrev

/-- The slice of an element with two tags is what was read between them. -/
theorem innerSource_eq
    (hsource : source = pre ++ (tag ++ (mid ++ ("</".toList ++ (w ++ '>' :: r)))))
    (htag : Closes tag) (hw : '/' ∉ w) (hstart : h.start = pre.length)
    (hstop : h.stop = source.length - r.length) : innerSource source h = mid := by
  have hwhole : (source.drop h.start).take (h.stop - h.start) =
      tag ++ (mid ++ ("</".toList ++ (w ++ ['>']))) := by
    have hlist : source = pre ++ ((tag ++ (mid ++ ("</".toList ++ (w ++ ['>'])))) ++ r) := by
      rw [hsource]
      simp
    have hlen : h.stop - h.start = (tag ++ (mid ++ ("</".toList ++ (w ++ ['>'])))).length := by
      rw [hstop, hstart, hlist]
      simp only [List.length_append]
      omega
    rw [hlen, hstart, hlist, List.drop_left, List.take_left]
  have hlast := splitAtLast?_closing hw (tag ++ mid)
  rw [List.append_assoc] at hlast
  unfold innerSource
  dsimp only
  rw [hwhole, htag, hlast]
  dsimp only
  have hlen : (tag ++ (mid ++ ("</".toList ++ (w ++ ['>'])))).length -
      (mid ++ ("</".toList ++ (w ++ ['>']))).length = tag.length := by
    simp only [List.length_append]
    omega
  rw [hlen, List.drop_left]

/-- There is nothing inside an element with one tag. -/
theorem innerSource_empty (hsource : source = pre ++ (tag ++ r)) (htag : Closes tag)
    (hstart : h.start = pre.length) (hstop : h.stop = source.length - r.length) :
    innerSource source h = [] := by
  have hwhole : (source.drop h.start).take (h.stop - h.start) = tag := by
    have hlen : h.stop - h.start = tag.length := by
      rw [hstop, hstart, hsource]
      simp only [List.length_append]
      omega
    rw [hlen, hstart, hsource, List.drop_left, List.take_left]
  have hclose := htag []
  rw [List.append_nil] at hclose
  unfold innerSource
  dsimp only
  rw [hwhole, hclose]
  dsimp only
  rw [List.length_nil, Nat.sub_zero]
  split
  · next before after hsplit =>
    have hlen := congrArg List.length (append_eq_of_splitAtLast? hsplit)
    simp only [List.length_append] at hlen
    exact List.drop_of_length_le (by omega)
  · exact List.drop_length

end Inner

/-! ### Elements that hold text alone -/

/-- The text that an element holds is in one piece. -/
def OnePiece (children : List Node) : Prop := children = [] ∨ ∃ s, children = [.text s]

/-- The slice of an element stands for the text that the element holds. -/
structure Told (lim : Nat) (es : List Entity) (source : List Char) (h : Head)
    (children : List Node) : Prop where
  piece : OnePiece children
  passage : ∃ s, Passage lim es (innerSource source h) s ∧ SameWords (textIn children) s

/-- The same of all elements that hold text alone, among nodes and below them. -/
def ToldIn (lim : Nat) (es : List Entity) (source : List Char) (ns : List Node) : Prop :=
  ∀ h children, Within (.element h children) ns → children.all Node.isText = true →
    Told lim es source h children

/-- The children so far of an element that is read: text joins a text before it. -/
structure Pieces (children : List Node) (afterText : Bool) : Prop where
  joined : Joined children afterText
  alone : children.all Node.isText = true → children = [] ∨
    afterText = true ∧ ∃ s, children = [.text s]

section Told

variable {lim : Nat} {es : List Entity} {source : List Char} {ns ms : List Node} {h : Head}
  {children : List Node} {s : List Char}

theorem all_isText_iff : ns.all Node.isText = true ↔ others ns = [] := by
  rw [others, List.filter_eq_nil_iff, List.all_eq_true]
  simp

theorem Grown.all_isText (hg : Grown ns ms s) :
    ms.all Node.isText = true ↔ ns.all Node.isText = true := by
  rw [all_isText_iff, all_isText_iff, hg.others]

theorem within_others : Within (.element h children) ns ↔
    Within (.element h children) (others ns) := by
  have hmem {hd : Head} {cs : List Node} : .element hd cs ∈ ns ↔ .element hd cs ∈ others ns := by
    simp [others, Node.isText]
  constructor
  · intro hw
    cases hw with
    | here hm => exact .here (hmem.mp hm)
    | inside hm hw => exact .inside (hmem.mp hm) hw
  · intro hw
    cases hw with
    | here hm => exact .here (hmem.mpr hm)
    | inside hm hw => exact .inside (hmem.mpr hm) hw

theorem Grown.toldIn (hg : Grown ns ms s) (h : ToldIn lim es source ns) :
    ToldIn lim es source ms := by
  intro hd cs hw
  rw [within_others, hg.others, ← within_others] at hw
  exact h hd cs hw

theorem ToldIn.append (h : ToldIn lim es source ns) (h' : ToldIn lim es source ms) :
    ToldIn lim es source (ns ++ ms) := by
  intro hd cs hw
  cases hw with
  | here hm =>
    rcases List.mem_append.mp hm with hm | hm
    · exact h hd cs (.here hm)
    · exact h' hd cs (.here hm)
  | inside hm hw =>
    rcases List.mem_append.mp hm with hm | hm
    · exact h hd cs (.inside hm hw)
    · exact h' hd cs (.inside hm hw)

theorem toldIn_of_plain (hns : ∀ n ∈ ns, n.isElement = false) : ToldIn lim es source ns := by
  intro hd cs hw
  cases hw with
  | here hm => exact absurd (hns _ hm) (by simp [Node.isElement])
  | inside hm hw => exact absurd (hns _ hm) (by simp [Node.isElement])

theorem toldIn_element (htold : children.all Node.isText = true → Told lim es source h children)
    (hchildren : ToldIn lim es source children) : ToldIn lim es source [.element h children] := by
  intro hd cs hw
  cases hw with
  | here hm =>
    obtain ⟨rfl, rfl⟩ := Node.element.inj (List.mem_singleton.mp hm)
    exact htold
  | inside hm hw =>
    obtain ⟨rfl, rfl⟩ := Node.element.inj (List.mem_singleton.mp hm)
    exact hchildren hd cs hw

theorem Pieces.onePiece {flag : Bool} (hp : Pieces children flag)
    (hall : children.all Node.isText = true) : OnePiece children :=
  (hp.alone hall).imp_right And.right

theorem pieces_nil (flag : Bool) (hflag : flag = false) : Pieces [] flag :=
  ⟨hflag ▸ joined_false [], fun _ => Or.inl rfl⟩

/-- After a node that is no text, an element holds more than text. -/
theorem pieces_concat {n : Node} (hn : n.isText = false) {flag : Bool} (hflag : flag = false) :
    Pieces (children ++ [n]) flag := by
  refine ⟨hflag ▸ joined_false _, fun hall => ?_⟩
  rw [List.all_append, Bool.and_eq_true] at hall
  have hone : n.isText = true := by simpa using hall.2
  rw [hn] at hone
  cases hone

/-- Text that is read inside an element joins its children. -/
theorem appendText_frames {b : Builder} {q : QName} {fs : List Frame}
    (hfr : b.frames = ⟨q, h, children⟩ :: fs) (hp : Pieces children b.afterText) (s : List Char) :
    ∃ cs, (b.appendText s).frames = ⟨q, h, cs⟩ :: fs ∧ Grown children cs s ∧
      Pieces cs (b.appendText s).afterText ∧ (b.appendText s).top = b.top ∧
      (b.appendText s).entities = b.entities ∧ (b.appendText s).nesting = b.nesting := by
  unfold Builder.appendText Builder.append Builder.modifyChildren
  rw [hfr]
  cases hflag : b.afterText with
  | false =>
    refine ⟨children ++ [.text s], rfl, ⟨by simp, by simp⟩,
      ⟨fun _ => ⟨children, s, rfl⟩, fun hall => ?_⟩, rfl, rfl, rfl⟩
    rw [List.all_append, Bool.and_eq_true] at hall
    rcases hp.alone hall.1 with rfl | ⟨htrue, -⟩
    · exact Or.inr ⟨rfl, s, rfl⟩
    · rw [hflag] at htrue
      cases htrue
  | true =>
    obtain ⟨ms, t, rfl⟩ := hp.joined hflag
    have hlast := Builder.extendLast_concat t s ms
    refine ⟨ms ++ [.text (t ++ s)], by simp [hlast], ⟨by simp, by simp⟩,
      ⟨fun _ => ⟨ms, t ++ s, rfl⟩, fun hall => ?_⟩, rfl, rfl, rfl⟩
    have hbefore : (ms ++ [Node.text t]).all Node.isText = true := by
      rw [List.all_append, Bool.and_eq_true] at hall ⊢
      exact ⟨hall.1, rfl⟩
    rcases hp.alone hbefore with hnil | ⟨-, u, hu⟩
    · simp at hnil
    · have hlone : ms ++ [Node.text t] = [] ++ [Node.text u] := hu
      obtain ⟨rfl, -⟩ := List.append_inj' hlone rfl
      exact Or.inr ⟨rfl, t ++ s, rfl⟩

theorem addText_frames {b : Builder} {q : QName} {fs : List Frame}
    (hfr : b.frames = ⟨q, h, children⟩ :: fs) (hp : Pieces children b.afterText) (s : List Char) :
    ∃ cs, (b.addText s).frames = ⟨q, h, cs⟩ :: fs ∧ Grown children cs s ∧
      Pieces cs (b.addText s).afterText ∧ (b.addText s).top = b.top ∧
      (b.addText s).entities = b.entities ∧ (b.addText s).nesting = b.nesting := by
  by_cases hs : s = []
  · subst hs
    exact ⟨children, hfr, Grown.refl children, hp, rfl, rfl, rfl⟩
  · rw [Builder.addText, if_neg hs]
    exact appendText_frames hfr hp s

end Told

/-! ### Reading with slices -/

/-- How the contents of an element end: with its closing tag, or with the text. -/
inductive Ended (lim : Nat) (es : List Entity) (source : List Char) (h : Head)
    (children : List Node) (fs : List Frame) (top : List Node) (cs : List Char) :
    List Char → Builder → Prop
  | closed {mid w r : List Char} {ms : List Node} {b : Builder} :
      cs = mid ++ ("</".toList ++ (w ++ '>' :: r)) → '/' ∉ w → ToldIn lim es source ms →
      (ms.all Node.isText = true → OnePiece ms ∧ children.all Node.isText = true ∧
        ∃ s s', Passage lim es mid s ∧ textIn ms = textIn children ++ s' ∧ SameWords s' s) →
      Taken fs top es (.element { h with stop := source.length - r.length } ms) b →
      Ended lim es source h children fs top cs r b
  | cut {b : Builder} : fs.length < b.frames.length →
      Ended lim es source h children fs top cs [] b

/-- How an element ends: it is there as a whole, or the text ends inside of it or of its tag. -/
inductive Formed (lim : Nat) (es : List Entity) (source : List Char) (frs : List Frame)
    (top : List Node) (cs : List Char) : List Char → Builder → Prop
  | formed {u r : List Char} {h : Head} {children : List Node} {b : Builder} : cs = u ++ r →
      ToldIn lim es source [.element h children] → Taken frs top es (.element h children) b →
      Formed lim es source frs top cs r b
  | cut {b : Builder} : frs.length < b.frames.length → Formed lim es source frs top cs [] b
  | missing {b : Builder} : b.frames = frs → b.top = top → Formed lim es source frs top cs [] b

/-- A builder outside of entities, and what is left to be read of the source. -/
structure Stays (lim : Nat) (es : List Entity) (source cs : List Char) (b : Builder) : Prop where
  entities : b.entities = es
  plain : PlainEntities lim es
  nesting : b.nesting = .none
  suffix : cs <:+ source

/-- What reading with some fuel tells of elements. -/
structure Tells (lim : Nat) (es : List Entity) (source : List Char) (fuel : Nat) : Prop where
  content : ∀ {cs r : List Char} {b b' : Builder} {q : QName} {h : Head} {children : List Node}
    {fs : List Frame}, Stays lim es source cs b → b.frames = ⟨q, h, children⟩ :: fs →
    Pieces children b.afterText → ToldIn lim es source children →
    content? source.length fuel cs b = some (r, b') →
    Ended lim es source h children fs b.top cs r b'
  element : ∀ {cs r : List Char} {b b' : Builder}, Stays lim es source ('<' :: cs) b →
    element? source.length fuel ('<' :: cs) b = some (r, b') →
    Formed lim es source b.frames b.top ('<' :: cs) r b'

section Tells

variable {lim fuel : Nat} {es : List Entity} {source cs cs₁ u r : List Char} {b b' : Builder}
  {q : QName} {h : Head} {children children₁ : List Node} {fs : List Frame} {top : List Node}

theorem Stays.past {b₁ : Builder} (hb : Stays lim es source cs b) (hcs : cs = u ++ cs₁)
    (hes : b₁.entities = es) (hn : b₁.nesting = .none) : Stays lim es source cs₁ b₁ :=
  ⟨hes, hb.plain, hn, (List.suffix_append u cs₁).trans (hcs ▸ hb.suffix)⟩

/-- What was read before joins what is read after it. -/
theorem Ended.past (hended : Ended lim es source h children₁ fs top cs₁ r b') (hcs : cs = u ++ cs₁)
    (hstep : children₁.all Node.isText = true → children.all Node.isText = true ∧
      ∃ t, textIn children₁ = textIn children ++ t ∧ ∀ mid rest s, cs₁ = mid ++ rest →
        Passage lim es mid s → ∃ s₁, Passage lim es (u ++ mid) (s₁ ++ s) ∧ SameWords t s₁) :
    Ended lim es source h children fs top cs r b' := by
  cases hended with
  | cut hlt => exact .cut hlt
  | closed hcs₁ hw htold hall htaken =>
    refine .closed (by rw [hcs, hcs₁, List.append_assoc]) hw htold (fun hms => ?_) htaken
    obtain ⟨hpiece, hall₁, s, s', hpassage, htext, hs'⟩ := hall hms
    obtain ⟨hchildren, t, ht, hmore⟩ := hstep hall₁
    obtain ⟨s₁, hjoined, hs₁⟩ := hmore _ _ s hcs₁ hpassage
    refine ⟨hpiece, hchildren, s₁ ++ s, t ++ s', hjoined, ?_, hs₁.append hs'⟩
    rw [htext, ht, List.append_assoc]

/-- A node that is no text lies between the tags. -/
theorem Ended.past_node {n : Node} (hn : n.isText = false)
    (hended : Ended lim es source h (children ++ [n]) fs top cs₁ r b') (hcs : cs = u ++ cs₁) :
    Ended lim es source h children fs top cs r b' := by
  refine hended.past hcs fun hall => ?_
  rw [List.all_append, Bool.and_eq_true] at hall
  have hone : n.isText = true := by simpa using hall.2
  rw [hn] at hone
  cases hone

theorem closingTag?_eq_some (h : closingTag? cs = some (q, r)) :
    ∃ w, cs = w ++ '>' :: r ∧ '/' ∉ w := by
  unfold closingTag? at h
  obtain ⟨⟨q', cs₁⟩, hq, h⟩ := Option.bind_eq_some_iff.mp h
  obtain ⟨-, word, hcs, hword, -, -⟩ := legal_of_qname? hq
  obtain ⟨w, hw, hspaces, -⟩ := skipSpaces_split cs₁
  dsimp only at h
  split at h
  · next r₁ hr₁ =>
    obtain ⟨-, rfl⟩ := Prod.mk.inj (Option.some.inj h)
    refine ⟨word ++ w, ?_, fun hm => ?_⟩
    · rw [hr₁] at hw
      rw [List.append_assoc, ← hw, hcs]
    · rcases List.mem_append.mp hm with hm | hm
      · exact absurd (hword _ hm) (by decide)
      · exact absurd (hspaces _ hm) (by decide)
  · cases h

theorem taken_of_endElement? {stop : Nat} (hfr : b.frames = ⟨q, h, children⟩ :: fs)
    (hn : b.nesting = .none) {q' : QName} (hend : b.endElement? q' stop = some b') :
    Taken fs b.top b.entities (.element { h with stop := stop } children) b' := by
  unfold Builder.endElement? at hend
  obtain ⟨t, -, hend⟩ := Option.bind_eq_some_iff.mp hend
  obtain ⟨as, -, hend⟩ := Option.bind_eq_some_iff.mp hend
  rw [hfr] at hend
  dsimp only at hend
  split at hend
  · cases hend
  · obtain rfl := Option.some.inj hend
    exact @taken_append { b.clearTag with frames := fs } _ hn

/-- A node that is no text has been read: the rest of the contents decides how they end. -/
theorem Ended.after_node (ih : Tells lim es source fuel) (hb : Stays lim es source cs b)
    (hfr : b.frames = ⟨q, h, children⟩ :: fs) (htold : ToldIn lim es source children)
    {n : Node} (hn : n.isText = false) (hone : ToldIn lim es source [n]) (hcs : cs = u ++ cs₁)
    {b₁ : Builder} (htaken : Taken b.frames b.top es n b₁)
    (hread : content? source.length fuel cs₁ b₁ = some (r, b')) :
    Ended lim es source h children fs b.top cs r b' := by
  have hframes : b₁.frames = ⟨q, h, children ++ [n]⟩ :: fs := by
    rw [htaken.frames, hfr]
    rfl
  have htop : b₁.top = b.top := by
    rw [htaken.top, hfr]
    rfl
  have hended := ih.content (hb.past hcs htaken.entities htaken.nesting) hframes
    (pieces_concat hn htaken.afterText) (htold.append hone) hread
  rw [htop] at hended
  exact hended.past_node hn hcs

/-- Nothing more is read after the end of the text, where some element is still open. -/
theorem Ended.of_nil (hlt : fs.length < b.frames.length)
    (hread : content? source.length fuel [] b = some (r, b')) :
    Ended lim es source h children fs top cs r b' := by
  cases fuel with
  | zero => simp [content?] at hread
  | succ fuel =>
    rw [content?_nil] at hread
    obtain ⟨rfl, rfl⟩ := Prod.mk.inj (Option.some.inj hread)
    exact .cut hlt

/-- Text has been read: it joins the children before what is read after it. -/
theorem Ended.after_text (ih : Tells lim es source fuel) (hb : Stays lim es source cs b)
    (htold : ToldIn lim es source children) (hcs : cs = u ++ cs₁) {b₁ : Builder} {t : List Char}
    (hjoins : ∃ ms, b₁.frames = ⟨q, h, ms⟩ :: fs ∧ Grown children ms t ∧
      Pieces ms b₁.afterText ∧ b₁.top = b.top ∧ b₁.entities = b.entities ∧ b₁.nesting = b.nesting)
    (hmore : ∀ mid rest s, cs₁ = mid ++ rest → Passage lim es mid s →
      ∃ s₁, Passage lim es (u ++ mid) (s₁ ++ s) ∧ SameWords t s₁)
    (hread : content? source.length fuel cs₁ b₁ = some (r, b')) :
    Ended lim es source h children fs b.top cs r b' := by
  obtain ⟨ms, hframes, hgrown, hpieces, htop, hes, hn⟩ := hjoins
  have hended := ih.content (hb.past hcs (hes.trans hb.entities) (hn.trans hb.nesting)) hframes
    hpieces (hgrown.toldIn htold) hread
  rw [htop] at hended
  exact hended.past hcs fun hall => ⟨hgrown.all_isText.mp hall, t, hgrown.text, hmore⟩

theorem content?_told (ih : Tells lim es source fuel) (hb : Stays lim es source cs b)
    (hfr : b.frames = ⟨q, h, children⟩ :: fs) (hp : Pieces children b.afterText)
    (htold : ToldIn lim es source children)
    (hread : content? source.length (fuel + 1) cs b = some (r, b')) :
    Ended lim es source h children fs b.top cs r b' := by
  have hlength : b.frames.length = fs.length + 1 := by rw [hfr, List.length_cons]
  cases contentStep_of_content? hread with
  | ended hr hb' =>
    subst hr hb'
    exact .cut (by omega)
  | @node u r₁ n hn he _ hmore =>
    have hone : ToldIn lim es source [n] :=
      toldIn_of_plain fun m hm => List.mem_singleton.mp hm ▸ he
    have htaken := @taken_append b n hb.nesting
    rw [hb.entities] at htaken
    exact .after_node ih hb hfr htold hn hone rfl htaken hmore
  | @cdata t r₁ _ hlocal hmore =>
    refine .after_text ih hb htold rfl (appendText_frames hfr hp _) ?_ hmore
    intro mid rest s _ hpassage
    exact ⟨t, .cdata hlocal hpassage, by simpa using sameWords_sectionText t []⟩
  | closing hclosing hend =>
    obtain ⟨w, rfl, hw⟩ := closingTag?_eq_some hclosing
    have htaken := taken_of_endElement? hfr hb.nesting hend
    rw [hb.entities] at htaken
    refine .closed (List.nil_append _).symm hw htold (fun hall => ?_) htaken
    exact ⟨hp.onePiece hall, hall, [], [], .nil, by simp, SameWords.refl []⟩
  | @child u r₁ b₁ helement hmore =>
    cases ih.element hb helement with
    | cut hlt => exact .of_nil (by omega) hmore
    | missing hframes _ => exact .of_nil (by rw [hframes]; omega) hmore
    | formed hcs hone htaken => exact .after_node ih hb hfr htold rfl hone hcs htaken hmore
  | @run u r₁ b₁ hne hopen hstops hrun htext hmore =>
    obtain ⟨s, s', hstands, rfl, hs'⟩ :=
      stands_of_text? (hb.entities.symm ▸ hb.plain) hb.nesting hopen htext
    rw [hb.entities] at hstands
    refine .after_text ih hb htold rfl (addText_frames hfr hp s') ?_ hmore
    intro mid rest t hmid hpassage
    refine ⟨s, .run hne hrun hstands ?_ hpassage, by simpa using hs'⟩
    -- A passage after a run begins where the run ends, with a mark.
    rw [hmid] at hstops
    exact hstops.of_append

/-- An element is whole where its contents end with its closing tag. -/
theorem Ended.formed {hd : Head} {pre tag : List Char}
    (hended : Ended lim es source hd [] fs top cs₁ r b') (hcs : cs = tag ++ cs₁)
    (hsource : source = pre ++ cs) (htag : Closes tag) (hstart : hd.start = pre.length) :
    Formed lim es source fs top cs r b' := by
  cases hended with
  | cut hlt => exact .cut hlt
  | @closed mid w r ms b' hcs₁ hw htold hms htaken =>
    have hwhole : source = pre ++ (tag ++ (mid ++ ("</".toList ++ (w ++ '>' :: r)))) := by
      rw [hsource, hcs, hcs₁]
    refine .formed (u := tag ++ (mid ++ ("</".toList ++ (w ++ ['>'])))) (by rw [hcs, hcs₁]; simp)
      (toldIn_element (fun hall => ?_) htold) htaken
    obtain ⟨hpiece, -, s, s', hpassage, htext, hs'⟩ := hms hall
    have hinner := @innerSource_eq source pre tag mid w r
      { hd with stop := source.length - r.length } hwhole htag hw hstart rfl
    refine ⟨hpiece, s, by rw [hinner]; exact hpassage, ?_⟩
    rw [htext]
    exact hs'

/-- There is nothing to tell of an element with one tag. -/
theorem formed_empty {hd : Head} {frs : List Frame} {pre tag : List Char} (hcs : cs = tag ++ r)
    (hsource : source = pre ++ cs) (htag : Closes tag) (hstart : hd.start = pre.length)
    (hstop : hd.stop = source.length - r.length)
    (htaken : Taken frs top es (.element hd []) b') : Formed lim es source frs top cs r b' := by
  have hinner := @innerSource_empty source pre tag r hd (by rw [hsource, hcs]) htag hstart hstop
  refine .formed hcs (toldIn_element (fun _ => ?_) (toldIn_of_plain (by simp))) htaken
  exact ⟨Or.inl rfl, [], by rw [hinner]; exact .nil, SameWords.refl []⟩

theorem element?_told (ih : Tells lim es source fuel) (hb : Stays lim es source ('<' :: cs) b)
    (hread : element? source.length (fuel + 1) ('<' :: cs) b = some (r, b')) :
    Formed lim es source b.frames b.top ('<' :: cs) r b' := by
  obtain ⟨pre, hsource⟩ := hb.suffix
  have hstart : source.length - ('<' :: cs).length = pre.length := by
    rw [← hsource, List.length_append]
    omega
  have hname {q : QName} {r₀ : List Char} (hq : qname? cs = some (q, r₀)) :
      ∃ word, '<' :: cs = '<' :: word ++ r₀ ∧ Quiet ('<' :: word) := by
    obtain ⟨-, word, hcs, hword, -, -⟩ := legal_of_qname? hq
    exact ⟨word, by rw [hcs, List.cons_append],
      (quiet_of_plain (by simp) : Quiet ['<']).append (quiet_name hword)⟩
  cases elementStep_of_element? hread with
  | @opened q r₀ r₁ b₁ hq htag hmore =>
    obtain ⟨word, hcs, hopen⟩ := hname hq
    rw [hstart] at htag
    cases htag.begun hb.nesting rfl with
    | @opened u r₁ q hd b₁ hr₀ hcloses hstarts hframes htop hes hn hflag =>
      have hall : '<' :: cs = ('<' :: word ++ u) ++ r₁ := by rw [hcs, hr₀, List.append_assoc]
      have hended := ih.content (hb.past hall (hes.trans hb.entities) hn) hframes
        (pieces_nil _ hflag) (toldIn_of_plain (by simp)) hmore
      rw [htop] at hended
      exact hended.formed hall hsource.symm (hopen.closes hcloses) hstarts
  | @ended q e r₀ hq hne htag =>
    obtain ⟨word, hcs, hopen⟩ := hname hq
    rw [hstart] at htag
    cases htag.begun hb.nesting rfl with
    | opened => exact absurd rfl hne
    | missing hframes htop => exact .missing hframes htop
    | @empty u _ hd _ hr₀ hcloses hstarts hstop htaken =>
      have hall : '<' :: cs = ('<' :: word ++ u) ++ r := by rw [hcs, hr₀, List.append_assoc]
      rw [hb.entities] at htaken
      exact formed_empty hall hsource.symm (hopen.closes hcloses) hstarts hstop htaken

/-- Reading tells of all elements that hold text alone, where entities hold text alone. -/
theorem tells (lim : Nat) (es : List Entity) (source : List Char) (fuel : Nat) :
    Tells lim es source fuel := by
  induction fuel with
  | zero =>
    constructor
    · intro cs r b b' q h children fs _ _ _ _ hread
      simp [content?] at hread
    · intro cs r b b' _ hread
      simp [element?] at hread
  | succ fuel ih => exact ⟨content?_told ih, element?_told ih⟩

end Tells

/-! ### The text that is shown -/

section Shown

variable {lim : Nat} {es : List Entity} {source : List Char} {h : Head} {children : List Node}

/-- An element's own text is written with references. -/
theorem shown_of_text (hplain : Text.splitAt? "<![CDATA[".toList (innerSource source h) = none)
    (hone : OnePiece children)
    (hlegal : ∀ s, .text s ∈ children → ∀ c ∈ s, isLegal c = true) :
    Shown lim es source h children := by
  unfold Shown elementText
  dsimp only
  rw [hplain]
  rcases hone with rfl | ⟨s, rfl⟩
  · exact ⟨[], .nil, rfl⟩
  · obtain ⟨a, b, hs, -, -⟩ := Text.trim_between s
    have htrim : ∀ c ∈ Text.trim s, isLegal c = true := by
      intro c hc
      apply hlegal s List.mem_cons_self
      rw [hs]
      simp [hc]
    refine ⟨Text.trim s, passage_escapeChars htrim, ?_⟩
    rw [Text.collapse_trim, wholeText, textIn_text]

/-- A slice with character data sections is written as it is. -/
theorem shown_of_told
    (hsection : Text.splitAt? "<![CDATA[".toList (innerSource source h) ≠ none)
    (htold : Told lim es source h children) : Shown lim es source h children := by
  obtain ⟨-, s, hpassage, hsame⟩ := htold
  obtain ⟨s', htrim, hs'⟩ := hpassage.trim
  refine ⟨s', ?_, ?_⟩
  · unfold elementText
    rw [if_pos (Option.isSome_iff_ne_none.mpr hsection)]
    exact htrim
  · rw [hs', wholeText, hsame.collapse]

end Shown

end Marginalia.Xml
