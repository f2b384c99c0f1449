import Marginalia.Xml.Pretty
import Marginalia.Proofs.Text.Collapse
import Marginalia.Proofs.Xml.Entities
import Marginalia.Proofs.Xml.Tags

/-! The text between the tags of an element, and what it stands for. White space may be put into
it and taken off its ends, and it still stands for the same words. -/

namespace Marginalia.Xml

open Text (SameWords IsGap)

/-! ### Text and other nodes -/

/-- The text directly among nodes. -/
def textIn (ns : List Node) : List Char :=
  ns.flatMap fun n => match n with
    | .text s => s
    | _ => []

/-- The nodes that are no text. -/
def others (ns : List Node) : List Node := ns.filter fun n => !n.isText

/-- Nodes that a text was added to. -/
structure Grown (ns ns' : List Node) (s : List Char) : Prop where
  others : others ns' = others ns
  text : textIn ns' = textIn ns ++ s

/-- A text can only join the last node if that is a text. -/
def Joined (ns : List Node) (flag : Bool) : Prop := flag = true → ∃ ms t, ns = ms ++ [.text t]

section Nodes

variable {ns ns' ms : List Node} {s t : List Char} {flag : Bool}

@[simp] theorem textIn_append (ns ms : List Node) : textIn (ns ++ ms) = textIn ns ++ textIn ms := by
  simp [textIn]

@[simp] theorem others_append (ns ms : List Node) : others (ns ++ ms) = others ns ++ others ms := by
  simp [others]

@[simp] theorem textIn_text (s : List Char) : textIn [.text s] = s := by simp [textIn]

@[simp] theorem others_text (s : List Char) : others [.text s] = [] := by
  simp [others, Node.isText]

theorem Grown.refl (ns : List Node) : Grown ns ns [] := ⟨rfl, by simp⟩

theorem Grown.trans {us : List Node} (h : Grown ns ms s) (h' : Grown ms us t) :
    Grown ns us (s ++ t) :=
  ⟨h'.others.trans h.others, by rw [h'.text, h.text, List.append_assoc]⟩

theorem joined_false (ns : List Node) : Joined ns false := by
  intro h
  cases h

/-- Text that is read inside an element joins its children. -/
theorem appendText_inside {b : Builder} {q : QName} {h : Head} {tag : QName × Nat}
    (hj : Joined ns flag) (s : List Char) :
    ∃ ns', (b.inside q h ns tag flag).appendText s = b.inside q h ns' tag true ∧
      Joined ns' true ∧ Grown ns ns' s := by
  cases flag with
  | false =>
    refine ⟨ns ++ [.text s], rfl, fun _ => ⟨ns, s, rfl⟩, ?_, ?_⟩
    · simp
    · simp
  | true =>
    obtain ⟨ms, t, rfl⟩ := hj rfl
    refine ⟨ms ++ [.text (t ++ s)], ?_, fun _ => ⟨ms, t ++ s, rfl⟩, ?_, ?_⟩
    · have hlast := Builder.extendLast_concat t s ms
      simp [Builder.appendText, Builder.inside, Builder.modifyChildren, hlast]
    · simp
    · simp

theorem addText_inside {b : Builder} {q : QName} {h : Head} {tag : QName × Nat}
    (hj : Joined ns flag) (s : List Char) :
    ∃ ns' flag', (b.inside q h ns tag flag).addText s = b.inside q h ns' tag flag' ∧
      Joined ns' flag' ∧ Grown ns ns' s := by
  by_cases hs : s = []
  · subst hs
    exact ⟨ns, flag, rfl, hj, Grown.refl ns⟩
  · obtain ⟨ns', he, hj', hg⟩ := @appendText_inside ns flag b q h tag hj s
    refine ⟨ns', true, ?_, hj', hg⟩
    rw [Builder.addText, if_neg hs, he]

end Nodes

/-! ### Runs of text -/

/-- A run of text outside of entities, and what it stands for but for its line ends. -/
inductive Stands (limit : Nat) (es : List Entity) : List Char → List Char → Prop
  | nil : Stands limit es [] []
  | char {c : Char} {u s : List Char} : c ≠ '&' → c ≠ '<' → Stands limit es u s →
      Stands limit es (c :: u) (c :: s)
  | reference {raw u s : List Char} {c : Char} :
      (∀ r, reference? (raw ++ ';' :: r) = some (.char c, r)) → '\n' ∉ raw → '<' ∉ raw →
      Stands limit es u s → Stands limit es ('&' :: (raw ++ ';' :: u)) (c :: s)
  | entity {raw name u t s : List Char} {e : Entity} {n : Nesting} :
      (∀ r, reference? (raw ++ ';' :: r) = some (.entity name, r)) → '\n' ∉ raw → '<' ∉ raw →
      (es.find? fun e => e.name = name) = some e → e.value.length ≤ limit →
      Brings limit es ⟨1, 0⟩ e.value t n → n.depth = 1 → Stands limit es u s →
      Stands limit es ('&' :: (raw ++ ';' :: u)) (t ++ s)

section LineEnds

theorem isGap_lineEnd : IsGap ['\n'] ∧ IsGap ['\r'] := by
  constructor <;> simp [IsGap] <;> decide

theorem isGap_lineEnds {c d : Char} (hc : c = '\n' ∨ c = '\r') (hd : d = '\n' ∨ d = '\r') :
    IsGap [c, d] := by
  intro e he
  rcases List.mem_cons.mp he with rfl | he
  · rcases hc with rfl | rfl <;> decide
  · obtain rfl := List.mem_singleton.mp he
    rcases hd with rfl | rfl <;> decide

/-- Making line ends uniform changes white space alone. -/
theorem sameWords_pushText (buf : Buffer) (c : Char) (atEnd : Bool) :
    SameWords (Buffer.pushText buf c atEnd).reverse (buf.reverse ++ [c]) := by
  have hline : SameWords ['\n'] ['\r'] :=
    Text.sameWords_gap isGap_lineEnd.1 isGap_lineEnd.2 (by simp)
  unfold Buffer.pushText
  split
  · next b =>
    have hsplit (c : Char) : ('\r' :: b).reverse ++ [c] = b.reverse ++ ['\r', c] := by simp
    rw [hsplit]
    split
    · next h =>
      obtain rfl : c = '\r' := by
        simp only [Bool.and_eq_true, beq_iff_eq] at h
        exact h.2
      have hends : SameWords ['\n', '\n'] ['\r', '\r'] := Text.sameWords_gap
        (isGap_lineEnds (Or.inl rfl) (Or.inl rfl)) (isGap_lineEnds (Or.inr rfl) (Or.inr rfl))
        (by simp)
      simpa using hends.append_left b.reverse
    · split
      · have hends : SameWords ['\n', c] ['\r', c] := hline.append (SameWords.refl [c])
        simpa using hends.append_left b.reverse
      · next hc =>
        obtain rfl : c = '\n' := Decidable.not_not.mp hc
        have hends : SameWords ['\n'] ['\r', '\n'] := Text.sameWords_gap isGap_lineEnd.1
          (isGap_lineEnds (Or.inr rfl) (Or.inl rfl)) (by simp)
        simpa using hends.append_left b.reverse
  · split
    · next h =>
      obtain rfl : c = '\r' := by
        simp only [Bool.and_eq_true, beq_iff_eq] at h
        exact h.2
      simpa using hline.append_left buf.reverse
    · simpa using SameWords.refl (buf.reverse ++ [c])

/-- A character that is read joins the text, whatever is done to line ends. -/
theorem sameWords_push (buf : Buffer) (written : Bool) (c : Char) (atEnd : Bool) :
    SameWords (buf.push written c atEnd).reverse (buf.reverse ++ [c]) := by
  cases written with
  | true => simpa [Buffer.push] using SameWords.refl (buf.reverse ++ [c])
  | false => exact sameWords_pushText buf c atEnd

theorem sameWords_sectionText (t : List Char) (buf : Buffer) :
    SameWords (sectionText t buf).reverse (buf.reverse ++ t) := by
  induction t generalizing buf with
  | nil => simpa [sectionText] using SameWords.refl buf.reverse
  | cons c t ih =>
    have hpush := (sameWords_pushText buf c t.isEmpty).append (SameWords.refl t)
    have h := (ih (Buffer.pushText buf c t.isEmpty)).trans hpush
    simpa [sectionText] using h

end LineEnds

section Stands

variable {limit : Nat} {es : List Entity} {u u' s s' : List Char}

theorem enter?_none : Nesting.none.enter? = some ⟨1, 0⟩ := by decide

theorem leave_of_depth {n : Nesting} (h : n.depth = 1) : n.leave = .none := by
  simp [Nesting.leave, h, Nesting.none]

theorem fuelFor_cons (limit : Nat) (c : Char) (u : List Char) (depth : Nat) :
    fuelFor limit (c :: u).length depth = fuelFor limit u.length depth + 1 := by
  simp only [fuelFor, List.length_cons]
  omega

theorem fuelFor_reference (limit : Nat) (raw u : List Char) :
    fuelFor limit u.length 0 + 2 ≤ fuelFor limit ('&' :: (raw ++ ';' :: u)).length 0 := by
  simp only [fuelFor, List.length_cons, List.length_append]
  omega

/-- A run is read as the text that it stands for. -/
theorem Stands.text? (h : Stands limit es u s) :
    ∀ {es' : List Entity} {stop fuel : Nat} {b : Builder} {buf : Buffer} {written : Bool},
      SameEntities es es' → b.entities = es' → b.nesting = .none →
      fuelFor limit u.length 0 ≤ fuel →
      ∃ s', text? stop fuel u buf written b = some (b.addText s') ∧
        SameWords s' (buf.reverse ++ s) := by
  induction h with
  | nil =>
    intro es' stop fuel b buf written hes hb hn hfuel
    obtain ⟨fuel, rfl⟩ : ∃ k, fuel = k + 1 := ⟨fuel - 1, by unfold fuelFor at hfuel; omega⟩
    refine ⟨buf.reverse, text?_nil, ?_⟩
    rw [List.append_nil]
    exact SameWords.refl _
  | @char c u s hamp hopen _ ih =>
    intro es' stop fuel b buf written hes hb hn hfuel
    rw [fuelFor_cons] at hfuel
    obtain ⟨fuel, rfl⟩ : ∃ k, fuel = k + 1 := ⟨fuel - 1, by omega⟩
    obtain ⟨s', hread, hs'⟩ :=
      @ih es' stop fuel b (buf.push written c u.isEmpty) false hes hb hn (by omega)
    refine ⟨s', by rw [text?_plain hamp, hread], hs'.trans ?_⟩
    simpa using (sameWords_push buf written c u.isEmpty).append (SameWords.refl s)
  | @reference raw u s c href _ _ _ ih =>
    intro es' stop fuel b buf written hes hb hn hfuel
    have hmore := fuelFor_reference limit raw u
    obtain ⟨fuel, rfl⟩ : ∃ k, fuel = k + 1 := ⟨fuel - 1, by omega⟩
    obtain ⟨s', hread, hs'⟩ := @ih es' stop fuel b
      (buf.push (b.nesting.depth == 0) c u.isEmpty) (b.nesting.depth == 0 || written) hes hb hn
      (by omega)
    refine ⟨s', by rw [text?_char (href u), hread], hs'.trans ?_⟩
    simpa using (sameWords_push buf (b.nesting.depth == 0) c u.isEmpty).append (SameWords.refl s)
  | @entity raw name u t s e n href _ _ he hle hbrings hdepth _ ih =>
    intro es' stop fuel b buf written hes hb hn hfuel
    have hmore := fuelFor_reference limit raw u
    have hinner : fuelFor limit e.value.length 1 + 2 ≤ fuel := by
      unfold fuelFor at hfuel ⊢
      simp only [List.length_cons, List.length_append] at hfuel
      omega
    obtain ⟨fuel, rfl⟩ : ∃ k, fuel = k + 1 := ⟨fuel - 1, by omega⟩
    obtain ⟨e', he', hvalue⟩ := hes.find? he
    have hcontent := hbrings es' e'.stop fuel
      { b.addText buf.reverse with nesting := ⟨1, 0⟩, tag := none } hes
      ((Builder.entities_addText).trans hb) rfl (by simp only; omega)
    obtain ⟨s', hread, hs'⟩ := @ih es' stop fuel { Builder.addText { b.addText buf.reverse with
        nesting := ⟨1, 0⟩, tag := none } t with nesting := n.leave, tag := b.tag } [] false hes
      (by simp [hb]) (leave_of_depth hdepth) (by omega)
    refine ⟨buf.reverse ++ t ++ s', ?_, ?_⟩
    · have hnest : (b.addText (buf.reverse ++ t ++ s')).nesting = n.leave := by
        rw [Builder.nesting_addText, hn, leave_of_depth hdepth]
      have haround := Builder.addText_around b buf.reverse t s' ⟨1, 0⟩ n.leave
      rw [← hnest] at haround
      rw [text?_entity (href u), hb, he']
      simp only [hn, enter?_none, hvalue, hcontent]
      refine hread.trans (congrArg some ?_)
      rw [← hnest]
      exact haround
    · have h := hs'.append_left (buf.reverse ++ t)
      simpa using h

theorem Stands.append (h : Stands limit es u s) (h' : Stands limit es u' s') :
    Stands limit es (u ++ u') (s ++ s') := by
  induction h with
  | nil => exact h'
  | char hamp hopen _ ih => exact .char hamp hopen ih
  | reference href hline hopen _ ih =>
    simp only [List.cons_append, List.append_assoc]
    exact .reference href hline hopen ih
  | entity href hline hopen he hle hbrings hdepth _ ih =>
    simp only [List.cons_append, List.append_assoc]
    exact .entity href hline hopen he hle hbrings hdepth ih

/-- Plain characters stand for themselves. -/
theorem stands_self (hu : ∀ c ∈ u, c ≠ '&' ∧ c ≠ '<') : Stands limit es u u := by
  induction u with
  | nil => exact .nil
  | cons c u ih =>
    obtain ⟨hamp, hopen⟩ := hu c List.mem_cons_self
    exact .char hamp hopen (ih fun d hd => hu d (List.mem_cons_of_mem c hd))

theorem Stands.open_notMem (h : Stands limit es u s) : '<' ∉ u := by
  induction h with
  | nil => simp
  | char hamp hopen _ ih => simp [hopen.symm, ih]
  | reference href hline hopen _ ih => simp [hopen, ih]
  | entity href hline hopen he hle hbrings hdepth _ ih => simp [hopen, ih]

theorem ne_of_isBlank {c : Char} (h : Text.isBlank c = true) : c ≠ '&' ∧ c ≠ '<' ∧ c ≠ ';' := by
  refine ⟨?_, ?_, ?_⟩
  all_goals
    rintro rfl
    exact absurd h (by decide)

/-- White space in front stands for itself. -/
theorem Stands.tail {c : Char} (hc : Text.isBlank c = true) (h : Stands limit es (c :: u) s) :
    ∃ s', s = c :: s' ∧ Stands limit es u s' := by
  obtain ⟨hamp, -, -⟩ := ne_of_isBlank hc
  generalize hv : c :: u = v at h
  cases h with
  | nil => cases hv
  | char _ _ h =>
    obtain ⟨rfl, rfl⟩ := List.cons.inj hv
    exact ⟨_, rfl, h⟩
  | reference => exact absurd (List.cons.inj hv).1 hamp
  | entity => exact absurd (List.cons.inj hv).1 hamp

/-- White space at the end stands for itself. -/
theorem Stands.init {c : Char} (hc : Text.isBlank c = true) (h : Stands limit es (u ++ [c]) s) :
    ∃ s', s = s' ++ [c] ∧ Stands limit es u s' := by
  have hsemi := (ne_of_isBlank hc).2.2
  have hpeel {raw rest u : List Char} (he : u ++ [c] = '&' :: (raw ++ ';' :: rest)) :
      ∃ rest', rest = rest' ++ [c] ∧ u = '&' :: (raw ++ ';' :: rest') := by
    rcases List.eq_nil_or_concat rest with rfl | ⟨rest', d, rfl⟩
    · have hlast := congrArg List.getLast? he
      have hlist : '&' :: (raw ++ [';']) = ('&' :: raw) ++ [';'] := rfl
      rw [hlist, List.getLast?_concat, List.getLast?_concat] at hlast
      exact absurd (Option.some.inj hlast) hsemi
    · have hlist : '&' :: (raw ++ ';' :: (rest' ++ [d])) =
          ('&' :: (raw ++ ';' :: rest')) ++ [d] := by simp
      rw [List.concat_eq_append, hlist] at he
      obtain ⟨hu, hd⟩ := List.append_inj' he rfl
      obtain rfl := (List.cons.inj hd).1
      exact ⟨rest', by simp, hu⟩
  generalize hv : u ++ [c] = v at h
  induction h generalizing u with
  | nil => simp at hv
  | @char d v s hamp hopen h ih =>
    cases u with
    | nil =>
      obtain ⟨rfl, rfl⟩ := List.cons.inj hv
      cases h
      exact ⟨[], rfl, .nil⟩
    | cons e u =>
      obtain ⟨rfl, htail⟩ := List.cons.inj hv
      obtain ⟨s', rfl, h'⟩ := ih htail
      exact ⟨e :: s', rfl, .char hamp hopen h'⟩
  | @reference raw v s d href hline hopen _ ih =>
    obtain ⟨v', rfl, rfl⟩ := hpeel hv
    obtain ⟨s', rfl, h'⟩ := ih rfl
    exact ⟨d :: s', rfl, .reference href hline hopen h'⟩
  | @entity raw name v t s e n href hline hopen he hle hbrings hdepth _ ih =>
    obtain ⟨v', rfl, rfl⟩ := hpeel hv
    obtain ⟨s', rfl, h'⟩ := ih rfl
    exact ⟨t ++ s', by simp, .entity href hline hopen he hle hbrings hdepth h'⟩

end Stands

/-! ### Indented text -/

/-- A text with spaces after each of its line ends. -/
def spaced (k : Nat) (cs : List Char) : List Char :=
  cs.flatMap fun c => if c = '\n' then '\n' :: List.replicate k ' ' else [c]

section Spaced

variable {k : Nat} {c : Char} {mark u v : List Char}

@[simp] theorem spaced_nil (k : Nat) : spaced k [] = [] := rfl

@[simp] theorem spaced_line (k : Nat) (u : List Char) :
    spaced k ('\n' :: u) = '\n' :: (List.replicate k ' ' ++ spaced k u) := rfl

theorem spaced_cons (hc : c ≠ '\n') (u : List Char) : spaced k (c :: u) = c :: spaced k u := by
  simp [spaced, hc]

theorem spaced_append (u v : List Char) : spaced k (u ++ v) = spaced k u ++ spaced k v :=
  List.flatMap_append

theorem spaced_of_notMem (hu : '\n' ∉ u) : spaced k u = u := by
  induction u with
  | nil => rfl
  | cons c u ih =>
    have hc : c ≠ '\n' := fun he => hu (he ▸ List.mem_cons_self)
    rw [spaced_cons hc, ih fun hm => hu (List.mem_cons_of_mem c hm)]

theorem mem_spaced {d : Char} (h : d ∈ spaced k u) : d ∈ u ∨ d = ' ' := by
  obtain ⟨c, hc, hd⟩ := List.mem_flatMap.mp h
  split at hd
  · next he =>
    rcases List.mem_cons.mp hd with rfl | hd
    · exact Or.inl (he ▸ hc)
    · exact Or.inr (List.eq_of_mem_replicate hd)
  · exact Or.inl (List.mem_singleton.mp hd ▸ hc)

theorem indentText_eq (level : Nat) (t : List Char) :
    indentText level t = indentation level ++ spaced (4 * level) t := by
  unfold indentText
  induction t with
  | nil => simp [Text.splitOn, Text.joinWith]
  | cons c t ih =>
    have hne : Text.splitOn '\n' t ≠ [] := by
      cases t with
      | nil => simp [Text.splitOn]
      | cons d t =>
        rw [Text.splitOn]
        split
        · simp
        · split <;> simp
    obtain ⟨p, ps, hps⟩ := List.exists_cons_of_ne_nil hne
    rw [hps] at ih
    rw [Text.splitOn]
    by_cases hc : c = '\n'
    · subst hc
      have hline : (List.replicate (4 * level) ' ') = indentation level := rfl
      rw [if_pos (beq_self_eq_true '\n'), hps, spaced_line, hline, ← ih]
      simp [Text.joinWith]
    · rw [if_neg (by simpa using hc), hps, spaced_cons hc]
      cases ps with
      | nil =>
        have htail : p = spaced (4 * level) t := by simpa [Text.joinWith] using ih
        simp [Text.joinWith, htail]
      | cons q ps =>
        simp only [List.map_cons, Text.joinWith, List.append_assoc] at ih ⊢
        rw [← List.append_cancel_left ih, List.cons_append]

/-- A mark without white space stands in the indented text where it stands in the text. -/
theorem dropLead?_spaced (hline : '\n' ∉ mark) :
    Text.dropLead? mark (spaced k u) = (Text.dropLead? mark u).map (spaced k) := by
  induction mark generalizing u with
  | nil => rfl
  | cons c mark ih =>
    have hc : c ≠ '\n' := fun he => hline (he ▸ List.mem_cons_self)
    cases u with
    | nil => rfl
    | cons d u =>
      by_cases hd : d = '\n'
      · subst hd
        rw [spaced_line, Text.dropLead?, Text.dropLead?, if_neg (by simpa using hc),
          if_neg (by simpa using hc)]
        rfl
      · rw [spaced_cons hd, Text.dropLead?, Text.dropLead?]
        split
        · exact ih fun hm => hline (List.mem_cons_of_mem c hm)
        · rfl

theorem splitAt?_spaces (hspace : ' ' ∉ mark) (hne : mark ≠ []) (n : Nat) (v : List Char) :
    Text.splitAt? mark (List.replicate n ' ' ++ v) =
      (Text.splitAt? mark v).map fun (a, b) => (List.replicate n ' ' ++ a, b) := by
  induction n with
  | zero => simp
  | succ n ih =>
    obtain ⟨c, mark, rfl⟩ := List.exists_cons_of_ne_nil hne
    have hc : c ≠ ' ' := fun he => hspace (he ▸ List.mem_cons_self)
    have hlead : Text.dropLead? (c :: mark) (' ' :: (List.replicate n ' ' ++ v)) = none := by
      rw [Text.dropLead?, if_neg (by simpa using hc)]
    rw [List.replicate_succ, List.cons_append, Text.splitAt?, hlead, ih]
    cases Text.splitAt? (c :: mark) v <;> rfl

theorem splitAt?_spaced (hline : '\n' ∉ mark) (hspace : ' ' ∉ mark) (hne : mark ≠ []) :
    Text.splitAt? mark (spaced k u) =
      (Text.splitAt? mark u).map fun (a, b) => (spaced k a, spaced k b) := by
  induction u with
  | nil =>
    have hlead := @dropLead?_spaced k mark [] hline
    rw [spaced_nil] at hlead ⊢
    rw [Text.splitAt?, Option.map_map]
    cases hd : Text.dropLead? mark [] with
    | none => rfl
    | some r =>
      rw [hd] at hlead
      have hr : r = spaced k r := by simpa using hlead
      simp [← hr]
  | cons c u ih =>
    have hlead := @dropLead?_spaced k mark (c :: u) hline
    by_cases hc : c = '\n'
    · subst hc
      rw [spaced_line] at hlead ⊢
      rw [Text.splitAt?, Text.splitAt?, hlead]
      cases hd : Text.dropLead? mark ('\n' :: u) with
      | some r => rfl
      | none =>
        rw [Option.map_none]
        dsimp only
        rw [splitAt?_spaces hspace hne, ih]
        cases Text.splitAt? mark u <;> rfl
    · rw [spaced_cons hc] at hlead ⊢
      rw [Text.splitAt?, Text.splitAt?, hlead]
      cases hd : Text.dropLead? mark (c :: u) with
      | some r => rfl
      | none =>
        rw [Option.map_none]
        dsimp only
        rw [ih]
        cases Text.splitAt? mark u with
        | none => rfl
        | some ab => simp [spaced_cons hc]

end Spaced

/-! ### Passages -/

/-- The text of a character data section as it is written. -/
def IsSection (t : List Char) : Prop :=
  ∀ r, upTo? "]]>".toList (t ++ "]]>".toList ++ r) = some (t, r)

/-- Runs of text and character data sections, and what they stand for but for line ends. -/
inductive Passage (limit : Nat) (es : List Entity) : List Char → List Char → Prop
  | nil : Passage limit es [] []
  | run {u s v s' : List Char} : u ≠ [] → IsRun u = true → Stands limit es u s →
      Stops (fun c => decide (c ≠ '<')) v → Passage limit es v s' →
      Passage limit es (u ++ v) (s ++ s')
  | cdata {t v s' : List Char} : IsSection t → Passage limit es v s' →
      Passage limit es ("<![CDATA[".toList ++ t ++ "]]>".toList ++ v) (t ++ s')

/-- The fuel with which text of a length and what is in it can be read. -/
def Ample (limit length fuel : Nat) : Prop := fuelFor limit length 0 + 1 ≤ fuel

section Passage

variable {limit k : Nat} {es : List Entity} {u v s s' t w w' : List Char} {c : Char}

theorem content?_section {stop fuel : Nat} {b : Builder} (ht : IsSection t) (rest : List Char) :
    content? stop (fuel + 1) ("<![CDATA[".toList ++ t ++ "]]>".toList ++ rest) b =
      content? stop fuel rest (b.appendText (sectionText t []).reverse) := by
  have hmark : Text.dropLead? "<!--".toList ("<![CDATA[".toList ++ t ++ "]]>".toList ++ rest) =
      none := by
    simp [Text.dropLead?]
  have hlead : Text.dropLead? "<![CDATA[".toList
      ("<![CDATA[".toList ++ t ++ "]]>".toList ++ rest) = some (t ++ "]]>".toList ++ rest) := by
    simp only [List.append_assoc]
    exact dropLead?_self _ _
  have hup := ht rest
  have hopen : ∃ r, "<![CDATA[".toList ++ t ++ "]]>".toList ++ rest = '<' :: '!' :: r := by
    refine ⟨"[CDATA[".toList ++ t ++ "]]>".toList ++ rest, ?_⟩
    simp only [String.reduceToList, List.cons_append, List.nil_append]
  obtain ⟨r, hr⟩ := hopen
  rw [hr] at hmark hlead ⊢
  rw [content?]
  simp only [hmark, hlead, hup]

/-- A passage inside an element is read as text of the element. -/
theorem Passage.content? (h : Passage limit es v s) :
    ∀ {es' : List Entity} {stop fuel : Nat} {b : Builder} {q : QName} {hd : Head}
      {ns : List Node} {tag : QName × Nat} {flag : Bool} {tail : List Char},
      SameEntities es es' → b.entities = es' → b.nesting = .none → Joined ns flag →
      Stops (fun c => decide (c ≠ '<')) tail → Ample limit (v ++ tail).length fuel →
      ∃ fuel' ns' flag' s', content? stop fuel (v ++ tail) (b.inside q hd ns tag flag) =
          content? stop fuel' tail (b.inside q hd ns' tag flag') ∧
        Ample limit tail.length fuel' ∧ Joined ns' flag' ∧ Grown ns ns' s' ∧ SameWords s' s := by
  induction h with
  | nil =>
    intro es' stop fuel b q hd ns tag flag tail hes hb hn hj htail hfuel
    exact ⟨fuel, ns, flag, [], rfl, hfuel, hj, Grown.refl ns, SameWords.refl []⟩
  | @run u s v s' hne hrun hstands hstops _ ih =>
    intro es' stop fuel b q hd ns tag flag tail hes hb hn hj htail hfuel
    have hlen : 1 ≤ u.length := List.length_pos_of_ne_nil hne
    have hu : fuelFor limit u.length 0 + 1 ≤ fuel := by
      unfold Ample fuelFor at *
      simp only [List.length_append] at hfuel
      omega
    have hrest : Ample limit (v ++ tail).length (fuel - 1) := by
      unfold Ample fuelFor at *
      simp only [List.length_append] at hfuel ⊢
      omega
    obtain ⟨fuel, rfl⟩ : ∃ k, fuel = k + 1 := ⟨fuel - 1, by omega⟩
    have hstops' : Stops (fun c => decide (c ≠ '<')) (v ++ tail) := hstops.append htail
    obtain ⟨s₁, hread, hs₁⟩ := @Stands.text? limit es u s hstands es' stop fuel
      (b.inside q hd ns tag flag) [] false hes hb hn (by omega)
    obtain ⟨ns₁, flag₁, hadd, hj₁, hg₁⟩ := @addText_inside ns flag b q hd tag hj s₁
    obtain ⟨fuel', ns', flag', s₂, hcontent, hfuel', hj', hg', hs₂⟩ :=
      @ih es' stop fuel b q hd ns₁ tag flag₁ tail hes hb hn hj₁ htail hrest
    refine ⟨fuel', ns', flag', s₁ ++ s₂, ?_, hfuel', hj', hg₁.trans hg', ?_⟩
    · rw [List.append_assoc, content?_run hne hstands.open_notMem hstops', if_pos hrun, hread,
        Option.bind_some, hadd, hcontent]
    · exact SameWords.append (by simpa using hs₁) hs₂
  | @cdata t v s' ht _ ih =>
    intro es' stop fuel b q hd ns tag flag tail hes hb hn hj htail hfuel
    have hrest : Ample limit (v ++ tail).length (fuel - 1) ∧ 1 ≤ fuel := by
      unfold Ample fuelFor at *
      simp only [List.length_append, String.reduceToList, List.length_cons] at hfuel ⊢
      omega
    obtain ⟨fuel, rfl⟩ : ∃ k, fuel = k + 1 := ⟨fuel - 1, by omega⟩
    obtain ⟨ns₁, hadd, hj₁, hg₁⟩ :=
      @appendText_inside ns flag b q hd tag hj (sectionText t []).reverse
    obtain ⟨fuel', ns', flag', s₂, hcontent, hfuel', hj', hg', hs₂⟩ :=
      @ih es' stop fuel b q hd ns₁ tag true tail hes hb hn hj₁ htail hrest.1
    refine ⟨fuel', ns', flag', (sectionText t []).reverse ++ s₂, ?_, hfuel', hj',
      hg₁.trans hg', ?_⟩
    · rw [List.append_assoc, content?_section ht, hadd, hcontent]
    · exact SameWords.append (by simpa using sameWords_sectionText t []) hs₂

theorem Passage.eq_nil (h : Passage limit es [] s) : s = [] := by
  generalize hv : ([] : List Char) = v at h
  cases h with
  | nil => rfl
  | run hne => exact absurd (List.append_eq_nil_iff.mp hv.symm).1 hne
  | cdata => simp at hv

/-! ### Runs that grow and shrink -/

theorem isRun_iff : IsRun u = true ↔ (∀ c ∈ u, isLegal c = true) ∧ ¬ "]]>".toList <:+: u := by
  rw [IsRun, Bool.and_eq_true, List.all_eq_true, Option.isNone_iff_eq_none, splitAt?_eq_none_iff]

theorem isRun_infix (h : IsRun u = true) (hv : v <:+: u) : IsRun v = true := by
  rw [isRun_iff] at h ⊢
  refine ⟨fun c hc => h.1 c (hv.subset hc), fun hm => h.2 (hm.trans hv)⟩

/-- White space that may stand in a document. -/
def IsFiller (w : List Char) : Prop := ∀ c ∈ w, Text.isBlank c = true ∧ isLegal c = true

theorem IsFiller.isGap (h : IsFiller w) : IsGap w := fun c hc => (h c hc).1

theorem ne_of_isBlank_mark (h : Text.isBlank c = true) : c ≠ ']' ∧ c ≠ '>' := by
  constructor
  all_goals
    rintro rfl
    exact absurd h (by decide)

theorem isRun_filler (hw : IsFiller w) : IsRun w = true := by
  rw [isRun_iff]
  refine ⟨fun c hc => (hw c hc).2, fun hm => ?_⟩
  have hmem : ']' ∈ w := hm.subset (by simp)
  exact absurd rfl (ne_of_isBlank_mark (hw _ hmem).1).1

theorem isRun_cons (hc : Text.isBlank c = true) (hl : isLegal c = true) (h : IsRun u = true) :
    IsRun (c :: u) = true := by
  rw [isRun_iff] at h ⊢
  refine ⟨fun d hd => ?_, fun hm => ?_⟩
  · rcases List.mem_cons.mp hd with rfl | hd
    · exact hl
    · exact h.1 d hd
  · rcases List.infix_cons_iff.mp hm with hp | hm
    · have hmark := (List.cons_prefix_cons.mp hp).1
      exact absurd hmark.symm (ne_of_isBlank_mark hc).1
    · exact h.2 hm

theorem isRun_concat (hc : Text.isBlank c = true) (hl : isLegal c = true) (h : IsRun u = true) :
    IsRun (u ++ [c]) = true := by
  rw [isRun_iff] at h ⊢
  refine ⟨fun d hd => ?_, fun hm => ?_⟩
  · rcases List.mem_append.mp hd with hd | hd
    · exact h.1 d hd
    · exact List.mem_singleton.mp hd ▸ hl
  · obtain ⟨x, y, hxy⟩ := hm
    rcases List.eq_nil_or_concat y with rfl | ⟨y, d, rfl⟩
    · have hlast := congrArg List.getLast? hxy
      simp at hlast
      exact absurd hlast.symm (ne_of_isBlank_mark hc).2
    · rw [List.concat_eq_append, ← List.append_assoc] at hxy
      exact h.2 ⟨x, y, (List.append_inj' hxy rfl).1⟩

theorem isRun_spaced (h : IsRun u = true) : IsRun (spaced k u) = true := by
  rw [isRun_iff] at h ⊢
  refine ⟨fun c hc => ?_, ?_⟩
  · rcases mem_spaced hc with hc | rfl
    · exact h.1 c hc
    · decide
  · rw [← splitAt?_eq_none_iff] at h ⊢
    rw [splitAt?_spaced (by decide) (by decide) (by decide), h.2]
    rfl

theorem isSection_spaced (h : IsSection t) : IsSection (spaced k t) := by
  intro r
  have hup := h []
  rw [List.append_nil] at hup
  unfold upTo? at hup
  split at hup
  · next a b hsplit =>
    split at hup
    · next hlegal =>
      simp only [Option.some.injEq, Prod.mk.injEq] at hup
      obtain ⟨rfl, rfl⟩ := hup
      have hmark := @splitAt?_spaced k "]]>".toList (a ++ "]]>".toList) (by decide) (by decide)
        (by decide)
      have hsame : spaced k "]]>".toList = "]]>".toList := spaced_of_notMem (by decide)
      rw [hsplit, spaced_append, hsame] at hmark
      have hlegal' : (spaced k a).all isLegal = true := by
        rw [List.all_eq_true] at hlegal ⊢
        intro c hc
        rcases mem_spaced hc with hc | rfl
        · exact hlegal c hc
        · decide
      unfold upTo?
      rw [(splitAt?_of_append hmark).2 r]
      simp only [hlegal', if_true]
    · cases hup
  · cases hup

/-! ### White space in passages -/

theorem Stands.spaced (h : Stands limit es u s) :
    ∃ s', Stands limit es (spaced k u) s' ∧ SameWords s' s := by
  induction h with
  | nil => exact ⟨[], .nil, SameWords.refl []⟩
  | @char c u s hamp hopen _ ih =>
    obtain ⟨s', h', hs'⟩ := ih
    by_cases hc : c = '\n'
    · subst hc
      have hspaces : Stands limit es (List.replicate k ' ') (List.replicate k ' ') := by
        refine stands_self fun c hc => ?_
        obtain rfl := List.eq_of_mem_replicate hc
        decide
      have hgap : SameWords ('\n' :: List.replicate k ' ') ['\n'] := by
        refine Text.sameWords_gap (fun c hc => ?_) isGap_lineEnd.1 (by simp)
        rcases List.mem_cons.mp hc with rfl | hc
        · decide
        · obtain rfl := List.eq_of_mem_replicate hc
          decide
      exact ⟨'\n' :: (List.replicate k ' ' ++ s'), .char hamp hopen (hspaces.append h'),
        hgap.append hs'⟩
    · rw [spaced_cons hc]
      exact ⟨c :: s', .char hamp hopen h', hs'.cons c⟩
  | @reference raw u s c href hline hopen _ ih =>
    obtain ⟨s', h', hs'⟩ := ih
    have hsame : Xml.spaced k ('&' :: (raw ++ ';' :: u)) =
        '&' :: (raw ++ ';' :: Xml.spaced k u) := by
      rw [spaced_cons (by decide), spaced_append, spaced_of_notMem hline,
        spaced_cons (by decide)]
    rw [hsame]
    exact ⟨c :: s', .reference href hline hopen h', hs'.cons c⟩
  | @entity raw name u t s e n href hline hopen he hle hbrings hdepth _ ih =>
    obtain ⟨s', h', hs'⟩ := ih
    have hsame : Xml.spaced k ('&' :: (raw ++ ';' :: u)) =
        '&' :: (raw ++ ';' :: Xml.spaced k u) := by
      rw [spaced_cons (by decide), spaced_append, spaced_of_notMem hline,
        spaced_cons (by decide)]
    rw [hsame]
    exact ⟨t ++ s', .entity href hline hopen he hle hbrings hdepth h', hs'.append_left t⟩

theorem sameWords_spaced (k : Nat) (t : List Char) : SameWords (spaced k t) t := by
  induction t with
  | nil => exact SameWords.refl []
  | cons c t ih =>
    by_cases hc : c = '\n'
    · subst hc
      have hgap : SameWords ('\n' :: List.replicate k ' ') ['\n'] := by
        refine Text.sameWords_gap (fun c hc => ?_) isGap_lineEnd.1 (by simp)
        rcases List.mem_cons.mp hc with rfl | hc
        · decide
        · obtain rfl := List.eq_of_mem_replicate hc
          decide
      exact hgap.append ih
    · rw [spaced_cons hc]
      exact ih.cons c

/-- Lines of a passage may be indented. -/
theorem Passage.spaced (h : Passage limit es v s) :
    ∃ s', Passage limit es (spaced k v) s' ∧ SameWords s' s := by
  induction h with
  | nil => exact ⟨[], .nil, SameWords.refl []⟩
  | @run u s v s' hne hrun hstands hstops _ ih =>
    obtain ⟨s₁, hstands₁, hs₁⟩ := @Stands.spaced limit k es u s hstands
    obtain ⟨s₂, h₂, hs₂⟩ := ih
    have hne' : Xml.spaced k u ≠ [] := by
      obtain ⟨c, u, rfl⟩ := List.exists_cons_of_ne_nil hne
      by_cases hc : c = '\n'
      · subst hc
        simp
      · simp [spaced_cons hc]
    have hstops' : Stops (fun c => decide (c ≠ '<')) (Xml.spaced k v) := by
      cases v with
      | nil => simp
      | cons c v =>
        obtain rfl : c = '<' := by simpa using hstops
        rw [spaced_cons (by decide)]
        exact hstops
    rw [spaced_append]
    exact ⟨s₁ ++ s₂, .run hne' (isRun_spaced hrun) hstands₁ hstops' h₂, hs₁.append hs₂⟩
  | @cdata t v s' ht _ ih =>
    obtain ⟨s₂, h₂, hs₂⟩ := ih
    have hopen : Xml.spaced k "<![CDATA[".toList = "<![CDATA[".toList :=
      spaced_of_notMem (by decide)
    have hclose : Xml.spaced k "]]>".toList = "]]>".toList := spaced_of_notMem (by decide)
    rw [spaced_append, spaced_append, spaced_append, hopen, hclose]
    exact ⟨Xml.spaced k t ++ s₂, .cdata (isSection_spaced ht) h₂,
      (sameWords_spaced k t).append hs₂⟩

/-- White space may stand before a passage. -/
theorem Passage.cons (hc : Text.isBlank c = true) (hl : isLegal c = true)
    (h : Passage limit es v s) : Passage limit es (c :: v) (c :: s) := by
  obtain ⟨hamp, hopen, -⟩ := ne_of_isBlank hc
  have hone : IsRun [c] = true := isRun_filler fun d hd => by
    obtain rfl := List.mem_singleton.mp hd
    exact ⟨hc, hl⟩
  cases h with
  | nil => exact .run (by simp) hone (.char hamp hopen .nil) (by simp) .nil
  | run hne hrun hstands hstops h =>
    exact .run (by simp) (isRun_cons hc hl hrun) (.char hamp hopen hstands) hstops h
  | @cdata t v s' ht h =>
    have hstops : Stops (fun c => decide (c ≠ '<'))
        ("<![CDATA[".toList ++ t ++ "]]>".toList ++ v) := by
      simp
    have hmore : Stands limit es [c] [c] := .char hamp hopen .nil
    exact @Passage.run limit es [c] [c] _ _ (by simp) hone hmore hstops (.cdata ht h)

/-- White space may stand after a passage. -/
theorem Passage.concat (hc : Text.isBlank c = true) (hl : isLegal c = true)
    (h : Passage limit es v s) : Passage limit es (v ++ [c]) (s ++ [c]) := by
  obtain ⟨hamp, hopen, -⟩ := ne_of_isBlank hc
  have hone : IsRun [c] = true := isRun_filler fun d hd => by
    obtain rfl := List.mem_singleton.mp hd
    exact ⟨hc, hl⟩
  induction h with
  | nil =>
    exact @Passage.run limit es [c] [c] [] [] (by simp) hone (.char hamp hopen .nil) (by simp) .nil
  | @run u s v s' hne hrun hstands hstops h ih =>
    cases v with
    | nil =>
      obtain rfl := h.eq_nil
      have hmore := hstands.append (.char hamp hopen .nil : Stands limit es [c] [c])
      have h := Passage.run (by simp) (isRun_concat hc hl hrun) hmore (by simp) .nil
      simpa using h
    | cons d v =>
      rw [List.append_assoc, List.append_assoc]
      exact .run hne hrun hstands hstops ih
  | @cdata t v s' ht h ih =>
    rw [List.append_assoc, List.append_assoc t]
    exact .cdata ht ih

/-- White space at the front of a passage can be left out. -/
theorem Passage.tail (hc : Text.isBlank c = true) (h : Passage limit es (c :: v) s) :
    ∃ s', s = c :: s' ∧ Passage limit es v s' := by
  obtain ⟨hamp, hopen, -⟩ := ne_of_isBlank hc
  generalize hv : c :: v = x at h
  cases h with
  | nil => cases hv
  | @run u s x s' hne hrun hstands hstops h =>
    obtain ⟨d, u, rfl⟩ := List.exists_cons_of_ne_nil hne
    obtain ⟨rfl, rfl⟩ := List.cons.inj hv
    obtain ⟨s₁, rfl, hrest⟩ := hstands.tail hc
    refine ⟨s₁ ++ s', rfl, ?_⟩
    cases u with
    | nil =>
      cases hrest
      exact h
    | cons e u =>
      have hrun' := isRun_infix hrun (List.suffix_cons c (e :: u)).isInfix
      exact .run (by simp) hrun' hrest hstops h
  | @cdata t x s' ht h =>
    have hmark : c = '<' := by
      simp only [String.reduceToList, List.cons_append] at hv
      exact (List.cons.inj hv).1
    exact absurd hmark hopen

/-- White space at the end of a passage can be left out. -/
theorem Passage.init (hc : Text.isBlank c = true) (h : Passage limit es (v ++ [c]) s) :
    ∃ s', s = s' ++ [c] ∧ Passage limit es v s' := by
  have hmark := (ne_of_isBlank_mark hc).2
  generalize hv : v ++ [c] = x at h
  induction h generalizing v with
  | nil => simp at hv
  | @run u s x s' hne hrun hstands hstops h ih =>
    rcases List.eq_nil_or_concat x with rfl | ⟨y, d, rfl⟩
    · obtain rfl := h.eq_nil
      rw [List.append_nil] at hv
      subst hv
      obtain ⟨s₁, rfl, hrest⟩ := hstands.init hc
      refine ⟨s₁, by simp, ?_⟩
      by_cases hvn : v = []
      · subst hvn
        cases hrest
        exact .nil
      · have hrun' := isRun_infix hrun (List.prefix_append v [c]).isInfix
        have h := Passage.run hvn hrun' hrest (by simp) .nil
        simpa using h
    · rw [List.concat_eq_append, ← List.append_assoc] at hv
      obtain ⟨rfl, hd⟩ := List.append_inj' hv rfl
      obtain rfl := (List.cons.inj hd).1
      obtain ⟨s₂, rfl, h'⟩ := @ih y (by simp)
      refine ⟨s ++ s₂, by simp, .run hne hrun hstands ?_ h'⟩
      intro e he
      cases y with
      | nil => cases he
      | cons f y => exact hstops e he
  | @cdata t x s' ht h ih =>
    rcases List.eq_nil_or_concat x with rfl | ⟨y, d, rfl⟩
    · have he : v ++ [c] = ("<![CDATA[".toList ++ t ++ "]]".toList) ++ ['>'] := by
        simpa using hv
      obtain ⟨-, hd⟩ := List.append_inj' he rfl
      exact absurd (List.cons.inj hd).1 hmark
    · rw [List.concat_eq_append, ← List.append_assoc] at hv
      obtain ⟨rfl, hd⟩ := List.append_inj' hv rfl
      obtain rfl := (List.cons.inj hd).1
      obtain ⟨s₂, rfl, h'⟩ := @ih y (by simp)
      exact ⟨t ++ s₂, by simp, .cdata ht h'⟩

theorem Passage.between (hw : IsFiller w) (hw' : IsFiller w') (h : Passage limit es v s) :
    Passage limit es (w ++ v ++ w') (w ++ s ++ w') := by
  have hend : Passage limit es (v ++ w') (s ++ w') := by
    induction w' generalizing v s with
    | nil => simpa using h
    | cons c w' ih =>
      obtain ⟨hc, hl⟩ := hw' c List.mem_cons_self
      have h' := ih (fun d hd => hw' d (List.mem_cons_of_mem c hd)) (h.concat hc hl)
      simpa using h'
  induction w with
  | nil => exact hend
  | cons c w ih =>
    obtain ⟨hc, hl⟩ := hw c List.mem_cons_self
    exact (ih fun d hd => hw d (List.mem_cons_of_mem c hd)).cons hc hl

theorem Passage.within (hw : IsGap w) (hw' : IsGap w') (h : Passage limit es (w ++ v ++ w') s) :
    ∃ s', s = w ++ s' ++ w' ∧ Passage limit es v s' := by
  induction w generalizing s with
  | nil =>
    induction w' generalizing v s with
    | nil => exact ⟨s, by simp, by simpa using h⟩
    | cons c w' ih =>
      have hlist : [] ++ v ++ c :: w' = [] ++ (v ++ [c]) ++ w' := by simp
      rw [hlist] at h
      obtain ⟨s₁, rfl, h₁⟩ := ih (fun d hd => hw' d (List.mem_cons_of_mem c hd)) h
      obtain ⟨s', rfl, h'⟩ := h₁.init (hw' c List.mem_cons_self)
      exact ⟨s', by simp, h'⟩
  | cons c w ih =>
    obtain ⟨s₁, rfl, h₁⟩ := Passage.tail (hw c List.mem_cons_self) h
    obtain ⟨s', rfl, h'⟩ := ih (fun d hd => hw d (List.mem_cons_of_mem c hd)) h₁
    exact ⟨s', by simp, h'⟩

/-- A passage cut of its white space stands for the same words. -/
theorem Passage.trim (h : Passage limit es v s) :
    ∃ s', Passage limit es (Text.trim v) s' ∧ Text.collapse s' = Text.collapse s := by
  obtain ⟨a, b, hv, ha, hb⟩ := Text.trim_between v
  rw [hv] at h
  obtain ⟨s', rfl, h'⟩ := h.within ha hb
  exact ⟨s', h', (Text.collapse_between ha hb s').symm⟩

theorem stands_escapeChar (limit : Nat) (es : List Entity) (c : Char) :
    Stands limit es (Text.escapeChar c) [c] := by
  unfold Text.escapeChar
  split
  · next hc =>
    subst hc
    exact @Stands.reference limit es "amp".toList [] [] '&' (fun r => rfl) (by decide) (by decide)
      .nil
  · split
    · next hc =>
      subst hc
      exact @Stands.reference limit es "lt".toList [] [] '<' (fun r => rfl) (by decide)
        (by decide) .nil
    · split
      · next hc =>
        subst hc
        exact @Stands.reference limit es "gt".toList [] [] '>' (fun r => rfl) (by decide)
          (by decide) .nil
      · next hamp hopen _ => exact .char hamp hopen .nil

theorem legal_escapeChar (hc : isLegal c = true) :
    ∀ d ∈ Text.escapeChar c, isLegal d = true ∧ d ≠ '>' := by
  unfold Text.escapeChar
  split
  · simp; decide
  · split
    · simp; decide
    · split
      · simp; decide
      · next hclose =>
        intro d hd
        obtain rfl := List.mem_singleton.mp hd
        exact ⟨hc, hclose⟩

/-- Written with references, any text of a document is a passage. -/
theorem passage_escapeChars (hs : ∀ c ∈ s, isLegal c = true) :
    Passage limit es (Text.escapeChars s) s := by
  have hstands : Stands limit es (Text.escapeChars s) s := by
    clear hs
    induction s with
    | nil => exact .nil
    | cons c s ih => exact (stands_escapeChar limit es c).append ih
  by_cases hne : Text.escapeChars s = []
  · rw [hne] at hstands ⊢
    cases hstands
    exact .nil
  · have hall : ∀ d ∈ Text.escapeChars s, isLegal d = true ∧ d ≠ '>' := by
      intro d hd
      obtain ⟨c, hc, hd⟩ := List.mem_flatMap.mp hd
      exact legal_escapeChar (hs c hc) d hd
    have hrun : IsRun (Text.escapeChars s) = true := by
      rw [isRun_iff]
      refine ⟨fun c hc => (hall c hc).1, fun hm => ?_⟩
      exact (hall '>' (hm.subset (by simp))).2 rfl
    have h := Passage.run hne hrun hstands (by simp) .nil
    simpa using h

end Passage

end Marginalia.Xml
