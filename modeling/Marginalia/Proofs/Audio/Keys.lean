import Mathlib
import Marginalia.Proofs.Attachment.Fields
import Marginalia.Proofs.Audio.Groups
import Marginalia.Proofs.Decimal.Reading
import Marginalia.Proofs.Text.Collapse

/-! Groups of comments against the regions that are read from them. Groups are told by the texts of
fields, regions by what the fields stand for. Where all times are kept in one notation, as texts or
as values of their own, the two agree. -/

namespace Marginalia.Audio

open Attachment (Anchor AudioAnchor Comment flag seconds?)
open Decimal (Notation)

/-- Two comments are in one group. -/
def SameGroup (cs : List Comment) (c c' : Comment) : Prop :=
  ∃ g ∈ groupComments cs, c ∈ g.comments ∧ c' ∈ g.comments

/-- Two spans on one side with the same ends, as numbers or both unknown. -/
def sameSpan (a b : AudioAnchor) : Bool :=
  a.start == b.start && a.stop == b.stop && a.earlier == b.earlier

/-- No end of a span is the zero below zero. -/
structure NoNegativeZero (a : AudioAnchor) : Prop where
  start : a.start ≠ some (-0)
  stop : a.stop ≠ some (-0)

/-- One region is read from two comments. -/
def SameRegion (c c' : Comment) : Prop :=
  ∃ a b, Anchor.ofFields .audio c.fields = .ok (.audio a) ∧
    Anchor.ofFields .audio c'.fields = .ok (.audio b) ∧ sameSpan a b = true

/-- A time as it may be kept: as a number that is printed as the notation writes it, as the text of
one, or as nothing. -/
inductive KeepsTime (n : Notation) : Option Float → Json → Prop
  | number {x : Float} {j : Json} (hx : Decimal.isFinite x = true) (hj : j.float? = some x)
      (hprint : j.compact.toList = n.write x) : KeepsTime n (some x) j
  | numeral {x : Float} (hx : Decimal.isFinite x = true) :
      KeepsTime n (some x) (.text (String.ofList (n.write x)))
  | nothing : KeepsTime n none .null
  | nothingText : KeepsTime n none (.text "null")

/-- A flag as it may be kept: as a truth value, or as the text of one. -/
inductive KeepsFlag : Bool → Json → Prop
  | value (b : Bool) : KeepsFlag b (.bool b)
  | yes : KeepsFlag true (.text "true")
  | no : KeepsFlag false (.text "false")

/-- A comment keeps an anchor in its fields. -/
structure Keeps (n : Notation) (c : Comment) (a : AudioAnchor) : Prop where
  start : ∃ j, Json.lookup "start" c.fields = some j ∧ KeepsTime n a.start j
  stop : ∃ j, Json.lookup "end" c.fields = some j ∧ KeepsTime n a.stop j
  earlier : ∃ j, Json.lookup "attachedToEarlierRevision" c.fields = some j ∧ KeepsFlag a.earlier j

/-! ### Groups and keys -/

section Groups

variable {cs : List Comment} {c c' : Comment}

theorem sameGroup_iff (hc : c ∈ cs) (hc' : c' ∈ cs) (ha : hasAnchor c = true) :
    SameGroup cs c c' ↔ key? c = key? c' := by
  have hparts := partitions_groupComments cs
  constructor
  · rintro ⟨g, hg, hm, hm'⟩
    rw [hparts.own g hg] at hm hm'
    have hkey := of_decide_eq_true (List.mem_filter.mp hm).2
    have hkey' := of_decide_eq_true (List.mem_filter.mp hm').2
    rw [hkey, hkey']
  · intro h
    obtain ⟨key, hkey⟩ := Option.isSome_iff_exists.mp (isSome_key? c ▸ ha)
    have hkey' : key? c' = some key := h ▸ hkey
    have hlisted : key ∈ (groupComments cs).map CommentGroup.key := by
      rw [hparts.ordered, List.mem_eraseDups]
      exact List.mem_filterMap.mpr ⟨c, hc, hkey⟩
    obtain ⟨g, hg, rfl⟩ := List.mem_map.mp hlisted
    refine ⟨g, hg, ?_⟩
    rw [hparts.own g hg]
    exact ⟨List.mem_filter.mpr ⟨hc, decide_eq_true hkey⟩,
      List.mem_filter.mpr ⟨hc', decide_eq_true hkey'⟩⟩

end Groups

/-! ### Texts of times and flags -/

/-- The text of a time in a notation. -/
def timeNumeral (n : Notation) : Option Float → List Char
  | some x => n.write x
  | none => "null".toList

def flagWord : Bool → List Char
  | true => "true".toList
  | false => "false".toList

section Texts

variable {n : Notation} {t : Option Float} {x : Float} {b : Bool} {j : Json}

theorem cross_notMem_timeNumeral (hn : n.Readable) (t : Option Float) : 'x' ∉ timeNumeral n t := by
  cases t with
  | none => exact show 'x' ∉ "null".toList by decide
  | some x =>
    intro hm
    exact absurd (Decimal.mem_write hn hm) (by decide)

theorem dash_notMem_flagWord (b : Bool) : '-' ∉ flagWord b := by
  cases b <;> decide

/-- A time is read back from its text. -/
theorem readReal?_timeNumeral (hn : n.Readable) (ht : ∀ x ∈ t, Decimal.isFinite x = true) :
    Decimal.readReal? (timeNumeral n t) = t := by
  cases t with
  | none => exact show Decimal.readReal? "null".toList = none by decide
  | some x => exact Decimal.readReal?_write hn (ht x rfl)

theorem flagWord_injective : Function.Injective flagWord := by
  intro b b' h
  cases b <;> cases b' <;> first | rfl | exact absurd h (by decide)

theorem trim_write (hn : n.Readable) (x : Float) : Text.trim (n.write x) = n.write x := by
  apply Text.trim_eq_self
  intro c hc
  rcases Decimal.mem_write hn hc with hdigit | hmark
  · exact Text.isBlank_of_isDigit hdigit
  · have hmarks : (['.', 'e', '+', '-'].all fun c => !Text.isBlank c) = true := by decide
    simpa using List.all_eq_true.mp hmarks c hmark

/-- A kept time is finite, and its text and what is read from it are those of the time. -/
theorem KeepsTime.told (hn : n.Readable) (h : KeepsTime n t j) :
    (∀ x ∈ t, Decimal.isFinite x = true) ∧ keyPart j = timeNumeral n t ∧ seconds? j = t := by
  cases h with
  | @number x j hx hj hprint =>
    refine ⟨by rintro y ⟨⟩; exact hx, ?_, ?_⟩
    · cases j with
      | text => cases hj
      | _ => exact hprint
    · cases j with
      | int | real =>
        cases hj
        exact Option.filter_some_pos hx
      | _ => cases hj
  | @numeral x hx =>
    refine ⟨by rintro y ⟨⟩; exact hx, String.toList_ofList, ?_⟩
    rw [seconds?, String.toList_ofList, trim_write hn, Decimal.readReal?_write hn hx]
    exact Option.filter_some_pos hx
  | nothing => exact ⟨by simp, show keyPart .null = "null".toList by decide, rfl⟩
  | nothingText => exact ⟨by simp, rfl, show seconds? (.text "null") = none by decide⟩

theorem KeepsFlag.told (h : KeepsFlag b j) : keyPart j = flagWord b ∧ flag j = b := by
  cases h with
  | value => cases b <;> exact ⟨by decide, rfl⟩
  | yes => exact ⟨by decide, by decide⟩
  | no => exact ⟨by decide, by decide⟩

end Texts

/-! ### Keys taken apart -/

/-- A text is taken apart at the first place of a sign that its front is without. -/
theorem append_cons_inj {a : Char} {l l' r r' : List Char} (hl : a ∉ l) (hl' : a ∉ l')
    (h : l ++ a :: r = l' ++ a :: r') : l = l' ∧ r = r' := by
  let other (c : Char) : Bool := c != a
  have hother {l : List Char} (hl : a ∉ l) : ∀ c ∈ l, other c = true := by
    intro c hc
    exact bne_iff_ne.mpr fun he => hl (he ▸ hc)
  have hstop (r : List Char) : Stops other (a :: r) := stops_cons.mpr (by simp [other])
  have hfront := congrArg (List.takeWhile other) h
  have hrest := congrArg (List.dropWhile other) h
  rw [takeWhile_run (hother hl) (hstop r), takeWhile_run (hother hl') (hstop r')] at hfront
  rw [dropWhile_run (hother hl) (hstop r), dropWhile_run (hother hl') (hstop r')] at hrest
  exact ⟨hfront, (List.cons.inj hrest).2⟩

/-- A key is taken apart at its first cross and at its last dash. -/
theorem key_parts_inj {start start' stop stop' earlier earlier' : List Char}
    (hstart : 'x' ∉ start) (hstart' : 'x' ∉ start') (hearlier : '-' ∉ earlier)
    (hearlier' : '-' ∉ earlier') (h : start ++ 'x' :: stop ++ '-' :: earlier =
      start' ++ 'x' :: stop' ++ '-' :: earlier') :
    start = start' ∧ stop = stop' ∧ earlier = earlier' := by
  rw [List.append_assoc, List.append_assoc, List.cons_append, List.cons_append] at h
  obtain ⟨hs, hrest⟩ := append_cons_inj hstart hstart' h
  have hback := congrArg List.reverse hrest
  rw [List.reverse_append, List.reverse_append, List.reverse_cons, List.reverse_cons,
    List.append_assoc, List.append_assoc, List.singleton_append, List.singleton_append] at hback
  obtain ⟨he, ht⟩ := append_cons_inj (mt List.mem_reverse.mp hearlier)
    (mt List.mem_reverse.mp hearlier') hback
  exact ⟨hs, List.reverse_injective ht, List.reverse_injective he⟩

section Anchors

variable {n : Notation} {c c' : Comment} {a b : AudioAnchor}

/-- The key of a comment tells the anchor that it keeps, and the anchor is read from it. -/
theorem Keeps.told (hn : n.Readable) (h : Keeps n c a) :
    (Anchor.audio a).HasFiniteTimes ∧
      key? c = some (String.ofList
        (timeNumeral n a.start ++ 'x' :: timeNumeral n a.stop ++ '-' :: flagWord a.earlier)) ∧
      Anchor.ofFields .audio c.fields = .ok (.audio a) := by
  obtain ⟨⟨start, hstart, hkept⟩, ⟨stop, hstop, hkept'⟩, ⟨earlier, hearlier, hflag⟩⟩ := h
  obtain ⟨hfinite, hpart, hread⟩ := hkept.told hn
  obtain ⟨hfinite', hpart', hread'⟩ := hkept'.told hn
  obtain ⟨hpart'', hread''⟩ := hflag.told
  refine ⟨⟨hfinite, hfinite'⟩, ?_, ?_⟩
  · rw [key?, hstart, hstop, hearlier, ← hpart, ← hpart', ← hpart'']
    rfl
  · rw [Anchor.ofFields, hstart, hstop, hearlier, Option.bind_some, Option.bind_some, hread, hread']
    dsimp only
    rw [hread'']

theorem Keeps.hasAnchor (hn : n.Readable) (h : Keeps n c a) : hasAnchor c = true := by
  rw [← isSome_key?, (h.told hn).2.1]
  rfl

/-- Comments have one key where they keep one anchor. -/
theorem Keeps.key?_eq_iff (hn : n.Readable) (h : Keeps n c a) (h' : Keeps n c' b) :
    key? c = key? c' ↔ a = b := by
  obtain ⟨⟨hstart, hstop⟩, hkey, -⟩ := h.told hn
  obtain ⟨⟨hstart', hstop'⟩, hkey', -⟩ := h'.told hn
  rw [hkey, hkey', Option.some.injEq, String.ofList_inj]
  constructor
  · intro h
    obtain ⟨hs, ht, hf⟩ := key_parts_inj (cross_notMem_timeNumeral hn _)
      (cross_notMem_timeNumeral hn _) (dash_notMem_flagWord _) (dash_notMem_flagWord _) h
    have hs := congrArg Decimal.readReal? hs
    have ht := congrArg Decimal.readReal? ht
    rw [readReal?_timeNumeral hn hstart, readReal?_timeNumeral hn hstart'] at hs
    rw [readReal?_timeNumeral hn hstop, readReal?_timeNumeral hn hstop'] at ht
    obtain ⟨start, stop, earlier⟩ := a
    obtain ⟨start', stop', earlier'⟩ := b
    rw [AudioAnchor.mk.injEq]
    exact ⟨hs, ht, flagWord_injective hf⟩
  · rintro rfl
    rfl

/-- Finite times other than the negative zero are equal as numbers where they are the same. -/
theorem time_beq_iff {t t' : Option Float} (ht : ∀ x ∈ t, Decimal.isFinite x = true)
    (ht' : ∀ x ∈ t', Decimal.isFinite x = true) (hz : t ≠ some (-0)) (hz' : t' ≠ some (-0)) :
    (t == t') = true ↔ t = t' := by
  have hnan {x : Float} (hx : Decimal.isFinite x = true) : x ≠ Float.nan := by
    rintro rfl
    exact absurd hx (by decide)
  cases t with
  | none => cases t' <;> simp
  | some x =>
    cases t' with
    | none => simp
    | some y =>
      have hx0 : x ≠ -0 := fun h => hz (congrArg some h)
      have hy0 : y ≠ -0 := fun h => hz' (congrArg some h)
      have hvalue : (some x == some y) = (x == y) := rfl
      rw [hvalue, Float.beq_iff_ne_nan_and_eq, Option.some.injEq]
      simp [hnan (ht x rfl), hnan (ht' y rfl), hx0, hy0]

theorem sameSpan_iff (ha : (Anchor.audio a).HasFiniteTimes) (hb : (Anchor.audio b).HasFiniteTimes)
    (hz : NoNegativeZero a) (hz' : NoNegativeZero b) : sameSpan a b = true ↔ a = b := by
  obtain ⟨start, stop, earlier⟩ := a
  obtain ⟨start', stop', earlier'⟩ := b
  simp only [sameSpan, Bool.and_eq_true, time_beq_iff ha.1 hb.1 hz.start hz'.start,
    time_beq_iff ha.2 hb.2 hz.stop hz'.stop, beq_iff_eq, AudioAnchor.mk.injEq, and_assoc]

theorem sameRegion_iff (ha : Anchor.ofFields .audio c.fields = .ok (.audio a))
    (hb : Anchor.ofFields .audio c'.fields = .ok (.audio b)) :
    SameRegion c c' ↔ sameSpan a b = true := by
  constructor
  · rintro ⟨a', b', ha', hb', h⟩
    cases ha.symm.trans ha'
    cases hb.symm.trans hb'
    exact h
  · intro h
    exact ⟨a, b, ha, hb, h⟩

/-- The fields that an anchor is put into keep it as JSON. -/
theorem keeps_toFields (hfinite : (Anchor.audio a).HasFiniteTimes)
    (hc : ∀ k ∈ Anchor.fieldNames .audio,
      Json.lookup k c.fields = Json.lookup k (Anchor.audio a).toFields) : Keeps .json c a := by
  have hnodup : ([("start", Json.ofOption .real a.start), ("end", Json.ofOption .real a.stop),
      ("attachedToEarlierRevision", .bool a.earlier)].map Prod.fst).Nodup :=
    Anchor.fieldNames_nodup .audio
  have hkept (k : String) : Json.lookup k (Anchor.audio a).toFields =
      Json.lookup k [("start", Json.ofOption .real a.start), ("end", Json.ofOption .real a.stop),
        ("attachedToEarlierRevision", .bool a.earlier)] :=
    Json.lookup_sortMembers hnodup k
  have htime {t : Option Float} (ht : ∀ x ∈ t, Decimal.isFinite x = true) :
      KeepsTime .json t (Json.ofOption .real t) := by
    cases t with
    | none => exact .nothing
    | some x => exact .number (ht x rfl) rfl String.toList_ofList
  refine ⟨⟨_, (hc _ (by decide)).trans (hkept _), htime hfinite.1⟩,
    ⟨_, (hc _ (by decide)).trans (hkept _), htime hfinite.2⟩,
    ⟨_, (hc _ (by decide)).trans (hkept _), .value a.earlier⟩⟩

end Anchors

/-- Comments are in one group where their keys are the same. Where both keep their anchors in one
notation, as texts or as values of their own, these are the comments on one region. -/
theorem sameGroup_iff_sameRegion {cs : List Comment} {c c' : Comment} (hc : c ∈ cs) (hc' : c' ∈ cs)
    (ha : hasAnchor c = true) :
    (SameGroup cs c c' ↔ key? c = key? c') ∧
    ∀ (n : Notation) (a b : AudioAnchor), n.Readable → Keeps n c a → Keeps n c' b →
      Anchor.ofFields .audio c.fields = .ok (.audio a) ∧
      Anchor.ofFields .audio c'.fields = .ok (.audio b) ∧
      (SameGroup cs c c' ↔ a = b) ∧
      (NoNegativeZero a → NoNegativeZero b → (SameGroup cs c c' ↔ SameRegion c c')) := by
  have hgroup := sameGroup_iff hc hc' ha
  refine ⟨hgroup, fun n a b hn hkept hkept' => ?_⟩
  obtain ⟨hfinite, -, hread⟩ := hkept.told hn
  obtain ⟨hfinite', -, hread'⟩ := hkept'.told hn
  have hanchor := hgroup.trans (hkept.key?_eq_iff hn hkept')
  refine ⟨hread, hread', hanchor, fun hz hz' => ?_⟩
  rw [hanchor, sameRegion_iff hread hread', sameSpan_iff hfinite hfinite' hz hz']

/-- The fields of a span as they are put down, and the same span in texts. -/
theorem sameGroup_iff_sameRegion_in_texts :
    let a : AudioAnchor := ⟨some 1.5, some 3, false⟩
    let c : Comment := ⟨1, "", false, false, (Anchor.audio a).toFields⟩
    let c' : Comment := ⟨2, "", false, false, [("attachedToEarlierRevision", .text "false"),
      ("end", .text "3.0"), ("start", .text "1.5")]⟩
    Notation.json.Readable ∧ Keeps .json c a ∧ Keeps .json c' a ∧ c ∈ [c, c'] ∧ c' ∈ [c, c'] ∧
      hasAnchor c = true ∧ NoNegativeZero a ∧ SameGroup [c, c'] c c' ∧
      (SameGroup [c, c'] c c' ↔ key? c = key? c') ∧
      (SameGroup [c, c'] c c' ↔ SameRegion c c') := by
  intro a c c'
  have hn : Notation.json.Readable := ⟨Or.inr rfl, Or.inr rfl⟩
  have hkept : Keeps .json c a :=
    keeps_toFields ⟨by rintro x ⟨⟩; decide, by rintro x ⟨⟩; decide⟩ fun _ _ => rfl
  have hone : Notation.json.write 1.5 = "1.5".toList := by decide +kernel
  have hthree : Notation.json.write 3 = "3.0".toList := by decide +kernel
  have hkept' : Keeps .json c' a := by
    refine ⟨⟨_, rfl, ?_⟩, ⟨_, rfl, ?_⟩, ⟨_, rfl, .no⟩⟩
    · have htime : KeepsTime .json (some 1.5) (.text (String.ofList (Notation.json.write 1.5))) :=
        .numeral (by decide)
      rwa [hone] at htime
    · have htime : KeepsTime .json (some 3) (.text (String.ofList (Notation.json.write 3))) :=
        .numeral (by decide)
      rwa [hthree] at htime
  have hc : c ∈ [c, c'] := List.mem_cons_self
  have hc' : c' ∈ [c, c'] := List.mem_cons_of_mem c List.mem_cons_self
  have ha := hkept.hasAnchor hn
  have hz : NoNegativeZero a := ⟨by decide, by decide⟩
  obtain ⟨hkeys, hregions⟩ := sameGroup_iff_sameRegion hc hc' ha
  obtain ⟨-, -, hanchors, hregions⟩ := hregions .json a a hn hkept hkept'
  exact ⟨hn, hkept, hkept', hc, hc', ha, hz, hanchors.mpr rfl, hkeys, hregions hz hz⟩

/-- A whole number of seconds with a fraction and without one, and a cross inside of a field. -/
theorem not_sameGroup_iff_sameRegion :
    let comment (id : UInt64) (start stop : Json) : Comment :=
      ⟨id, "", false, false, [("attachedToEarlierRevision", .bool false), ("end", stop),
        ("start", start)]⟩
    (∃ c c' : Comment, c = comment 1 (.int 3) (.real 4.5) ∧
      c' = comment 2 (.text "3.0") (.real 4.5) ∧ hasAnchor c = true ∧ hasAnchor c' = true ∧
      SameRegion c c' ∧ ¬SameGroup [c, c'] c c') ∧
    ∃ c c' : Comment, c = comment 1 (.text "1x2") (.int 3) ∧ c' = comment 2 (.int 1) (.text "2x3") ∧
      hasAnchor c = true ∧ hasAnchor c' = true ∧ SameGroup [c, c'] c c' ∧ ¬SameRegion c c' := by
  intro comment
  constructor
  · refine ⟨_, _, rfl, rfl, by decide, by decide, ⟨_, _, rfl, rfl, by decide +kernel⟩, ?_⟩
    rw [sameGroup_iff List.mem_cons_self (List.mem_cons_of_mem _ List.mem_cons_self) (by decide)]
    decide +kernel
  · refine ⟨_, _, rfl, rfl, by decide, by decide, ?_, ?_⟩
    · rw [sameGroup_iff List.mem_cons_self (List.mem_cons_of_mem _ List.mem_cons_self) (by decide)]
      decide +kernel
    · rintro ⟨a, b, ha, hb, h⟩
      cases ha
      cases hb
      revert h
      decide +kernel

end Marginalia.Audio
