import Mathlib.Data.List.Nodup
import Marginalia.Audio.Review
import Marginalia.Proofs.Attachment.Blocks

/-! Blocks and their regions. While regions are drawn on players that have loaded, every block with
a span has one region on the player of its revision once that has loaded, and waits until then. -/

namespace Marginalia.Audio

open Attachment (Anchor AudioAnchor Block BlockId Comment Event Medium RegionId Reviewable TimeSpan)
open WaveformPlayer (tell addRegion removeRegion)

/-- A waveform whose regions are seen. A region comes with a name when it is added or drawn, and no
region had the name before; it goes when it is removed, and commands do nothing to it. -/
class VisibleWaveform (W : Type) extends WaveformPlayer W where
  Shows : W → Region → Prop
  /-- The name was given to a region, which may be gone. -/
  Named : W → RegionId → Prop
  /-- What a reviewer draws over a span. -/
  draw : W → TimeSpan → RegionId × W
  named_of_shows : ∀ {w r}, Shows w r → Named w r.id
  shows_tell : ∀ w c r, Shows (tell w c) r ↔ Shows w r
  named_tell : ∀ w c id, Named (tell w c) id ↔ Named w id
  shows_remove : ∀ w id r, Shows (removeRegion w id) r ↔ Shows w r ∧ r.id ≠ id
  named_remove : ∀ w id id', Named (removeRegion w id) id' ↔ Named w id'
  unnamed_add : ∀ w s, ¬ Named w (addRegion w s).1
  shows_add : ∀ w s r, Shows (addRegion w s).2 r ↔ Shows w r ∨ r = ⟨(addRegion w s).1, s⟩
  named_add : ∀ w s id, Named (addRegion w s).2 id ↔ Named w id ∨ id = (addRegion w s).1
  unnamed_draw : ∀ w s, ¬ Named w (draw w s).1
  shows_draw : ∀ w s r, Shows (draw w s).2 r ↔ Shows w r ∨ r = ⟨(draw w s).1, s⟩
  named_draw : ∀ w s id, Named (draw w s).2 id ↔ Named w id ∨ id = (draw w s).1

open VisibleWaveform (Shows Named draw)

theorem Waveform.mem_regions_addRegion (w : Waveform) (s : TimeSpan) (r : Region) :
    r ∈ (w.addRegion s).2.regions ↔ r ∈ w.regions ∨ r = ⟨(w.addRegion s).1, s⟩ := by
  simp [Waveform.addRegion]

theorem Waveform.lt_next_addRegion (w : Waveform) (s : TimeSpan) (id : RegionId) :
    id.number < (w.addRegion s).2.next ↔ id.number < w.next ∨ id = (w.addRegion s).1 := by
  have hid : id = (w.addRegion s).1 ↔ id.number = w.next := by
    cases id
    simp [Waveform.addRegion]
  rw [hid]
  exact Nat.lt_succ_iff_lt_or_eq

/-- On a waveform that keeps notes, what is drawn is noted like what is added. -/
instance : VisibleWaveform Waveform where
  Shows w r := r ∈ w.regions
  Named w id := id.number < w.next
  draw := Waveform.addRegion
  named_of_shows {w r} h := w.numbered r h
  shows_tell _ _ _ := Iff.rfl
  named_tell _ _ _ := Iff.rfl
  shows_remove w id r := by simp [removeRegion, Waveform.removeRegion]
  named_remove _ _ _ := Iff.rfl
  unnamed_add _ _ := Nat.lt_irrefl _
  shows_add := Waveform.mem_regions_addRegion
  named_add := Waveform.lt_next_addRegion
  unnamed_draw _ _ := Nat.lt_irrefl _
  shows_draw := Waveform.mem_regions_addRegion
  named_draw := Waveform.lt_next_addRegion

namespace Player

variable {W : Type} [VisibleWaveform W] {p : Player W} {owns owns' : BlockId → TimeSpan → Prop}

/-- The regions of comments on a player are those of the blocks that own a span, one for each, and
they lie over these spans. No region waits for a block. -/
structure Marks (p : Player W) (owns : BlockId → TimeSpan → Prop) : Prop where
  idle : p.current = none
  regions : (p.comments.map Prod.fst).Nodup
  blocks : (p.comments.map Prod.snd).Nodup
  owned : ∀ id, id ∈ p.comments.map Prod.snd ↔ ∃ span, owns id span
  shown : ∀ c ∈ p.comments, ∃ span, owns c.2 span ∧ Shows p.waveform ⟨c.1, span⟩

theorem Marks.congr (h : p.Marks owns) (ho : ∀ id span, owns' id span ↔ owns id span) :
    p.Marks owns' where
  idle := h.idle
  regions := h.regions
  blocks := h.blocks
  owned id := by simp only [h.owned, ho]
  shown c hc := by simpa only [ho] using h.shown c hc

theorem Marks.named (h : p.Marks owns) {id : RegionId} (hid : id ∈ p.comments.map Prod.fst) :
    Named p.waveform id := by
  obtain ⟨c, hc, rfl⟩ := List.mem_map.mp hid
  obtain ⟨span, -, hs⟩ := h.shown c hc
  exact VisibleWaveform.named_of_shows hs

/-- A block gets a region of a new name over its span. -/
theorem Marks.attach (h : p.Marks owns) {w : W} {region : RegionId} {id : BlockId} {span : TimeSpan}
    (hid : ∀ s, ¬ owns id s) (hnew : ¬ Named p.waveform region)
    (hw : ∀ r, Shows p.waveform r → Shows w r) (hs : Shows w ⟨region, span⟩)
    (ho : ∀ i s, owns' i s ↔ owns i s ∨ i = id ∧ s = span) :
    Marks { p with
      waveform := w
      current := none
      comments := p.comments ++ [(region, id)] } owns' where
  idle := rfl
  regions := by
    have hr : region ∉ p.comments.map Prod.fst := fun hm => hnew (h.named hm)
    rw [List.map_append]
    refine List.nodup_append.mpr ⟨h.regions, by simp, ?_⟩
    intro r hm r' hm' he
    obtain rfl : r' = region := by simpa using hm'
    exact hr (he ▸ hm)
  blocks := by
    have hb : id ∉ p.comments.map Prod.snd := by
      rw [h.owned]
      rintro ⟨s, hs⟩
      exact hid s hs
    rw [List.map_append]
    refine List.nodup_append.mpr ⟨h.blocks, by simp, ?_⟩
    intro i hm i' hm' he
    obtain rfl : i' = id := by simpa using hm'
    exact hb (he ▸ hm)
  owned i := by
    rw [List.map_append, List.mem_append, h.owned]
    simp only [ho, exists_or, List.map_cons, List.map_nil, List.mem_singleton]
    constructor
    · rintro (hi | rfl)
      · exact Or.inl hi
      · exact Or.inr ⟨span, rfl, rfl⟩
    · rintro (hi | ⟨s, rfl, -⟩)
      · exact Or.inl hi
      · exact Or.inr rfl
  shown c hc := by
    rcases List.mem_append.mp hc with hc | hc
    · obtain ⟨s, hos, hss⟩ := h.shown c hc
      exact ⟨s, (ho _ _).mpr (Or.inl hos), hw _ hss⟩
    · obtain rfl := List.mem_singleton.mp hc
      exact ⟨span, (ho _ _).mpr (Or.inr ⟨rfl, rfl⟩), hs⟩

theorem Marks.addComment (h : p.Marks owns) {id : BlockId} (hid : ∀ s, ¬ owns id s)
    {a : AudioAnchor} (ho : ∀ i s, owns' i s ↔ owns i s ∨ i = id ∧ spanOf? a = some s) :
    (p.addComment id a).2.Marks owns' := by
  simp only [Player.addComment, h.idle]
  cases hs : spanOf? a with
  | none => exact h.congr fun i s => by simp [ho, hs]
  | some span =>
    dsimp only
    have hown (i : BlockId) (s : TimeSpan) : owns' i s ↔ owns i s ∨ i = id ∧ s = span := by
      rw [ho, hs, Option.some.injEq, eq_comm (a := s)]
    refine h.attach hid (VisibleWaveform.unnamed_add _ span) (fun r hr => ?_) ?_ hown
    · exact (VisibleWaveform.shows_add _ _ _).mpr (Or.inl hr)
    · exact (VisibleWaveform.shows_add _ _ _).mpr (Or.inr rfl)

theorem Marks.fileLoaded (h : p.Marks owns) : p.fileLoaded.2.Marks owns where
  idle := h.idle
  regions := h.regions
  blocks := h.blocks
  owned := h.owned
  shown c hc := by
    obtain ⟨span, ho, hs⟩ := h.shown c hc
    exact ⟨span, ho, by simpa [Player.fileLoaded, VisibleWaveform.shows_tell] using hs⟩

/-- A block loses its region, if it has one. -/
theorem Marks.removeComment (h : p.Marks owns) {id : BlockId}
    (ho : ∀ i s, owns' i s ↔ owns i s ∧ i ≠ id) : (p.removeComment id).Marks owns' := by
  simp only [Player.removeComment, h.idle]
  split
  · next hnone =>
    refine h.congr fun i s => ?_
    rw [ho, and_iff_left_iff_imp]
    rintro hi rfl
    obtain ⟨c, hc, hci⟩ := List.mem_map.mp ((h.owned i).mpr ⟨s, hi⟩)
    simpa [hci] using List.find?_eq_none.mp hnone c hc
  · next region id' hsome =>
    have hmem := List.mem_of_find?_eq_some hsome
    obtain rfl : id' = id := by simpa using List.find?_some hsome
    rw [Attachment.eraseP_eq_filter h.blocks]
    have hsub := List.filter_sublist (p := fun c : RegionId × BlockId => c.2 ≠ id')
      (l := p.comments)
    refine ⟨rfl, (hsub.map _).nodup h.regions, (hsub.map _).nodup h.blocks, fun i => ?_, ?_⟩
    · have hi := h.owned i
      simp only [ho, exists_and_right, ← hi, List.mem_map, List.mem_filter]
      constructor
      · rintro ⟨c, ⟨hc, hne⟩, rfl⟩
        exact ⟨⟨c, hc, rfl⟩, by simpa using hne⟩
      · rintro ⟨⟨c, hc, rfl⟩, hne⟩
        exact ⟨c, ⟨hc, by simpa using hne⟩, rfl⟩
    · intro c hc
      obtain ⟨hc, hne⟩ := List.mem_filter.mp hc
      obtain ⟨s, hos, hss⟩ := h.shown c hc
      have hid : c.2 ≠ id' := by simpa using hne
      refine ⟨s, (ho _ _).mpr ⟨hos, hid⟩, (VisibleWaveform.shows_remove _ _ _).mpr ⟨hss, ?_⟩⟩
      intro he
      have heq : c = (region, id') := List.inj_on_of_nodup_map h.regions hc hmem he
      exact hid (by rw [heq])

end Player

namespace Review

variable {W : Type}

section Players

variable {v : Review W} {p : Player W} {side side' : Revision} {id : BlockId}

theorem player_setPlayer :
    (v.setPlayer p side).player side' = if side' = side then some p else v.player side' := by
  cases side <;> cases side' <;> rfl

@[simp] theorem reviewable_setPlayer : (v.setPlayer p side).reviewable = v.reviewable := by
  cases side <;> rfl

@[simp] theorem pending_setPlayer : (v.setPlayer p side).pending = v.pending := by
  cases side <;> rfl

@[simp] theorem setPlayer_setPlayer (p' : Player W) :
    (v.setPlayer p side).setPlayer p' side = v.setPlayer p' side := by
  cases side <;> rfl

/-- There is a player of the revision, and it has loaded. -/
def HasLoaded (v : Review W) (side : Revision) : Prop :=
  ∃ p, v.player side = some p ∧ p.loaded = true

theorem hasLoaded_iff (h : v.player side = some p) : v.HasLoaded side ↔ p.loaded = true := by
  simp [HasLoaded, h]

theorem anchor?_congr {u : Review W} (h : u.reviewable = v.reviewable) (id : BlockId) :
    u.anchor? id = v.anchor? id := by
  simp only [anchor?, h]

theorem anchor?_setPlayer : (v.setPlayer p side).anchor? id = v.anchor? id :=
  anchor?_congr reviewable_setPlayer id

/-- Another player in place of one that has loaded as far says the same about all revisions. -/
theorem hasLoaded_setPlayer {p' : Player W} (hp : v.player side = some p)
    (hl : p'.loaded = p.loaded) (side' : Revision) :
    (v.setPlayer p' side).HasLoaded side' ↔ v.HasLoaded side' := by
  unfold HasLoaded
  rw [player_setPlayer]
  split
  · next he =>
    subst he
    simp [hp, hl]
  · rfl

theorem anchor?_push (h : v.reviewable.Sound) (a : AudioAnchor) (cs : List Comment) (id : BlockId) :
    { v with reviewable := (v.reviewable.push (.audio a) cs).2 }.anchor? id =
      if id = ⟨v.reviewable.next⟩ then some a else v.anchor? id := by
  simp only [anchor?, Reviewable.find?_push h]
  split <;> rfl

theorem anchor?_remove {b : Block} {r : Reviewable} (h : v.reviewable.Sound)
    (hr : v.reviewable.remove id = some (b, r)) (i : BlockId) :
    { v with reviewable := r }.anchor? i = if i = id then none else v.anchor? i := by
  simp only [anchor?, Reviewable.find?_remove h hr]
  split <;> rfl

theorem find?_of_anchor? {a : AudioAnchor} (h : v.anchor? id = some a) :
    ∃ b, v.reviewable.find? id = some b ∧ b.anchor = .audio a := by
  obtain ⟨b, hb, hba⟩ := Option.bind_eq_some_iff.mp h
  refine ⟨b, hb, ?_⟩
  split at hba
  · next hanchor => rw [hanchor, Option.some.inj hba]
  · cases hba

theorem mem_of_anchor? {a : AudioAnchor} (h : v.anchor? id = some a) :
    ∃ b ∈ v.reviewable.blocks, b.id = id := by
  obtain ⟨b, hb, -⟩ := find?_of_anchor? h
  exact ⟨b, List.mem_of_find?_eq_some hb, by simpa using List.find?_some hb⟩

/-- The blocks that wait for the player of a revision. -/
def waitingOn (v : Review W) (side : Revision) : List BlockId :=
  v.pending.filter fun id => (v.anchor? id).any fun a => revisionOf a = side

/-- Nothing waits for the player of a revision any more. -/
def withoutWaiting (v : Review W) (side : Revision) : Review W :=
  { v with pending := v.pending.filter fun id => !(v.anchor? id).any fun a => revisionOf a = side }

theorem mem_waitingOn : id ∈ v.waitingOn side ↔
    id ∈ v.pending ∧ ∃ a, v.anchor? id = some a ∧ revisionOf a = side := by
  simp [waitingOn, Option.any_eq_true]

theorem mem_pending_withoutWaiting : id ∈ (v.withoutWaiting side).pending ↔
    id ∈ v.pending ∧ ¬ ∃ a, v.anchor? id = some a ∧ revisionOf a = side := by
  rw [withoutWaiting, List.mem_filter, Bool.not_eq_true', ← Bool.not_eq_true, Option.any_eq_true]
  simp only [decide_eq_true_eq]

theorem waitingOn_setPlayer (s : Revision) : (v.setPlayer p side).waitingOn s = v.waitingOn s := by
  simp only [waitingOn, pending_setPlayer, anchor?_setPlayer]

@[simp] theorem reviewable_withoutWaiting :
    (v.withoutWaiting side).reviewable = v.reviewable := rfl

theorem player_withoutWaiting (s : Revision) : (v.withoutWaiting side).player s = v.player s := by
  cases s <;> rfl

theorem reviewable_showBlock [WaveformPlayer W] (v : Review W) (id : BlockId) :
    (v.showBlock id).reviewable = v.reviewable := by
  unfold Review.showBlock
  split
  · rfl
  · dsimp only
    split
    · split <;> rfl
    · split
      · rw [reviewable_setPlayer]
      · split <;> rfl

end Players

variable [VisibleWaveform W] {v : Review W} {todo : List BlockId} {id : BlockId} {a : AudioAnchor}
  {side : Revision} {span : TimeSpan} {p : Player W}

/-- A block that is not yet to be shown has a span on a revision whose player has loaded. -/
def Owns (v : Review W) (todo : List BlockId) (side : Revision) (id : BlockId)
    (span : TimeSpan) : Prop :=
  v.HasLoaded side ∧ id ∉ todo ∧
    ∃ a, v.anchor? id = some a ∧ revisionOf a = side ∧ spanOf? a = some span

/-- Blocks wait for their players or have their regions, all but some that are still to be shown. -/
structure Kept (v : Review W) (todo : List BlockId) : Prop where
  sound : v.reviewable.Sound
  audio : v.reviewable.medium = .audio
  waitsOnce : v.pending.Nodup
  waits : ∀ id, id ∈ v.pending ↔
    id ∉ todo ∧ ∃ a, v.anchor? id = some a ∧ ¬ v.HasLoaded (revisionOf a)
  marks : ∀ side p, v.player side = some p → p.Marks (v.Owns todo side)

theorem showBlock_waits (ha : v.anchor? id = some a) (hl : ¬ v.HasLoaded (revisionOf a)) :
    v.showBlock id =
      if v.pending.contains id then v else { v with pending := v.pending ++ [id] } := by
  simp only [showBlock, ha]
  split
  · rfl
  · next p hp =>
    rw [if_neg]
    rwa [← hasLoaded_iff hp]

theorem showBlock_loaded (ha : v.anchor? id = some a) (hp : v.player (revisionOf a) = some p)
    (hl : p.loaded = true) :
    v.showBlock id = v.setPlayer (p.addComment id a).2 (revisionOf a) := by
  simp only [showBlock, ha, hp, hl, if_true]

/-- What showing a block can do. -/
theorem showBlock_cases (v : Review W) (id : BlockId) : v.showBlock id = v ∨
    (∃ a p, v.anchor? id = some a ∧ v.player (revisionOf a) = some p ∧ p.loaded = true ∧
      v.showBlock id = v.setPlayer (p.addComment id a).2 (revisionOf a)) ∨
    v.showBlock id = { v with pending := v.pending ++ [id] } := by
  cases ha : v.anchor? id with
  | none => exact Or.inl (by simp only [showBlock, ha])
  | some a =>
    by_cases hl : v.HasLoaded (revisionOf a)
    · obtain ⟨p, hp, hpl⟩ := hl
      exact Or.inr (Or.inl ⟨a, p, rfl, hp, hpl, showBlock_loaded ha hp hpl⟩)
    · rw [showBlock_waits ha hl]
      split
      · exact Or.inl rfl
      · exact Or.inr (Or.inr rfl)

theorem loaded_addComment (p : Player W) (id : BlockId) (a : AudioAnchor) :
    (p.addComment id a).2.loaded = p.loaded := by
  unfold Player.addComment
  split
  · rfl
  · split <;> rfl

/-- A block that is still to be shown gets its region on a player that has loaded. -/
theorem Kept.place {q : Player W} (h : v.Kept (id :: todo)) (ha : v.anchor? id = some a)
    (hn : id ∉ todo) (hp : v.player (revisionOf a) = some p) (hl : p.loaded = true)
    (hq : q.loaded = p.loaded)
    (hm : ∀ owns : BlockId → TimeSpan → Prop,
      (∀ i s, owns i s ↔ v.Owns (id :: todo) (revisionOf a) i s ∨ i = id ∧ spanOf? a = some s) →
      q.Marks owns) :
    (v.setPlayer q (revisionOf a)).Kept todo := by
  have hload := hasLoaded_setPlayer hp hq
  have howns (s : Revision) (i : BlockId) (t : TimeSpan) :
      (v.setPlayer q (revisionOf a)).Owns todo s i t ↔
        v.Owns (id :: todo) s i t ∨ i = id ∧ s = revisionOf a ∧ spanOf? a = some t := by
    simp only [Owns, hload, anchor?_setPlayer, List.mem_cons, not_or]
    constructor
    · rintro ⟨hs, hi, a', ha', hr, hsp⟩
      by_cases he : i = id
      · subst he
        obtain rfl : a = a' := Option.some.inj (ha.symm.trans ha')
        exact Or.inr ⟨rfl, hr.symm, hsp⟩
      · exact Or.inl ⟨hs, ⟨he, hi⟩, a', ha', hr, hsp⟩
    · rintro (⟨hs, ⟨-, hi⟩, hrest⟩ | ⟨rfl, rfl, hsp⟩)
      · exact ⟨hs, hi, hrest⟩
      · exact ⟨⟨p, hp, hl⟩, hn, a, ha, rfl, hsp⟩
  refine ⟨by simpa using h.sound, by simpa using h.audio, by simpa using h.waitsOnce,
    fun i => ?_, fun s r hr => ?_⟩
  · simp only [pending_setPlayer, h.waits, hload, anchor?_setPlayer, List.mem_cons, not_or]
    constructor
    · rintro ⟨⟨-, hi⟩, hrest⟩
      exact ⟨hi, hrest⟩
    · rintro ⟨hi, a', ha', hnl⟩
      refine ⟨⟨?_, hi⟩, a', ha', hnl⟩
      rintro rfl
      obtain rfl : a = a' := Option.some.inj (ha.symm.trans ha')
      exact hnl ⟨p, hp, hl⟩
  · rw [player_setPlayer] at hr
    split at hr
    · next hs =>
      subst hs
      obtain rfl := Option.some.inj hr
      exact hm _ fun i t => by simp [howns]
    · next hs => exact (h.marks s r hr).congr fun i t => by simp [howns, hs]

/-- A block that is still to be shown waits for a player that has not loaded. -/
theorem Kept.wait (h : v.Kept (id :: todo)) (ha : v.anchor? id = some a) (hn : id ∉ todo)
    (hl : ¬ v.HasLoaded (revisionOf a)) : { v with pending := v.pending ++ [id] }.Kept todo where
  sound := h.sound
  audio := h.audio
  waitsOnce := by
    have hwait : id ∉ v.pending := fun hm => ((h.waits id).mp hm).1 List.mem_cons_self
    refine List.nodup_append.mpr ⟨h.waitsOnce, by simp, ?_⟩
    intro i hi i' hi' he
    obtain rfl : i' = id := by simpa using hi'
    exact hwait (he ▸ hi)
  waits i := by
    change i ∈ v.pending ++ [id] ↔ _ ∧ ∃ a', v.anchor? i = some a' ∧ ¬ v.HasLoaded (revisionOf a')
    rw [List.mem_append, h.waits, List.mem_cons, not_or, List.mem_singleton]
    constructor
    · rintro (⟨⟨-, hi⟩, hrest⟩ | rfl)
      · exact ⟨hi, hrest⟩
      · exact ⟨hn, a, ha, hl⟩
    · rintro ⟨hi, hrest⟩
      by_cases he : i = id
      · exact Or.inr he
      · exact Or.inl ⟨⟨he, hi⟩, hrest⟩
  marks s q hq := by
    refine (h.marks s q hq).congr fun i t => ?_
    change _ ∧ _ ∧ _ ↔ _ ∧ _ ∧ _
    rw [List.mem_cons, not_or]
    constructor
    · rintro ⟨hs, hi, a', ha', hr, hsp⟩
      refine ⟨hs, ⟨?_, hi⟩, a', ha', hr, hsp⟩
      rintro rfl
      obtain rfl : a = a' := Option.some.inj (ha.symm.trans ha')
      exact hl (hr ▸ hs)
    · rintro ⟨hs, ⟨-, hi⟩, hrest⟩
      exact ⟨hs, hi, hrest⟩

theorem Kept.showBlock (h : v.Kept (id :: todo)) (ha : v.anchor? id = some a) (hn : id ∉ todo) :
    (v.showBlock id).Kept todo := by
  by_cases hl : v.HasLoaded (revisionOf a)
  · obtain ⟨p, hp, hpl⟩ := hl
    rw [showBlock_loaded ha hp hpl]
    exact h.place ha hn hp hpl (loaded_addComment p id a) fun owns ho =>
      (h.marks _ p hp).addComment (fun t ht => ht.2.1 List.mem_cons_self) ho
  · have hwait : id ∉ v.pending := fun hm => ((h.waits id).mp hm).1 List.mem_cons_self
    rw [showBlock_waits ha hl, if_neg (by simpa using hwait)]
    exact h.wait ha hn hl

theorem Kept.showAll (h : v.Kept todo) (hn : todo.Nodup)
    (ha : ∀ id ∈ todo, ∃ a, v.anchor? id = some a) :
    (todo.foldl Review.showBlock v).Kept [] := by
  induction todo generalizing v with
  | nil => exact h
  | cons id todo ih =>
    obtain ⟨hid, hn⟩ := List.nodup_cons.mp hn
    obtain ⟨a, haid⟩ := ha id List.mem_cons_self
    refine ih (h.showBlock haid hid) hn fun i hi => ?_
    rw [anchor?_congr (reviewable_showBlock v id)]
    exact ha i (List.mem_cons_of_mem id hi)

/-- A new block is still to be shown. -/
theorem Kept.push (h : v.Kept []) (a : AudioAnchor) (cs : List Comment) :
    { v with reviewable := (v.reviewable.push (.audio a) cs).2 }.Kept [⟨v.reviewable.next⟩] where
  sound := h.sound.push (a := .audio a) h.audio.symm cs
  audio := h.audio
  waitsOnce := h.waitsOnce
  waits id := by
    have hold := h.waits id
    have hnew : v.anchor? ⟨v.reviewable.next⟩ = none := by
      simp [anchor?, Reviewable.find?_next h.sound]
    rw [anchor?_push h.sound]
    simp only [List.mem_singleton, List.not_mem_nil, not_false_eq_true, true_and] at hold ⊢
    change id ∈ v.pending ↔ _ ∧ ∃ a', _ ∧ ¬ v.HasLoaded _
    rw [hold]
    by_cases hid : id = ⟨v.reviewable.next⟩
    · simp [hid, hnew]
    · simp [hid]
  marks side p hp := by
    refine (h.marks side p hp).congr fun id span => ?_
    unfold Owns
    have hnew : v.anchor? ⟨v.reviewable.next⟩ = none := by
      simp [anchor?, Reviewable.find?_next h.sound]
    rw [anchor?_push h.sound]
    change v.HasLoaded side ∧ _ ↔ _
    by_cases hid : id = ⟨v.reviewable.next⟩
    · simp [hid, hnew]
    · simp [hid]

/-- A new block waits or gets its region. -/
theorem Kept.showNew (h : v.Kept []) (a : AudioAnchor) (cs : List Comment) :
    ({ v with reviewable := (v.reviewable.push (.audio a) cs).2 }.showBlock
      ⟨v.reviewable.next⟩).Kept [] := by
  refine (h.push a cs).showBlock (a := a) ?_ (by simp)
  rw [anchor?_push h.sound, if_pos rfl]

/-- What holds on after a new block is shown holds on after comments are loaded. -/
theorem loadGroups_induction {P : Review W → Prop} (hm : ∀ v, P v → v.reviewable.medium = .audio)
    (hs : ∀ v a cs, P v → P ({ v with
      reviewable := (v.reviewable.push (.audio a) cs).2 }.showBlock ⟨v.reviewable.next⟩))
    (h : P v) (gs : List CommentGroup) : P (v.loadGroups gs).2 := by
  induction gs generalizing v with
  | nil => exact h
  | cons g gs ih =>
    obtain ⟨key, cs⟩ := g
    cases cs with
    | nil => exact ih h
    | cons c cs =>
      rw [Review.loadGroups]
      simp only [Reviewable.add, hm v h, Anchor.ofFields, Except.map]
      exact ih (hs v _ _ h)

theorem Kept.loadGroups (h : v.Kept []) (gs : List CommentGroup) : (v.loadGroups gs).2.Kept [] :=
  loadGroups_induction (P := fun v => v.Kept []) (fun _ h => h.audio)
    (fun _ a cs h => h.showNew a cs) h gs

theorem fileLoaded_eq (hp : v.player side = some p) : (v.fileLoaded side).2 =
    (v.waitingOn side).foldl Review.showBlock
      ((v.withoutWaiting side).setPlayer p.fileLoaded.2 side) := by
  simp only [Review.fileLoaded, hp, List.partition_eq_filter_filter]
  cases side <;> rfl

/-- A block waits for a player that has not loaded its file, and for no other. -/
theorem Kept.mem_waitingOn_iff (h : v.Kept []) : id ∈ v.waitingOn side ↔
    ∃ a, v.anchor? id = some a ∧ revisionOf a = side ∧ ¬ v.HasLoaded side := by
  have hwaits := h.waits id
  simp only [List.not_mem_nil, not_false_eq_true, true_and] at hwaits
  rw [mem_waitingOn, hwaits]
  constructor
  · rintro ⟨⟨a, ha, hl⟩, a', ha', hs⟩
    obtain rfl : a = a' := Option.some.inj (ha.symm.trans ha')
    exact ⟨a, ha, hs, hs ▸ hl⟩
  · rintro ⟨a, ha, hs, hl⟩
    exact ⟨⟨a, ha, hs ▸ hl⟩, a, ha, hs⟩

theorem hasLoaded_fileLoaded (s : Revision) :
    ((v.withoutWaiting side).setPlayer p.fileLoaded.2 side).HasLoaded s ↔
      s = side ∨ v.HasLoaded s := by
  unfold HasLoaded
  rw [player_setPlayer, player_withoutWaiting]
  split
  · next hs => simp [hs, Player.fileLoaded]
  · next hs => simp [hs]

theorem anchor?_fileLoaded (id : BlockId) :
    ((v.withoutWaiting side).setPlayer p.fileLoaded.2 side).anchor? id = v.anchor? id :=
  anchor?_congr reviewable_setPlayer id

/-- The blocks that have their regions are the same ones as before the player loaded, until those
that waited for it are shown. -/
theorem Kept.owns_fileLoaded (h : v.Kept []) (s : Revision) (id : BlockId) (span : TimeSpan) :
    ((v.withoutWaiting side).setPlayer p.fileLoaded.2 side).Owns (v.waitingOn side) s id span ↔
      v.Owns [] s id span := by
  simp only [Owns, hasLoaded_fileLoaded, anchor?_fileLoaded, h.mem_waitingOn_iff, List.not_mem_nil,
    not_false_eq_true, true_and]
  constructor
  · rintro ⟨hs, hn, a, ha, hra, hsp⟩
    refine ⟨?_, a, ha, hra, hsp⟩
    rcases hs with rfl | hs
    · by_contra hl
      exact hn ⟨a, ha, hra, hl⟩
    · exact hs
  · rintro ⟨hs, a, ha, hra, hsp⟩
    refine ⟨Or.inr hs, ?_, a, ha, hra, hsp⟩
    rintro ⟨a', ha', hra', hl⟩
    obtain rfl : a = a' := Option.some.inj (ha.symm.trans ha')
    exact hl (hra' ▸ hra ▸ hs)

/-- The blocks that go on waiting are those of the other player. -/
theorem Kept.waits_fileLoaded (h : v.Kept []) (id : BlockId) :
    id ∈ (v.withoutWaiting side).pending ↔ id ∉ v.waitingOn side ∧
      ∃ a, v.anchor? id = some a ∧
        ¬ ((v.withoutWaiting side).setPlayer p.fileLoaded.2 side).HasLoaded (revisionOf a) := by
  have hwaits := h.waits id
  simp only [List.not_mem_nil, not_false_eq_true, true_and] at hwaits
  rw [mem_pending_withoutWaiting, h.mem_waitingOn_iff, hwaits]
  simp only [hasLoaded_fileLoaded, not_or]
  constructor
  · rintro ⟨⟨a, ha, hl⟩, hn⟩
    exact ⟨fun ⟨a', ha', hs, _⟩ => hn ⟨a', ha', hs⟩, a, ha, fun hs => hn ⟨a, ha, hs⟩, hl⟩
  · rintro ⟨-, a, ha, hs, hl⟩
    refine ⟨⟨a, ha, hl⟩, ?_⟩
    rintro ⟨a', ha', hs'⟩
    obtain rfl : a = a' := Option.some.inj (ha.symm.trans ha')
    exact hs hs'

/-- A player has loaded, and the blocks that waited for it are still to be shown. -/
theorem Kept.flush (h : v.Kept []) (hp : v.player side = some p) :
    ((v.withoutWaiting side).setPlayer p.fileLoaded.2 side).Kept (v.waitingOn side) where
  sound := by
    rw [reviewable_setPlayer]
    exact h.sound
  audio := by
    rw [reviewable_setPlayer]
    exact h.audio
  waitsOnce := by
    rw [pending_setPlayer]
    exact h.waitsOnce.filter _
  waits id := by
    rw [pending_setPlayer, anchor?_fileLoaded]
    exact h.waits_fileLoaded id
  marks s q hq := by
    rw [player_setPlayer, player_withoutWaiting] at hq
    split at hq
    · next hs =>
      subst hs
      obtain rfl := Option.some.inj hq
      exact ((h.marks s p hp).fileLoaded).congr (h.owns_fileLoaded s)
    · exact (h.marks s q hq).congr (h.owns_fileLoaded s)

theorem Kept.fileLoaded (h : v.Kept []) (side : Revision) : (v.fileLoaded side).2.Kept [] := by
  cases hp : v.player side with
  | none => simpa only [Review.fileLoaded, hp] using h
  | some p =>
    rw [fileLoaded_eq hp]
    refine (h.flush hp).showAll (h.waitsOnce.filter _) fun id hid => ?_
    obtain ⟨-, a, ha, -⟩ := mem_waitingOn.mp hid
    exact ⟨a, (anchor?_fileLoaded id).trans ha⟩

/-- The anchor of a block that is made for a region. -/
def drawnAnchor (side : Revision) (span : TimeSpan) : AudioAnchor :=
  ⟨some span.start, some span.stop, side = .earlier⟩

theorem revisionOf_drawnAnchor (side : Revision) (span : TimeSpan) :
    revisionOf (drawnAnchor side span) = side := by
  cases side <;> rfl

/-- What a reviewer draws over a span of a recording that is shown. -/
def drawOn (v : Review W) (side : Revision) (span : TimeSpan) : List Event × Review W :=
  match v.player side with
  | none => ([], v)
  | some p =>
    let (region, w) := draw p.waveform span
    (v.setPlayer { p with waveform := w } side).regionDrawn side region span

/-- Where no region waits for a block, a new block is made for the one that is drawn. -/
theorem drawOn_idle (hm : v.reviewable.medium = .audio) (hp : v.player side = some p)
    (hi : p.current = none) (span : TimeSpan) :
    let (region, w) := draw p.waveform span
    v.drawOn side span = ([.regionCreated region span, .commentCreated ⟨v.reviewable.next⟩],
      ({ v with
        reviewable := (v.reviewable.push (.audio (drawnAnchor side span)) []).2 }.setPlayer
          { p with waveform := w, current := some region } side).showBlock
            ⟨v.reviewable.next⟩) := by
  simp only [drawOn, hp, regionDrawn, player_setPlayer, if_true, Player.regionDrawn, hi,
    List.isEmpty_cons, Bool.false_eq_true, if_false, reviewable_setPlayer, Reviewable.create,
    Anchor.medium, hm, Reviewable.push]
  cases side <;> rfl

/-- Where a region waits for a block, the one that is drawn is taken away. -/
theorem drawOn_busy {r : RegionId} (hp : v.player side = some p) (hi : p.current = some r)
    (span : TimeSpan) :
    let (region, w) := draw p.waveform span
    v.drawOn side span = ([], v.setPlayer { p with waveform := removeRegion w region } side) := by
  simp [drawOn, hp, regionDrawn, player_setPlayer, Player.regionDrawn, hi]

/-- A block is made for a region that is drawn on a player that has loaded, and gets it. -/
theorem Kept.drawOn (h : v.Kept []) (hl : v.HasLoaded side) (span : TimeSpan) :
    (v.drawOn side span).2.Kept [] := by
  obtain ⟨p, hp, hl⟩ := hl
  have hmarks := h.marks side p hp
  have hpush := h.push (drawnAnchor side span) []
  have hside := revisionOf_drawnAnchor side span
  generalize hu : { v with
    reviewable := (v.reviewable.push (.audio (drawnAnchor side span)) []).2 } = u at hpush
  have hanchor : u.anchor? ⟨v.reviewable.next⟩ = some (drawnAnchor side span) := by
    rw [← hu, anchor?_push h.sound, if_pos rfl]
  have hup : u.player (revisionOf (drawnAnchor side span)) = some p := by
    rw [hside, ← hp, ← hu]
    cases side <;> rfl
  generalize hw : draw p.waveform span = d
  have hdraw := drawOn_idle h.audio hp hmarks.idle span
  rw [hw, hu] at hdraw
  have hkept : (u.setPlayer { p with
      waveform := d.2
      current := none
      comments := p.comments ++ [(d.1, ⟨v.reviewable.next⟩)] } side).Kept [] := by
    rw [← hside]
    refine hpush.place hanchor (by simp) hup hl rfl fun owns ho => ?_
    have hspan : spanOf? (drawnAnchor side span) = some span := rfl
    refine (hpush.marks _ p hup).attach (fun t ht => ht.2.1 (by simp)) ?_ (fun r hr => ?_) ?_
      fun i t => by rw [ho, hspan, Option.some.injEq, eq_comm (a := t)]
    · rw [← hw]
      exact VisibleWaveform.unnamed_draw _ _
    · rw [← hw]
      exact (VisibleWaveform.shows_draw _ _ _).mpr (Or.inl hr)
    · rw [← hw]
      exact (VisibleWaveform.shows_draw _ _ _).mpr (Or.inr rfl)
  rw [hdraw, showBlock_loaded (p := { p with waveform := d.2, current := some d.1 })
    (anchor?_setPlayer.trans hanchor) (by rw [hside, player_setPlayer, if_pos rfl]) hl, hside,
    setPlayer_setPlayer]
  exact hkept

theorem loaded_removeComment (p : Player W) (id : BlockId) :
    (p.removeComment id).loaded = p.loaded := by
  unfold Player.removeComment
  split
  · rfl
  · split <;> rfl

/-- A block that waits no more and has lost its region may be shown again. -/
theorem Kept.hide {u : Review W} (h : v.Kept []) (ha : v.anchor? id = some a)
    (hr : u.reviewable = v.reviewable) (hw : u.pending = v.pending.filter fun i => i ≠ id)
    (hp : ∀ s, u.player s =
      if s = revisionOf a then (v.player s).map fun p => p.removeComment id else v.player s) :
    u.Kept [id] := by
  have hanchor := anchor?_congr hr
  have hload (s : Revision) : u.HasLoaded s ↔ v.HasLoaded s := by
    unfold HasLoaded
    rw [hp]
    split
    · cases v.player s <;> simp [loaded_removeComment]
    · rfl
  have howns (s : Revision) (i : BlockId) (t : TimeSpan) :
      u.Owns [id] s i t ↔ v.Owns [] s i t ∧ i ≠ id := by
    simp only [Owns, hload, hanchor, List.mem_singleton]
    by_cases hi : i = id <;> simp [hi]
  refine ⟨hr ▸ h.sound, hr ▸ h.audio, hw ▸ h.waitsOnce.filter _, fun i => ?_, fun s q hq => ?_⟩
  · rw [hw, List.mem_filter, h.waits]
    simp only [hanchor, hload, List.mem_singleton, List.not_mem_nil, not_false_eq_true, true_and,
      decide_eq_true_eq, and_comm]
  · rw [hp] at hq
    split at hq
    · obtain ⟨p, hvp, rfl⟩ := Option.map_eq_some_iff.mp hq
      exact (h.marks s p hvp).removeComment (howns s)
    · next hs =>
      refine (h.marks s q hq).congr fun i t => ?_
      rw [howns, and_iff_left_iff_imp]
      rintro ⟨-, -, a', ha', hra, -⟩ rfl
      obtain rfl : a = a' := Option.some.inj (ha.symm.trans ha')
      exact hs hra.symm

/-- A block that is not shown can be taken away. -/
theorem Kept.drop {b : Block} {r : Reviewable} (h : v.Kept [id])
    (hr : v.reviewable.remove id = some (b, r)) : { v with reviewable := r }.Kept [] where
  sound := h.sound.remove hr
  audio := by
    obtain ⟨-, rfl⟩ := Reviewable.remove_eq_some hr
    exact h.audio
  waitsOnce := h.waitsOnce
  waits i := by
    rw [anchor?_remove h.sound hr]
    change i ∈ v.pending ↔ _ ∧ ∃ a', _ ∧ ¬ v.HasLoaded _
    rw [h.waits]
    by_cases hi : i = id <;> simp [hi]
  marks s q hq := by
    refine (h.marks s q hq).congr fun i t => ?_
    unfold Owns
    rw [anchor?_remove h.sound hr]
    change v.HasLoaded s ∧ _ ↔ _
    by_cases hi : i = id <;> simp [hi]

/-- The player of a block that is taken away takes a region away. -/
theorem player_removeBlock (v : Review W) (id : BlockId) (s : Revision) :
    (v.removeBlock id).2.player s =
      if (v.anchor? id).any (fun a => revisionOf a = s) then
        (v.player s).map fun p => p.removeComment id
      else v.player s := by
  cases hb : v.reviewable.find? id with
  | none => simp [Review.removeBlock, Reviewable.remove, anchor?, hb]
  | some b =>
    simp only [Review.removeBlock, Reviewable.remove, anchor?, hb, Option.map_some,
      Option.bind_some]
    cases b.anchor with
    | text a => cases s <;> rfl
    | xml a => cases s <;> rfl
    | audio a =>
      simp only [Option.any_some, decide_eq_true_eq]
      generalize revisionOf a = side
      cases hp : v.player side with
      | none => cases s <;> cases side <;> simp_all [player]
      | some p => cases s <;> cases side <;> simp_all [player, setPlayer]

/-- A block that is taken away waits no more. -/
theorem removeBlock_some {b : Block} {r : Reviewable} (hr : v.reviewable.remove id = some (b, r)) :
    (v.removeBlock id).2.reviewable = r ∧
      (v.removeBlock id).2.pending = v.pending.filter fun i => i ≠ id := by
  simp only [Review.removeBlock, hr]
  split
  · split
    · exact ⟨reviewable_setPlayer, pending_setPlayer⟩
    · exact ⟨rfl, rfl⟩
  · exact ⟨rfl, rfl⟩

theorem removeBlock_cases (hs : v.reviewable.Sound) (hm : v.reviewable.medium = .audio)
    (id : BlockId) : (v.removeBlock id).2 = v ∨ ∃ a b, v.anchor? id = some a ∧
      v.reviewable.remove id = some (b, (v.removeBlock id).2.reviewable) ∧
      (v.removeBlock id).2.pending = (v.pending.filter fun i => i ≠ id) ∧
      ∀ s, (v.removeBlock id).2.player s =
        if s = revisionOf a then (v.player s).map fun p => p.removeComment id
        else v.player s := by
  cases hr : v.reviewable.remove id with
  | none => exact Or.inl (by simp only [Review.removeBlock, hr])
  | some br =>
    obtain ⟨b, r⟩ := br
    obtain ⟨hfind, -⟩ := Reviewable.remove_eq_some hr
    obtain ⟨a, hb⟩ : ∃ a, b.anchor = .audio a := by
      have hmedium := hs.anchored b (List.mem_of_find?_eq_some hfind)
      rw [hm] at hmedium
      cases hanchor : b.anchor with
      | audio a => exact ⟨a, rfl⟩
      | text a => simp [hanchor, Anchor.medium] at hmedium
      | xml a => simp [hanchor, Anchor.medium] at hmedium
    have ha : v.anchor? id = some a := by simp [anchor?, hfind, hb]
    obtain ⟨hreviewable, hpending⟩ := removeBlock_some hr
    refine Or.inr ⟨a, b, ha, by rw [hreviewable], hpending, fun s => ?_⟩
    rw [player_removeBlock, ha]
    simp [eq_comm]

theorem Kept.removeBlock (h : v.Kept []) (id : BlockId) : (v.removeBlock id).2.Kept [] := by
  rcases removeBlock_cases h.sound h.audio id with he | ⟨a, b, ha, hr, hw, hp⟩
  · rwa [he]
  · have hkept : Review.Kept { (v.removeBlock id).2 with reviewable := v.reviewable } [id] := by
      refine h.hide ha rfl hw fun s => ?_
      rw [← hp]
      cases s <;> rfl
    exact hkept.drop hr

/-- What can happen once a recording is shown. -/
inductive Step where
  | load (comments : List Comment)
  | loaded (side : Revision)
  | draw (side : Revision) (span : TimeSpan)
  | remove (id : BlockId)

def step (v : Review W) : Step → Review W
  | .load comments => (v.loadComments comments).2
  | .loaded side => (v.fileLoaded side).2
  | .draw side span => (v.drawOn side span).2
  | .remove id => (v.removeBlock id).2

def run (v : Review W) (steps : List Step) : Review W := steps.foldl step v

/-- What is drawn is drawn on a player that has loaded. -/
def DrawsOnLoaded (v : Review W) : Step → Prop
  | .draw side _ => v.HasLoaded side
  | _ => True

/-- All that is drawn in a run is drawn on players that have loaded by then. -/
def RunDrawsOnLoaded (v : Review W) : List Step → Prop
  | [] => True
  | s :: steps => v.DrawsOnLoaded s ∧ (v.step s).RunDrawsOnLoaded steps

theorem Kept.step (h : v.Kept []) {s : Step} (hs : v.DrawsOnLoaded s) : (v.step s).Kept [] := by
  cases s with
  | load comments => exact h.loadGroups _
  | loaded side => exact h.fileLoaded side
  | draw side span => exact h.drawOn hs span
  | remove id => exact h.removeBlock id

theorem Kept.run (h : v.Kept []) {steps : List Step} (hs : v.RunDrawsOnLoaded steps) :
    (v.run steps).Kept [] := by
  induction steps generalizing v with
  | nil => exact h
  | cons s steps ih => exact ih (h.step hs.1) hs.2

/-- Before anything happens no block waits, and no player has a region. -/
theorem player_renderContent {r : Reviewable} {o : Options}
    (hv : (Review.new r o : Review W).renderContent? = some v) :
    v.reviewable = r ∧ v.pending = [] ∧
      ∀ side p, v.player side = some p → p.current = none ∧ p.comments = [] ∧ p.loaded = false := by
  unfold renderContent? at hv
  split at hv
  · cases hv
  · obtain rfl := Option.some.inj hv
    cases hu : o.earlierUrl with
    | none =>
      refine ⟨by simp [Review.new, hu], by simp [Review.new, hu], fun side p hp => ?_⟩
      cases side with
      | earlier => simp [player, Review.new, hu] at hp
      | later =>
        obtain rfl := Option.some.inj hp
        exact ⟨rfl, rfl, rfl⟩
    | some url =>
      refine ⟨by simp [Review.new, hu], by simp [Review.new, hu], fun side p hp => ?_⟩
      cases side with
      | earlier =>
        simp only [player, Review.new, hu] at hp
        obtain rfl := Option.some.inj hp
        exact ⟨rfl, rfl, rfl⟩
      | later =>
        obtain rfl := Option.some.inj hp
        exact ⟨rfl, rfl, rfl⟩

theorem Kept.start {r : Reviewable} {o : Options} (hm : r.medium = .audio) (hb : r.blocks = [])
    (hv : (Review.new r o : Review W).renderContent? = some v) : v.Kept [] := by
  obtain ⟨hr, hpending, hplayers⟩ := player_renderContent hv
  have hanchor (id : BlockId) : v.anchor? id = none := by
    simp [anchor?, hr, Reviewable.find?, hb]
  refine ⟨hr ▸ Reviewable.sound_of_no_blocks hb, hr ▸ hm, by simp [hpending], fun id => ?_,
    fun side p hp => ?_⟩
  · simp [hpending, hanchor]
  · obtain ⟨hidle, hcomments, -⟩ := hplayers side p hp
    exact ⟨hidle, by simp [hcomments], by simp [hcomments], by simp [hcomments, Owns, hanchor],
      by simp [hcomments]⟩

/-- The blocks of a revision wait for its player, or each of those with a span has one region
there, over that span. -/
structure Shown (v : Review W) : Prop where
  waitsOnce : v.pending.Nodup
  waits : ∀ id, id ∈ v.pending ↔ ∃ a, v.anchor? id = some a ∧ ¬ v.HasLoaded (revisionOf a)
  regionsOnce : ∀ side p, v.player side = some p → (p.comments.map Prod.fst).Nodup
  blocksOnce : ∀ side p, v.player side = some p → (p.comments.map Prod.snd).Nodup
  hasRegion : ∀ side p, v.player side = some p → ∀ id, id ∈ p.comments.map Prod.snd ↔
    p.loaded = true ∧
      ∃ a span, v.anchor? id = some a ∧ revisionOf a = side ∧ spanOf? a = some span
  drawn : ∀ side p, v.player side = some p → ∀ c ∈ p.comments, ∃ a span,
    v.anchor? c.2 = some a ∧ spanOf? a = some span ∧ Shows p.waveform ⟨c.1, span⟩
  /-- No block that was taken away waits or has a region. -/
  present : ∀ id, (id ∈ v.pending ∨ ∃ side p, v.player side = some p ∧
    id ∈ p.comments.map Prod.snd) → ∃ b ∈ v.reviewable.blocks, b.id = id
  /-- No region waits for a block. -/
  idle : ∀ side p, v.player side = some p → p.current = none

theorem Kept.shown (h : v.Kept []) : v.Shown := by
  have hwaits := h.waits
  have howned (side : Revision) (p : Player W) (hp : v.player side = some p) (id : BlockId) :
      id ∈ p.comments.map Prod.snd ↔ p.loaded = true ∧
        ∃ a span, v.anchor? id = some a ∧ revisionOf a = side ∧ spanOf? a = some span := by
    rw [(h.marks side p hp).owned, ← hasLoaded_iff hp]
    simp only [Owns, List.not_mem_nil, not_false_eq_true, true_and]
    constructor
    · rintro ⟨span, hl, a, ha, hs, hsp⟩
      exact ⟨hl, a, span, ha, hs, hsp⟩
    · rintro ⟨hl, a, span, ha, hs, hsp⟩
      exact ⟨span, hl, a, ha, hs, hsp⟩
  simp only [List.not_mem_nil, not_false_eq_true, true_and] at hwaits
  refine ⟨h.waitsOnce, hwaits, fun side p hp => (h.marks side p hp).regions,
    fun side p hp => (h.marks side p hp).blocks, howned, fun side p hp c hc => ?_,
    fun id hid => ?_, fun side p hp => (h.marks side p hp).idle⟩
  · obtain ⟨span, ⟨-, -, a, ha, -, hsp⟩, hs⟩ := (h.marks side p hp).shown c hc
    exact ⟨a, span, ha, hsp, hs⟩
  · rcases hid with hid | ⟨side, p, hp, hid⟩
    · obtain ⟨a, ha, -⟩ := (hwaits id).mp hid
      exact mem_of_anchor? ha
    · obtain ⟨-, a, -, ha, -⟩ := (howned side p hp id).mp hid
      exact mem_of_anchor? ha

/-- Whatever comes in whatever order while regions are drawn on players that have loaded, blocks
and regions belong together. -/
theorem shown_run {r : Reviewable} {o : Options} {v : Review W} {steps : List Step}
    (hm : r.medium = .audio) (hb : r.blocks = [])
    (hv : (Review.new r o).renderContent? = some v) (hs : v.RunDrawsOnLoaded steps) :
    (v.run steps).Shown :=
  ((Kept.start hm hb hv).run hs).shown

/-- A block waits and gets its region, a region is drawn and gets its block, and the first block is
taken away. -/
theorem shown_run_waits_drawn_removed :
    let r := Reviewable.new .audio ⟨"take", 1⟩
    let o : Options := ⟨"later.wav", some "earlier.wav", false, false, [1, 2], Settings.default⟩
    let fields := [("attachedToEarlierRevision", Json.bool false), ("end", .real 2),
      ("start", .real 1)]
    let steps : List Step := [.load [⟨7, "here", false, false, fields⟩], .loaded .later,
      .draw .later ⟨3, 4⟩, .remove ⟨1⟩]
    ∃ v : Review Waveform, (Review.new r o).renderContent? = some v ∧ v.RunDrawsOnLoaded steps ∧
      (v.run steps).Shown ∧ (v.run steps).later.map Player.comments = some [(⟨2⟩, ⟨2⟩)] := by
  intro r o fields steps
  have hv := Option.eq_some_of_isSome
    (rfl : ((Review.new r o : Review Waveform).renderContent?).isSome = true)
  have hs : ((Review.new r o : Review Waveform).renderContent?.get rfl).RunDrawsOnLoaded steps :=
    ⟨trivial, trivial, ⟨_, rfl, rfl⟩, trivial, trivial⟩
  exact ⟨_, hv, hs, @shown_run _ _ r o _ steps rfl rfl hv hs, rfl⟩

end Review

end Marginalia.Audio
