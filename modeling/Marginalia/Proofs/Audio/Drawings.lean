import Mathlib.Data.List.Induction
import Marginalia.Proofs.Audio.Regions

/-! Drawn regions and the blocks made for them. A region that is drawn before its player has loaded
waits there, and goes to the block that is shown first once the player loads. -/

namespace Marginalia.Audio

open Attachment (Anchor AudioAnchor Block BlockId Comment Event Medium RegionId Reviewable TimeSpan)
open WaveformPlayer (tell addRegion removeRegion)
open VisibleWaveform (Named draw)

variable {W : Type} [VisibleWaveform W]

/-! ### One player -/

section Traced

variable {w w' : W} {comments comments' drawn : List (RegionId × BlockId)} {region : RegionId}
  {id : BlockId}

/-- All regions have their names, and a drawn region with a block has the one that was made for
it. -/
structure Traced (w : W) (comments drawn : List (RegionId × BlockId)) : Prop where
  drawnOnce : ∀ d ∈ drawn, ∀ d' ∈ drawn, d.1 = d'.1 → d.2 = d'.2
  drawnNamed : ∀ d ∈ drawn, Named w d.1
  commentsNamed : ∀ c ∈ comments, Named w c.1
  own : ∀ d ∈ drawn, ∀ id, (d.1, id) ∈ comments → id = d.2

theorem Traced.mono (h : Traced w comments drawn) (hw : ∀ r, Named w r → Named w' r)
    (hc : comments' ⊆ comments) : Traced w' comments' drawn where
  drawnOnce := h.drawnOnce
  drawnNamed d hd := hw _ (h.drawnNamed d hd)
  commentsNamed c hcc := hw _ (h.commentsNamed c (hc hcc))
  own d hd id hid := h.own d hd id (hc hid)

/-- A block gets a region that was not drawn, or was drawn for it. -/
theorem Traced.append (h : Traced w comments drawn) (hr : Named w region)
    (hd : ∀ d ∈ drawn, d.1 = region → d.2 = id) :
    Traced w (comments ++ [(region, id)]) drawn where
  drawnOnce := h.drawnOnce
  drawnNamed := h.drawnNamed
  commentsNamed c hc := by
    rcases List.mem_append.mp hc with hc | hc
    · exact h.commentsNamed c hc
    · obtain rfl := List.mem_singleton.mp hc
      exact hr
  own d hdd i hi := by
    rcases List.mem_append.mp hi with hi | hi
    · exact h.own d hdd i hi
    · obtain ⟨he, rfl⟩ := Prod.mk.inj (List.mem_singleton.mp hi)
      exact (hd d hdd he).symm

/-- A block is made for a region that is drawn. -/
theorem Traced.draw (h : Traced w comments drawn) (span : TimeSpan) (id : BlockId) :
    Traced (draw w span).2 comments (drawn ++ [((draw w span).1, id)]) where
  drawnOnce d hd d' hd' he := by
    have hnew := VisibleWaveform.unnamed_draw w span
    rcases List.mem_append.mp hd with hd | hd <;> rcases List.mem_append.mp hd' with hd' | hd'
    · exact h.drawnOnce d hd d' hd' he
    · obtain rfl := List.mem_singleton.mp hd'
      exact absurd (he ▸ h.drawnNamed d hd) hnew
    · obtain rfl := List.mem_singleton.mp hd
      exact absurd (he.symm ▸ h.drawnNamed d' hd') hnew
    · rw [List.mem_singleton.mp hd, List.mem_singleton.mp hd']
  drawnNamed d hd := by
    rw [VisibleWaveform.named_draw]
    rcases List.mem_append.mp hd with hd | hd
    · exact Or.inl (h.drawnNamed d hd)
    · obtain rfl := List.mem_singleton.mp hd
      exact Or.inr rfl
  commentsNamed c hc := (VisibleWaveform.named_draw _ _ _).mpr (Or.inl (h.commentsNamed c hc))
  own d hd i hi := by
    rcases List.mem_append.mp hd with hd | hd
    · exact h.own d hd i hi
    · obtain rfl := List.mem_singleton.mp hd
      exact absurd (h.commentsNamed _ hi) (VisibleWaveform.unnamed_draw w span)

end Traced

namespace Player

variable {p : Player W} {drawn : List (RegionId × BlockId)} {waits waits' : BlockId → Prop}
  {region : RegionId} {id : BlockId}

/-- A player keeps one region at most that was drawn before it has loaded, and the block made for
that waits. Nothing has a region before. -/
structure Tells (p : Player W) (drawn : List (RegionId × BlockId)) (waits : BlockId → Prop) :
    Prop where
  idle : p.loaded = true → p.current = none
  empty : p.loaded = false → p.comments = []
  waiting : ∀ r, p.current = some r → ∃ id, (r, id) ∈ drawn ∧ waits id
  traced : Traced p.waveform p.comments drawn

theorem Tells.mono (h : p.Tells drawn waits) (hw : ∀ id, waits id → waits' id) :
    p.Tells drawn waits' where
  idle := h.idle
  empty := h.empty
  waiting r hr := by
    obtain ⟨id, hd, hid⟩ := h.waiting r hr
    exact ⟨id, hd, hw id hid⟩
  traced := h.traced

/-- A player on which no region waits. -/
theorem tells_of_idle (hc : p.current = none) (he : p.loaded = false → p.comments = [])
    (ht : Traced p.waveform p.comments drawn) : p.Tells drawn waits where
  idle _ := hc
  empty := he
  waiting r hr := by simp [hc] at hr
  traced := ht

/-- A player that has loaded gives a block a new region. -/
theorem Tells.addComment (h : p.Tells drawn waits) (hl : p.loaded = true) (id : BlockId)
    (a : AudioAnchor) : (p.addComment id a).2.Tells drawn waits := by
  simp only [Player.addComment, h.idle hl]
  split
  · exact h
  · next span _ =>
    have hnew := VisibleWaveform.unnamed_add p.waveform span
    have hname (r : RegionId) (hr : Named p.waveform r) : Named (addRegion p.waveform span).2 r :=
      (VisibleWaveform.named_add _ _ _).mpr (Or.inl hr)
    have hnot (d : RegionId × BlockId) (hd : d ∈ drawn)
        (he : d.1 = (addRegion p.waveform span).1) : d.2 = id :=
      absurd (he ▸ h.traced.drawnNamed d hd) hnew
    have hr := (VisibleWaveform.named_add p.waveform span _).mpr (Or.inr rfl)
    exact tells_of_idle rfl (by simp [hl]) ((h.traced.mono hname (List.Subset.refl _)).append hr hnot)

theorem comments_addComment (p : Player W) (id : BlockId) (a : AudioAnchor) :
    ∃ more, (p.addComment id a).2.comments = p.comments ++ more := by
  unfold Player.addComment
  split
  · exact ⟨_, rfl⟩
  · split
    · exact ⟨[], (List.append_nil _).symm⟩
    · exact ⟨_, rfl⟩

theorem Tells.removeComment (h : p.Tells drawn waits) (id : BlockId) :
    (p.removeComment id).Tells drawn waits' := by
  have hname (i r : RegionId) (hr : Named p.waveform r) : Named (removeRegion p.waveform i) r :=
    (VisibleWaveform.named_remove _ _ _).mpr hr
  unfold Player.removeComment
  split
  · next r _ => exact tells_of_idle rfl h.empty (h.traced.mono (hname r) (List.Subset.refl _))
  · next hc =>
    split
    · exact tells_of_idle hc h.empty h.traced
    · next r i _ =>
      have hsub : (p.comments.eraseP fun c => c.2 = id) ⊆ p.comments := List.eraseP_subset
      refine tells_of_idle hc (fun hl => ?_) (h.traced.mono (hname r) hsub)
      have he : p.comments = [] := h.empty hl
      simp [he]

/-- The block made for a region that is drawn on a player that has loaded gets it. -/
theorem Tells.attach (h : p.Tells drawn waits) (hl : p.loaded = true) (span : TimeSpan)
    (id : BlockId) :
    let d := draw p.waveform span
    Tells { p with
      waveform := d.2
      current := none
      comments := p.comments ++ [(d.1, id)] } (drawn ++ [(d.1, id)]) waits' := by
  intro d
  have ht := h.traced.draw span id
  have hd : (d.1, id) ∈ drawn ++ [(d.1, id)] := List.mem_append_right _ List.mem_cons_self
  refine tells_of_idle rfl (by simp [hl]) (ht.append (ht.drawnNamed _ hd) fun d' hd' he => ?_)
  exact ht.drawnOnce d' hd' _ hd he

/-- A region that is drawn on a player that has not loaded waits there. -/
theorem Tells.wait (h : p.Tells drawn waits) (hl : p.loaded = false) (span : TimeSpan)
    (hid : waits' id) :
    let d := draw p.waveform span
    Tells { p with waveform := d.2, current := some d.1 } (drawn ++ [(d.1, id)]) waits' where
  idle hl' := by simp [hl] at hl'
  empty := h.empty
  waiting r hr := by
    obtain rfl := Option.some.inj hr
    exact ⟨id, List.mem_append_right _ List.mem_cons_self, hid⟩
  traced := h.traced.draw span id

end Player

namespace Review

variable {v : Review W} {drawn : Revision → List (RegionId × BlockId)} {side : Revision}
  {p : Player W} {id : BlockId} {a : AudioAnchor}

/-- What both players tell of what was drawn. -/
structure Tells (v : Review W) (drawn : Revision → List (RegionId × BlockId)) : Prop where
  sound : v.reviewable.Sound
  audio : v.reviewable.medium = .audio
  players : ∀ side p, v.player side = some p → p.Tells (drawn side) (· ∈ v.waitingOn side)

theorem Tells.mono {u : Review W} (h : v.Tells drawn) (hs : u.reviewable.Sound)
    (hm : u.reviewable.medium = .audio) (hp : ∀ s, u.player s = v.player s)
    (hw : ∀ s, v.waitingOn s ⊆ u.waitingOn s) : u.Tells drawn where
  sound := hs
  audio := hm
  players s q hq := (h.players s q (hp s ▸ hq)).mono fun _ hid => hw s hid

theorem Tells.setPlayer {drawn' : Revision → List (RegionId × BlockId)} (h : v.Tells drawn)
    (hd : ∀ s, s ≠ side → drawn' s = drawn s)
    (hp : p.Tells (drawn' side) (· ∈ v.waitingOn side)) : (v.setPlayer p side).Tells drawn' where
  sound := by simpa using h.sound
  audio := by simpa using h.audio
  players s q hq := by
    simp only [waitingOn_setPlayer]
    rw [player_setPlayer] at hq
    split at hq
    · next hs =>
      subst hs
      obtain rfl := Option.some.inj hq
      exact hp
    · next hs =>
      rw [hd s hs]
      exact h.players s q hq

theorem Tells.showBlock (h : v.Tells drawn) (id : BlockId) : (v.showBlock id).Tells drawn := by
  rcases showBlock_cases v id with he | ⟨a, p, -, hp, hl, he⟩ | he <;> rw [he]
  · exact h
  · exact h.setPlayer (fun _ _ => rfl) ((h.players _ p hp).addComment hl id a)
  · refine h.mono h.sound h.audio (fun s => by cases s <;> rfl) fun s i hi => ?_
    obtain ⟨hw, hs⟩ := mem_waitingOn.mp hi
    exact mem_waitingOn.mpr ⟨List.mem_append_left _ hw, hs⟩

theorem Tells.showAll (h : v.Tells drawn) (ids : List BlockId) :
    (ids.foldl Review.showBlock v).Tells drawn := by
  induction ids generalizing v with
  | nil => exact h
  | cons id ids ih => exact ih (h.showBlock id)

theorem Tells.push (h : v.Tells drawn) (a : AudioAnchor) (cs : List Comment) :
    { v with reviewable := (v.reviewable.push (.audio a) cs).2 }.Tells drawn := by
  refine h.mono (h.sound.push (a := .audio a) h.audio.symm cs) h.audio (fun s => by cases s <;> rfl)
    fun s i hi => ?_
  obtain ⟨hw, a', ha', hs⟩ := mem_waitingOn.mp hi
  refine mem_waitingOn.mpr ⟨hw, a', ?_, hs⟩
  rw [anchor?_push h.sound, if_neg]
  · exact ha'
  · rintro rfl
    simp [anchor?, Reviewable.find?_next h.sound] at ha'

theorem Tells.loadGroups (h : v.Tells drawn) (gs : List CommentGroup) :
    (v.loadGroups gs).2.Tells drawn :=
  loadGroups_induction (P := fun v => v.Tells drawn) (fun _ h => h.audio)
    (fun _ a cs h => (h.push a cs).showBlock _) h gs

/-! ### Loading -/

/-- Where a region waits for a block on a player, the block made for it is the first one that is
shown once the player has loaded. -/
def LoadsInOrder (v : Review W) (drawn : Revision → List (RegionId × BlockId)) (side : Revision) :
    Prop :=
  ∀ p r, v.player side = some p → p.current = some r → ∀ id, (r, id) ∈ drawn side →
    (v.waitingOn side).head? = some id

theorem Tells.withoutWaiting {q : Player W} (h : v.Tells drawn)
    (hq : q.Tells (drawn side) fun _ => False) :
    ((v.withoutWaiting side).setPlayer q side).Tells drawn where
  sound := by simpa using h.sound
  audio := by simpa using h.audio
  players s p hp := by
    rw [player_setPlayer, player_withoutWaiting] at hp
    split at hp
    · next hs =>
      subst hs
      obtain rfl := Option.some.inj hp
      exact hq.mono fun _ hf => hf.elim
    · next hs =>
      refine (h.players s p hp).mono fun i hi => ?_
      obtain ⟨hw, a, ha, hsa⟩ := mem_waitingOn.mp hi
      rw [waitingOn_setPlayer]
      refine mem_waitingOn.mpr ⟨mem_pending_withoutWaiting.mpr ⟨hw, ?_⟩, a, ha, hsa⟩
      rintro ⟨a', ha', hsa'⟩
      obtain rfl : a = a' := Option.some.inj (ha.symm.trans ha')
      exact hs (hsa.symm.trans hsa')

/-- The waveform of a player that has loaded has the names that it had. -/
theorem traced_fileLoaded {comments ds : List (RegionId × BlockId)}
    (h : Traced p.waveform comments ds) : Traced p.fileLoaded.2.waveform comments ds := by
  refine h.mono (fun r hr => ?_) (List.Subset.refl _)
  exact (VisibleWaveform.named_tell _ _ _).mpr ((VisibleWaveform.named_tell _ _ _).mpr hr)

theorem addComment_fileLoaded {r : RegionId} (hr : p.current = some r) (id : BlockId)
    (a : AudioAnchor) : (p.fileLoaded.2.addComment id a).2 =
      { p.fileLoaded.2 with current := none, comments := p.comments ++ [(r, id)] } := by
  simp only [Player.addComment, Player.fileLoaded, hr]

/-- The first block that waited gets the region that waited. -/
theorem showBlock_first {r : RegionId} {ids : List BlockId} (hr : p.current = some r)
    (hw : v.waitingOn side = id :: ids) :
    ((v.withoutWaiting side).setPlayer p.fileLoaded.2 side).showBlock id =
      (v.withoutWaiting side).setPlayer { p.fileLoaded.2 with
        current := none
        comments := p.comments ++ [(r, id)] } side := by
  obtain ⟨-, a, ha, rfl⟩ := mem_waitingOn.mp (hw ▸ List.mem_cons_self : id ∈ v.waitingOn side)
  have hplayer : ((v.withoutWaiting (revisionOf a)).setPlayer p.fileLoaded.2
      (revisionOf a)).player (revisionOf a) = some p.fileLoaded.2 := by
    rw [player_setPlayer, if_pos rfl]
  rw [showBlock_loaded ((anchor?_fileLoaded id).trans ha) hplayer rfl, addComment_fileLoaded hr,
    setPlayer_setPlayer]

/-- The first region of a player stays where it is while blocks are shown. -/
theorem comments_showBlock {c : RegionId × BlockId} {cs : List (RegionId × BlockId)}
    (hp : v.player side = some p) (hc : p.comments = c :: cs) (id : BlockId) :
    ∃ q cs', (v.showBlock id).player side = some q ∧ q.comments = c :: cs' := by
  cases ha : v.anchor? id with
  | none =>
    refine ⟨p, cs, ?_, hc⟩
    simpa only [Review.showBlock, ha] using hp
  | some a =>
    by_cases hl : v.HasLoaded (revisionOf a)
    · obtain ⟨q, hq, hql⟩ := hl
      rw [showBlock_loaded ha hq hql, player_setPlayer]
      split
      · next hs =>
        obtain rfl : p = q := Option.some.inj (hp.symm.trans (hs ▸ hq))
        obtain ⟨more, hmore⟩ := Player.comments_addComment p id a
        exact ⟨_, cs ++ more, rfl, by rw [hmore, hc, List.cons_append]⟩
      · exact ⟨p, cs, hp, hc⟩
    · rw [showBlock_waits ha hl]
      split
      · exact ⟨p, cs, hp, hc⟩
      · exact ⟨p, cs, by cases side <;> exact hp, hc⟩

theorem comments_showAll {c : RegionId × BlockId} {cs : List (RegionId × BlockId)}
    (hp : v.player side = some p) (hc : p.comments = c :: cs) (ids : List BlockId) :
    ∃ q cs', (ids.foldl Review.showBlock v).player side = some q ∧ q.comments = c :: cs' := by
  induction ids generalizing v p cs with
  | nil => exact ⟨p, cs, hp, hc⟩
  | cons id ids ih =>
    obtain ⟨q, cs', hq, hcs⟩ := comments_showBlock hp hc id
    exact ih hq hcs

/-- The block that waits first gets the region that waits. -/
theorem regionFor_fileLoaded {r : RegionId} {ids : List BlockId} (hp : v.player side = some p)
    (hr : p.current = some r) (he : p.comments = []) (hw : v.waitingOn side = id :: ids) :
    ∃ q, (v.fileLoaded side).2.player side = some q ∧ q.regionFor id = some r := by
  rw [fileLoaded_eq hp, hw, List.foldl_cons, showBlock_first hr hw]
  obtain ⟨q, cs, hq, hcs⟩ := comments_showAll
    (v := (v.withoutWaiting side).setPlayer { p.fileLoaded.2 with
      current := none
      comments := p.comments ++ [(r, id)] } side)
    (by rw [player_setPlayer, if_pos rfl]) (by rw [he]; rfl) ids
  exact ⟨q, hq, by simp [Player.regionFor, hcs]⟩

theorem Tells.fileLoaded (h : v.Tells drawn) (ho : v.LoadsInOrder drawn side) :
    (v.fileLoaded side).2.Tells drawn := by
  cases hp : v.player side with
  | none => simpa only [Review.fileLoaded, hp] using h
  | some p =>
    have htells := h.players side p hp
    rw [fileLoaded_eq hp]
    cases hr : p.current with
    | none =>
      refine (h.withoutWaiting ?_).showAll _
      exact Player.tells_of_idle hr (by simp [Player.fileLoaded]) (traced_fileLoaded htells.traced)
    | some r =>
      obtain ⟨id, hd, hid⟩ := htells.waiting r hr
      obtain ⟨ids, hids⟩ := List.head?_eq_some_iff.mp (ho p r hp hr id hd)
      rw [hids, List.foldl_cons, showBlock_first hr hids]
      refine (h.withoutWaiting ?_).showAll _
      refine Player.tells_of_idle rfl (by simp [Player.fileLoaded]) ?_
      exact (traced_fileLoaded htells.traced).append
        ((traced_fileLoaded htells.traced).drawnNamed _ hd)
        fun d hdd he => htells.traced.drawnOnce d hdd _ hd he

/-! ### Drawing and removing -/

theorem mem_waitingOn_showBlock (ha : v.anchor? id = some a) (hl : ¬ v.HasLoaded (revisionOf a)) :
    id ∈ (v.showBlock id).waitingOn (revisionOf a) := by
  have hanchor := anchor?_congr (reviewable_showBlock v id) id
  refine mem_waitingOn.mpr ⟨?_, a, hanchor.trans ha, rfl⟩
  rw [showBlock_waits ha hl]
  split
  · next hm => simpa using hm
  · simp

/-- A block that waits does so whatever else its player does before it has loaded. -/
theorem showBlock_setPlayer_waits (ha : v.anchor? id = some a) (hp : v.player (revisionOf a) = some p)
    (hl : p.loaded = false) {q : Player W} (hq : q.loaded = false) :
    (v.setPlayer q (revisionOf a)).showBlock id =
      (v.showBlock id).setPlayer q (revisionOf a) := by
  have hv : ¬ v.HasLoaded (revisionOf a) := by simp [hasLoaded_iff hp, hl]
  have hvq : ¬ (v.setPlayer q (revisionOf a)).HasLoaded (revisionOf a) := by
    rwa [hasLoaded_setPlayer hp (hq.trans hl.symm)]
  rw [showBlock_waits ha hv, showBlock_waits (anchor?_setPlayer.trans ha) hvq, pending_setPlayer]
  split
  · rfl
  · cases revisionOf a <;> rfl

theorem Tells.removeBlock (h : v.Tells drawn) (id : BlockId) : (v.removeBlock id).2.Tells drawn := by
  rcases removeBlock_cases h.sound h.audio id with he | ⟨a, b, ha, hr, hw, hp⟩
  · rwa [he]
  · have hmedium : (v.removeBlock id).2.reviewable.medium = .audio := by
      obtain ⟨-, he⟩ := Reviewable.remove_eq_some hr
      rw [he]
      exact h.audio
    refine ⟨h.sound.remove hr, hmedium, fun s q hq => ?_⟩
    rw [hp] at hq
    split at hq
    · obtain ⟨p, hvp, rfl⟩ := Option.map_eq_some_iff.mp hq
      exact (h.players s p hvp).removeComment id
    · next hs =>
      refine (h.players s q hq).mono fun i hi => ?_
      obtain ⟨hwait, a', ha', hsa⟩ := mem_waitingOn.mp hi
      have hne : i ≠ id := by
        rintro rfl
        obtain rfl : a = a' := Option.some.inj (ha.symm.trans ha')
        exact hs hsa.symm
      refine mem_waitingOn.mpr ⟨?_, a', ?_, hsa⟩
      · rw [hw]
        exact List.mem_filter.mpr ⟨hwait, by simpa using hne⟩
      · have hrest := anchor?_remove h.sound hr i
        rw [if_neg hne] at hrest
        exact hrest.trans ha'

/-- The block made for a region waits with it, or gets it at once. -/
theorem Tells.showDrawn {drawn' : Revision → List (RegionId × BlockId)} (h : v.Tells drawn)
    (ha : v.anchor? id = some a) (hs : revisionOf a = side) (hp : v.player side = some p)
    (span : TimeSpan) (hothers : ∀ s, s ≠ side → drawn' s = drawn s)
    (hd : drawn' side = drawn side ++ [((draw p.waveform span).1, id)]) :
    let d := draw p.waveform span
    ((v.setPlayer { p with waveform := d.2, current := some d.1 } side).showBlock id).Tells
      drawn' := by
  intro d
  subst hs
  have htells := h.players _ p hp
  by_cases hl : p.loaded = true
  · rw [showBlock_loaded (p := { p with waveform := d.2, current := some d.1 })
      (anchor?_setPlayer.trans ha) (by rw [player_setPlayer, if_pos rfl]) hl, setPlayer_setPlayer]
    refine h.setPlayer hothers ?_
    rw [hd]
    exact htells.attach hl span id
  · have hnot : ¬ v.HasLoaded (revisionOf a) := by rwa [hasLoaded_iff hp]
    rw [Bool.not_eq_true] at hl
    rw [showBlock_setPlayer_waits (q := { p with waveform := d.2, current := some d.1 }) ha hp hl hl]
    refine (h.showBlock id).setPlayer hothers ?_
    rw [hd]
    exact htells.wait hl span (mem_waitingOn_showBlock ha hnot)

/-- The region that a step drew on a revision, with the block made for it. -/
def drawnBy (v : Review W) (side : Revision) : Step → List (RegionId × BlockId)
  | .draw side' span =>
    if side' = side then
      match (v.drawOn side' span).1 with
      | [.regionCreated region _, .commentCreated id] => [(region, id)]
      | _ => []
    else []
  | _ => []

theorem Tells.drawOn (h : v.Tells drawn) (side : Revision) (span : TimeSpan) :
    (v.drawOn side span).2.Tells fun s => drawn s ++ v.drawnBy s (.draw side span) := by
  cases hp : v.player side with
  | none =>
    have he : v.drawOn side span = ([], v) := by simp only [Review.drawOn, hp]
    simpa only [drawnBy, he, ite_self, List.append_nil] using h
  | some p =>
    have htells := h.players side p hp
    cases hr : p.current with
    | some r =>
      have hbusy := drawOn_busy hp hr span
      simp only [drawnBy, hbusy, ite_self, List.append_nil]
      refine h.setPlayer (fun _ _ => rfl) ⟨htells.idle, htells.empty, htells.waiting, ?_⟩
      refine htells.traced.mono (fun i hi => ?_) (List.Subset.refl _)
      rw [VisibleWaveform.named_remove, VisibleWaveform.named_draw]
      exact Or.inl hi
    | none =>
      have hside := revisionOf_drawnAnchor side span
      have hdraw := drawOn_idle h.audio hp hr span
      have hby (s : Revision) : v.drawnBy s (.draw side span) =
          if side = s then [((draw p.waveform span).1, ⟨v.reviewable.next⟩)] else [] := by
        simp only [drawnBy, hdraw]
      rw [hdraw]
      refine (h.push (drawnAnchor side span) []).showDrawn ?_ hside ?_ span (fun s hs => ?_) ?_
      · rw [anchor?_push h.sound, if_pos rfl]
      · rw [← hp]
        cases side <;> rfl
      · rw [hby, if_neg hs.symm, List.append_nil]
      · rw [hby, if_pos rfl]

end Review

/-! ### Runs -/

/-- A review, and the regions that were drawn in it with the blocks made for them. -/
structure Record (W : Type := Waveform) where
  review : Review W
  drawn : Revision → List (RegionId × BlockId)

namespace Record

def start (v : Review W) : Record W := ⟨v, fun _ => []⟩

def step (x : Record W) (s : Review.Step) : Record W :=
  ⟨x.review.step s, fun side => x.drawn side ++ x.review.drawnBy side s⟩

def run (x : Record W) (steps : List Review.Step) : Record W := steps.foldl step x

/-- No block has a region that was drawn and another block was made for. -/
def OwnRegions (x : Record W) : Prop :=
  ∀ side p, x.review.player side = some p → ∀ d ∈ x.drawn side, ∀ id,
    p.regionFor id = some d.1 → id = d.2

/-- Where a region waits for a block, its own block comes first once its player has loaded. -/
def LoadsInOrder (x : Record W) (side : Revision) : Prop := x.review.LoadsInOrder x.drawn side

variable {x : Record W} {side : Revision}

theorem ownRegions_of_tells (h : x.review.Tells x.drawn) : x.OwnRegions := by
  intro side p hp d hd id hid
  obtain ⟨c, hc, he⟩ := Option.map_eq_some_iff.mp hid
  have hmem := List.mem_of_find?_eq_some hc
  obtain rfl : c.2 = id := by simpa using List.find?_some hc
  exact (h.players side p hp).traced.own d hd c.2 (he ▸ hmem)

theorem tells_step (h : x.review.Tells x.drawn) {s : Review.Step}
    (ho : ∀ side, s = .loaded side → x.LoadsInOrder side) :
    (x.step s).review.Tells (x.step s).drawn := by
  cases s with
  | load comments =>
    simp only [step, Review.drawnBy, List.append_nil]
    exact h.loadGroups _
  | loaded side =>
    simp only [step, Review.drawnBy, List.append_nil]
    exact h.fileLoaded (ho side rfl)
  | draw side span => exact h.drawOn side span
  | remove id =>
    simp only [step, Review.drawnBy, List.append_nil]
    exact h.removeBlock id

/-- Another block that comes first gets the region. -/
theorem not_ownRegions_step (h : x.review.Tells x.drawn) (ho : ¬ x.LoadsInOrder side) :
    ¬ (x.step (.loaded side)).OwnRegions := by
  simp only [LoadsInOrder, Review.LoadsInOrder, not_forall] at ho
  obtain ⟨p, r, hp, hr, id, hid, hfirst⟩ := ho
  have htells := h.players side p hp
  obtain ⟨own, hown, hwaits⟩ := htells.waiting r hr
  obtain rfl : own = id := htells.traced.drawnOnce _ hown _ hid rfl
  have hempty : p.comments = [] := by
    cases hl : p.loaded with
    | true => simp [htells.idle hl] at hr
    | false => exact htells.empty hl
  cases hids : x.review.waitingOn side with
  | nil => simp [hids] at hwaits
  | cons first ids =>
    obtain ⟨q, hq, hregion⟩ := Review.regionFor_fileLoaded hp hr hempty hids
    intro hx
    have he := hx side q hq (r, own) (List.mem_append_left _ hid) first hregion
    simp [hids, he] at hfirst

theorem run_append (x : Record W) (steps more : List Review.Step) :
    x.run (steps ++ more) = (x.run steps).run more :=
  List.foldl_append

theorem tells_start {r : Reviewable} {o : Options} {v : Review W} (hr : r.Sound)
    (hm : r.medium = .audio) (hv : (Review.new r o).renderContent? = some v) :
    (start v).review.Tells (start v).drawn := by
  obtain ⟨he, -, hplayers⟩ := Review.player_renderContent hv
  refine ⟨he ▸ hr, he ▸ hm, fun side p hp => ?_⟩
  obtain ⟨hidle, hcomments, -⟩ := hplayers side p hp
  refine Player.tells_of_idle hidle (fun _ => hcomments) ?_
  constructor <;> simp [start, hcomments]

/-- As long as every region stays with its own block, or all players load in order, both players
tell what was drawn. -/
theorem tells_run (h : x.review.Tells x.drawn) {steps : List Review.Step}
    (ho : ∀ pre side, pre ++ [.loaded side] <+: steps →
      (x.run pre).LoadsInOrder side ∨ (x.run (pre ++ [.loaded side])).OwnRegions) :
    (x.run steps).review.Tells (x.run steps).drawn := by
  induction steps using List.reverseRecOn with
  | nil => exact h
  | append_singleton steps s ih =>
    have hsteps := ih fun pre side hp => ho pre side (hp.trans (List.prefix_append _ _))
    rw [run_append]
    refine tells_step hsteps fun side hs => ?_
    subst hs
    by_contra hn
    rcases ho steps side List.prefix_rfl with hin | hown
    · exact hn hin
    · rw [run_append] at hown
      exact not_ownRegions_step hsteps hn hown

/-- Along a run no block ever has a region that was drawn for another one, if and only if each player
loads while its own block comes first for the region that waits. -/
theorem ownRegions_run_iff {r : Reviewable} {o : Options} {v : Review W}
    {steps : List Review.Step} (hr : r.Sound) (hm : r.medium = .audio)
    (hv : (Review.new r o).renderContent? = some v) :
    (∀ pre, pre <+: steps → ((start v).run pre).OwnRegions) ↔
      ∀ pre side, pre ++ [.loaded side] <+: steps → ((start v).run pre).LoadsInOrder side := by
  have hstart := tells_start hr hm hv
  constructor
  · intro hown pre side hp
    have htells : ((start v).run pre).review.Tells ((start v).run pre).drawn :=
      tells_run hstart fun pre' side' hp' =>
        Or.inr (hown _ ((hp'.trans (List.prefix_append _ _)).trans hp))
    by_contra hn
    have hstep := hown _ hp
    rw [run_append] at hstep
    exact not_ownRegions_step htells hn hstep
  · intro ho pre hp
    exact ownRegions_of_tells (tells_run hstart fun pre' side hp' =>
      Or.inl (ho pre' side (hp'.trans hp)))

/-- A region is drawn before its player has loaded, and no block waits longer than its own. -/
theorem ownRegions_run_iff_drawn_first :
    let r := Reviewable.new .audio ⟨"take", 1⟩
    let o : Options := ⟨"later.wav", none, false, false, [1], Settings.default⟩
    let fields := [("attachedToEarlierRevision", Json.bool false), ("end", .real 2),
      ("start", .real 1)]
    let steps : List Review.Step :=
      [.draw .later ⟨3, 4⟩, .load [⟨7, "here", false, false, fields⟩], .loaded .later]
    ∃ v : Review Waveform, (Review.new r o).renderContent? = some v ∧
      ∀ pre, pre <+: steps → ((start v).run pre).OwnRegions := by
  intro r o fields steps
  have hv := Option.eq_some_of_isSome
    (rfl : ((Review.new r o : Review Waveform).renderContent?).isSome = true)
  refine ⟨_, hv, (ownRegions_run_iff (Reviewable.sound_of_no_blocks rfl) rfl hv).mpr ?_⟩
  rintro pre side ⟨rest, hpre⟩ p region hplayer - id hid
  rcases pre with _ | ⟨first, _ | ⟨second, _ | ⟨third, pre⟩⟩⟩ <;>
    simp only [steps, List.append_assoc, List.cons_append, List.nil_append, List.cons.injEq,
      Review.Step.loaded.injEq, List.append_eq_nil_iff, reduceCtorEq, false_and, and_false] at hpre
  obtain ⟨rfl, rfl, rfl, -⟩ := hpre
  have hmem : (region, id) ∈ [((⟨1⟩ : RegionId), (⟨1⟩ : BlockId))] := hid
  obtain ⟨-, rfl⟩ := Prod.mk.inj (List.mem_singleton.mp hmem)
  rfl

/-- A comment waits when a region is drawn, and gets that region once the player has loaded. -/
theorem not_ownRegions_drawn_later :
    let r := Reviewable.new .audio ⟨"take", 1⟩
    let o : Options := ⟨"later.wav", none, false, false, [1], Settings.default⟩
    let fields := [("attachedToEarlierRevision", Json.bool false), ("end", .real 2),
      ("start", .real 1)]
    let steps : List Review.Step :=
      [.load [⟨7, "here", false, false, fields⟩], .draw .later ⟨3, 4⟩, .loaded .later]
    ∃ v : Review Waveform, (Review.new r o).renderContent? = some v ∧
      ¬ ((start v).run steps).OwnRegions := by
  intro r o fields steps
  have hv := Option.eq_some_of_isSome
    (rfl : ((Review.new r o : Review Waveform).renderContent?).isSome = true)
  refine ⟨_, hv, fun hown => ?_⟩
  have he : (⟨1⟩ : BlockId) = ⟨2⟩ :=
    hown .later _ rfl (⟨1⟩, ⟨2⟩) List.mem_cons_self ⟨1⟩ rfl
  exact absurd he (by decide)

end Record

end Marginalia.Audio
