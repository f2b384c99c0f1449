import Marginalia.Proofs.Audio.Regions

/-! Blocks that are shown again. A block that waits, or that has no span, is shown once however
often it is asked for. A block with a span on a player that has loaded gets another region each
time, and only one of them goes when the block is taken away. -/

namespace Marginalia.Audio

open Attachment (Anchor AudioAnchor Block BlockId Comment Event RegionId Reviewable TimeSpan)
open WaveformPlayer (tell addRegion removeRegion)
open VisibleWaveform (Shows draw)

namespace Player

variable {W : Type}

/-- The regions of a block, in the order in which it got them. -/
def regionsOf (p : Player W) (id : BlockId) : List RegionId :=
  (p.comments.filter fun c => c.2 = id).map Prod.fst

/-- What a player does that has nothing to do with comments. -/
inductive Control where
  | loadStarted
  | failed (reason : String)
  | finished
  | click (region : RegionId) (shift : Bool)
  | play
  | pause
  | volume (level : Float)
  | speed (factor : Float)

def control [WaveformPlayer W] (p : Player W) : Control → Player W
  | .loadStarted => p.loadStarted
  | .failed reason => (p.failed reason).2
  | .finished => p.finished
  | .click region shift => (p.regionClicked region shift).2
  | .play => p.play
  | .pause => p.pause
  | .volume level => p.setVolume level
  | .speed factor => p.setSpeed factor

section Fits

variable {p q : Player W} {r r' : Reviewable} {side : Revision} {id : BlockId} {a : AudioAnchor}
  {b : Block}

theorem regionsOf_append (cs : List (RegionId × BlockId)) (hq : q.comments = p.comments ++ cs) :
    q.regionsOf id = p.regionsOf id ++ (cs.filter fun c => c.2 = id).map Prod.fst := by
  rw [regionsOf, hq, List.filter_append, List.map_append]
  rfl

theorem regionsOf_eq_nil (h : ∀ c ∈ p.comments, c.2 ≠ id) : p.regionsOf id = [] := by
  rw [regionsOf, List.map_eq_nil_iff, List.filter_eq_nil_iff]
  intro c hc
  simpa using h c hc

/-- How the regions on a player belong to the blocks of a reviewable. None has a region before the
player has loaded. A block without a span can only have one that was drawn before, and there is one
such region at most. -/
structure Fits (p : Player W) (r : Reviewable) (side : Revision) : Prop where
  empty : p.loaded = false → p.comments = []
  named : ∀ c ∈ p.comments, c.2.number < r.next
  ofSide : ∀ c ∈ p.comments, ∀ b, r.find? c.2 = some b →
    ∃ a, b.anchor = .audio a ∧ revisionOf a = side
  spare : ∀ id b a, r.find? id = some b → b.anchor = .audio a → spanOf? a = none →
    (p.regionsOf id ++ p.current.toList).length ≤ 1

/-- A player with the same regions. -/
theorem Fits.congr (h : p.Fits r side) (hl : q.loaded = p.loaded) (hc : q.current = p.current)
    (hm : q.comments = p.comments) : q.Fits r side where
  empty := by simpa only [hl, hm] using h.empty
  named := by simpa only [hm] using h.named
  ofSide := by simpa only [hm] using h.ofSide
  spare := by simpa only [regionsOf, hc, hm] using h.spare

theorem fits_of_no_regions (hc : p.current = none) (hm : p.comments = []) : p.Fits r side where
  empty _ := hm
  named := by simp [hm]
  ofSide := by simp [hm]
  spare := by simp [regionsOf, hc, hm]

theorem Fits.follows (h : p.Fits r side) (hr : r.Follows r') : p.Fits r' side where
  empty := h.empty
  named c hc := Nat.lt_of_lt_of_le (h.named c hc) hr.next
  ofSide c hc b hb := by
    rcases hr.old c.2 (h.named c hc) with hnone | hold
    · simp [hnone] at hb
    · exact h.ofSide c hc b (hold ▸ hb)
  spare id b a hb ha hs := by
    by_cases hid : id.number < r.next
    · rcases hr.old id hid with hnone | hold
      · simp [hnone] at hb
      · exact h.spare id b a (hold ▸ hb) ha hs
    · have hnew : p.regionsOf id = [] := regionsOf_eq_nil fun c hc he => hid (he ▸ h.named c hc)
      rw [hnew, List.nil_append]
      exact Option.length_toList_le

/-- A block gets a region. One without a span gets the one that was drawn. -/
theorem Fits.place (h : p.Fits r side) (hr : r.Sound) (hl : p.loaded = true)
    (hb : r.find? id = some b) (ha : b.anchor = .audio a) (hs : revisionOf a = side)
    (hdrawn : spanOf? a = none → p.current ≠ none) (w : W) (region : RegionId) :
    Fits { p with
      waveform := w
      current := none
      comments := p.comments ++ [(region, id)] } r side where
  empty hn := by simp [hl] at hn
  named c hc := by
    rcases List.mem_append.mp hc with hc | hc
    · exact h.named c hc
    · obtain rfl := List.mem_singleton.mp hc
      obtain rfl : b.id = id := by simpa using List.find?_some hb
      exact hr.named b (List.mem_of_find?_eq_some hb)
  ofSide c hc b' hb' := by
    rcases List.mem_append.mp hc with hc | hc
    · exact h.ofSide c hc b' hb'
    · obtain rfl := List.mem_singleton.mp hc
      obtain rfl : b = b' := Option.some.inj (hb.symm.trans hb')
      exact ⟨a, ha, hs⟩
  spare i b' a' hb' ha' hspan := by
    have hspare := h.spare i b' a' hb' ha' hspan
    rw [regionsOf_append (p := p) [(region, id)] rfl]
    by_cases hi : id = i
    · subst hi
      obtain rfl : b = b' := Option.some.inj (hb.symm.trans hb')
      obtain rfl : a = a' := Anchor.audio.inj (ha.symm.trans ha')
      obtain ⟨drawn, hd⟩ := Option.ne_none_iff_exists'.mp (hdrawn hspan)
      simpa [hd] using hspare
    · have hless : (p.regionsOf i).length ≤ 1 := by
        rw [List.length_append] at hspare
        omega
      simpa [hi] using hless

end Fits

variable [VisibleWaveform W] {p : Player W} {r : Reviewable} {side : Revision} {id : BlockId}
  {a : AudioAnchor} {b : Block} {span : TimeSpan}

theorem current_addComment (p : Player W) (id : BlockId) (a : AudioAnchor) :
    (p.addComment id a).2.current = none := by
  unfold Player.addComment
  split
  · rfl
  · split
    · assumption
    · assumption

theorem addComment_nothing (hc : p.current = none) (hs : spanOf? a = none) :
    (p.addComment id a).2 = p := by
  simp only [Player.addComment, hc, hs]

/-- A block with a span gets a region, whether it had one or not. -/
theorem regionsOf_addComment (hs : spanOf? a = some span) :
    ∃ region, (p.addComment id a).2.regionsOf id = p.regionsOf id ++ [region] := by
  unfold Player.addComment
  split
  · next drawn _ => exact ⟨drawn, by simp [regionsOf]⟩
  · rw [hs]
    exact ⟨(addRegion p.waveform span).1, by simp [regionsOf]⟩

theorem Fits.addComment (h : p.Fits r side) (hr : r.Sound) (hl : p.loaded = true)
    (hb : r.find? id = some b) (ha : b.anchor = .audio a) (hs : revisionOf a = side) :
    (p.addComment id a).2.Fits r side := by
  unfold Player.addComment
  split
  · next drawn hc => exact h.place hr hl hb ha hs (by simp [hc]) _ _
  · next hc =>
    split
    · exact h
    · next span hspan =>
      have hplaced := h.place hr hl hb ha hs (by simp [hspan]) (addRegion p.waveform span).2
        (addRegion p.waveform span).1
      exact hplaced.congr rfl hc rfl

theorem comments_removeComment (hc : p.current = none) :
    (p.removeComment id).comments = p.comments.eraseP fun c => c.2 = id := by
  simp only [Player.removeComment, hc]
  split
  · next hnone => exact (List.eraseP_of_forall_not (List.find?_eq_none.mp hnone)).symm
  · rfl

theorem comments_removeComment_sublist (p : Player W) (id : BlockId) :
    (p.removeComment id).comments.Sublist p.comments := by
  cases hc : p.current with
  | some drawn => simp only [Player.removeComment, hc, List.Sublist.refl]
  | none => exact comments_removeComment hc ▸ List.eraseP_sublist

theorem regionsOf_removeComment_sublist (p : Player W) (id i : BlockId) :
    ((p.removeComment id).regionsOf i).Sublist (p.regionsOf i) :=
  ((comments_removeComment_sublist p id).filter _).map Prod.fst

theorem current_removeComment (p : Player W) (id : BlockId) :
    (p.removeComment id).current = none := by
  unfold Player.removeComment
  split
  · rfl
  · split
    · assumption
    · assumption

theorem Fits.removeComment (h : p.Fits r side) (id : BlockId) :
    (p.removeComment id).Fits r side := by
  have hsub := comments_removeComment_sublist p id
  refine ⟨fun hl => ?_, fun c hm => h.named c (hsub.subset hm),
    fun c hm => h.ofSide c (hsub.subset hm), fun i b a hb ha hs => ?_⟩
  · rw [Review.loaded_removeComment] at hl
    exact List.sublist_nil.mp (h.empty hl ▸ hsub)
  · have hspare := h.spare i b a hb ha hs
    rw [List.length_append] at hspare
    rw [current_removeComment, Option.toList_none, List.append_nil]
    exact Nat.le_trans (regionsOf_removeComment_sublist p id i).length_le
      (Nat.le_of_add_right_le hspare)

/-- The first region of a block goes with it. -/
theorem regionsOf_removeComment (hc : p.current = none) :
    (p.removeComment id).regionsOf id = (p.regionsOf id).tail := by
  rw [regionsOf, comments_removeComment hc, regionsOf, ← List.map_tail]
  congr 1
  induction p.comments with
  | nil => rfl
  | cons c cs ih =>
    by_cases he : c.2 = id
    · simp [he]
    · simpa [he] using ih

theorem not_shows_removeComment {region : RegionId} (hc : p.current = none)
    (hr : (p.regionsOf id).head? = some region) :
    ¬ Shows (p.removeComment id).waveform ⟨region, span⟩ := by
  rw [regionsOf, List.head?_map, List.head?_filter, Option.map_eq_some_iff] at hr
  obtain ⟨⟨region', i⟩, hfind, rfl⟩ := hr
  simp only [Player.removeComment, hc, hfind]
  exact fun hs => ((VisibleWaveform.shows_remove _ _ _).mp hs).2 rfl

theorem Fits.fileLoaded (h : p.Fits r side) : p.fileLoaded.2.Fits r side where
  empty hl := by simp [Player.fileLoaded] at hl
  named := h.named
  ofSide := h.ofSide
  spare := h.spare

theorem Fits.control (h : p.Fits r side) (c : Control) : (p.control c).Fits r side := by
  cases c with
  | click region shift =>
    simp only [Player.control, Player.regionClicked]
    split
    · exact h.congr rfl rfl rfl
    · split
      · exact h
      · exact h
  | play =>
    simp only [Player.control, Player.play]
    split
    · exact h
    · exact h.congr rfl rfl rfl
  | pause =>
    simp only [Player.control, Player.pause]
    split
    · exact h.congr rfl rfl rfl
    · exact h
  | _ => exact h.congr rfl rfl rfl

end Player

namespace Review

variable {W : Type} {u v : Review W} {side : Revision} {id : BlockId} {a : AudioAnchor}
  {p : Player W}

/-- The regions of a block on the player of a revision. -/
def regionsOf (v : Review W) (side : Revision) (id : BlockId) : List RegionId :=
  (v.player side).elim [] fun p => p.regionsOf id

theorem regionsOf_some (hp : v.player side = some p) : v.regionsOf side id = p.regionsOf id := by
  rw [regionsOf, hp]
  rfl

/-- A block has a span and its player has loaded, so that it gets a new region when it is shown. -/
def DrawsAnew (v : Review W) (side : Revision) (id : BlockId) : Prop :=
  v.HasLoaded side ∧ ∃ a span, v.anchor? id = some a ∧ revisionOf a = side ∧ spanOf? a = some span

theorem spanOf?_eq_none (hn : ∀ side, ¬ v.DrawsAnew side id) (ha : v.anchor? id = some a)
    (hl : v.HasLoaded (revisionOf a)) : spanOf? a = none := by
  by_contra hs
  obtain ⟨span, hs⟩ := Option.ne_none_iff_exists'.mp hs
  exact hn _ ⟨hl, a, span, ha, rfl, hs⟩

/-- The regions on both players belong to blocks of their revisions. -/
structure Orderly (v : Review W) : Prop where
  sound : v.reviewable.Sound
  fits : ∀ side p, v.player side = some p → p.Fits v.reviewable side

/-- A change of the reviewable, and players that fit it as it was. -/
theorem Orderly.follows (hr : v.reviewable.Follows u.reviewable)
    (hp : ∀ s q, u.player s = some q → q.Fits v.reviewable s) : u.Orderly :=
  ⟨hr.sound, fun s q hq => (hp s q hq).follows hr⟩

theorem Orderly.withReviewable (h : v.Orderly) {r : Reviewable} (hr : v.reviewable.Follows r) :
    { v with reviewable := r }.Orderly :=
  Orderly.follows hr fun s q hq => h.fits s q (by cases s <;> exact hq)

theorem Orderly.setPlayer (h : v.Orderly) (hp : p.Fits v.reviewable side) :
    (v.setPlayer p side).Orderly := by
  refine Orderly.follows (v := v) ?_ fun s q hq => ?_
  · rw [reviewable_setPlayer]
    exact h.sound.follows_self
  · rw [player_setPlayer] at hq
    split at hq
    · next hs =>
      obtain rfl := Option.some.inj hq
      exact hs ▸ hp
    · exact h.fits s q hq

theorem Orderly.withPending (h : v.Orderly) (ids : List BlockId) :
    { v with pending := ids }.Orderly :=
  Orderly.follows h.sound.follows_self fun s q hq => h.fits s q (by cases s <;> exact hq)

theorem Orderly.setSpectrogram (h : v.Orderly) (visible : Bool) :
    (v.setSpectrogram visible).Orderly := by
  refine Orderly.follows h.sound.follows_self fun s q hq => ?_
  have hplayer : (v.setSpectrogram visible).player s =
      (v.player s).map fun p => { p with spectrogramVisible := visible } := by
    cases s <;> rfl
  obtain ⟨p, hp, rfl⟩ := Option.map_eq_some_iff.mp (hplayer ▸ hq)
  exact (h.fits s p hp).congr rfl rfl rfl

theorem orderly_new {r : Reviewable} (hr : r.Sound) (o : Options) :
    (Review.new r o : Review W).Orderly :=
  ⟨hr, fun s p hp => by cases s <;> cases hp⟩

variable [VisibleWaveform W]

/-- A region is seen on the player of a revision. -/
def ShowsOn (v : Review W) (side : Revision) (r : Region) : Prop :=
  ∃ p, v.player side = some p ∧ Shows p.waveform r

/-- The same blocks wait, they have the same regions, and the same regions are seen. -/
structure SameShown (u v : Review W) : Prop where
  pending : u.pending = v.pending
  comments : ∀ side, (u.player side).map Player.comments = (v.player side).map Player.comments
  seen : ∀ side r, u.ShowsOn side r ↔ v.ShowsOn side r

/-- A block that is there leaves none of its regions behind when it is taken away. -/
def Clears (v : Review W) (id : BlockId) : Prop :=
  ∀ b, v.reviewable.find? id = some b → ∀ side, (v.removeBlock id).2.regionsOf side id = [] ∧
    ∀ region ∈ v.regionsOf side id, ∀ span, ¬ (v.removeBlock id).2.ShowsOn side ⟨region, span⟩

theorem sameShown_refl (v : Review W) : v.SameShown v := ⟨rfl, fun _ => rfl, fun _ _ => Iff.rfl⟩

theorem SameShown.regionsOf_eq (h : u.SameShown v) (side : Revision) (id : BlockId) :
    u.regionsOf side id = v.regionsOf side id := by
  have hc := h.comments side
  unfold regionsOf
  cases hu : u.player side <;> cases hv : v.player side <;> simp [hu, hv] at hc
  · rfl
  · simp [Player.regionsOf, hc]

/-! ### Shown twice -/

theorem hasLoaded_showBlock (v : Review W) (id : BlockId) (side : Revision) :
    (v.showBlock id).HasLoaded side ↔ v.HasLoaded side := by
  rcases showBlock_cases v id with he | ⟨a, p, -, hp, -, he⟩ | he <;> rw [he]
  · exact hasLoaded_setPlayer hp (loaded_addComment p id a) side
  · cases side <;> rfl

theorem anchor?_showBlock (v : Review W) (id id' : BlockId) :
    (v.showBlock id).anchor? id' = v.anchor? id' :=
  anchor?_congr (reviewable_showBlock v id) id'

theorem drawsAnew_showBlock : (v.showBlock id).DrawsAnew side id ↔ v.DrawsAnew side id := by
  simp only [DrawsAnew, hasLoaded_showBlock, anchor?_showBlock]

theorem player_showBlock_loaded (ha : v.anchor? id = some a)
    (hp : v.player (revisionOf a) = some p) (hl : p.loaded = true) :
    (v.showBlock id).player (revisionOf a) = some (p.addComment id a).2 := by
  rw [showBlock_loaded ha hp hl, player_setPlayer, if_pos rfl]

/-- A block that waits, that has no span or that is not there is shown twice as if once. -/
theorem showBlock_showBlock (h : ∀ side, ¬ v.DrawsAnew side id) :
    (v.showBlock id).showBlock id = v.showBlock id := by
  cases ha : v.anchor? id with
  | none =>
    have hsame : v.showBlock id = v := by simp only [Review.showBlock, ha]
    rw [hsame, hsame]
  | some a =>
    have ha' : (v.showBlock id).anchor? id = some a := (anchor?_showBlock v id id).trans ha
    by_cases hl : v.HasLoaded (revisionOf a)
    · obtain ⟨p, hp, hpl⟩ := hl
      have hspan := spanOf?_eq_none h ha ⟨p, hp, hpl⟩
      have hq := player_showBlock_loaded ha hp hpl
      rw [showBlock_loaded ha' hq ((loaded_addComment p id a).trans hpl),
        Player.addComment_nothing (Player.current_addComment p id a) hspan,
        showBlock_loaded ha hp hpl, setPlayer_setPlayer]
    · have hwaits : id ∈ (v.showBlock id).pending := by
        rw [showBlock_waits ha hl]
        split
        · next hin => simpa using hin
        · simp
      rw [showBlock_waits ha' (by rwa [hasLoaded_showBlock]), if_pos (by simpa using hwaits)]

/-- A block with a span gets a region of its own each time it is shown. -/
theorem DrawsAnew.regionsOf_showBlock (h : v.DrawsAnew side id) :
    ∃ region, (v.showBlock id).regionsOf side id = v.regionsOf side id ++ [region] := by
  obtain ⟨⟨p, hp, hl⟩, a, span, ha, rfl, hs⟩ := h
  rw [regionsOf_some (player_showBlock_loaded ha hp hl), regionsOf_some hp]
  exact Player.regionsOf_addComment hs

theorem sameShown_showBlock_iff (v : Review W) (id : BlockId) :
    ((v.showBlock id).showBlock id).SameShown (v.showBlock id) ↔
      ∀ side, ¬ v.DrawsAnew side id := by
  constructor
  · intro hsame side hd
    obtain ⟨region, hr⟩ := (drawsAnew_showBlock.mpr hd).regionsOf_showBlock
    rw [hsame.regionsOf_eq] at hr
    simp at hr
  · intro h
    rw [showBlock_showBlock h]
    exact sameShown_refl _

/-! ### Taken away -/

/-- A block that is shown on a player that has loaded has got the region that was drawn, if any. -/
theorem current_showBlock (ha : v.anchor? id = some a) (hl : v.HasLoaded (revisionOf a))
    (hp : (v.showBlock id).player (revisionOf a) = some p) : p.current = none := by
  obtain ⟨q, hq, hql⟩ := hl
  obtain rfl := Option.some.inj ((player_showBlock_loaded ha hq hql).symm.trans hp)
  exact Player.current_addComment q id a

theorem player_removeBlock_own (ha : v.anchor? id = some a)
    (hp : v.player (revisionOf a) = some p) :
    (v.removeBlock id).2.player (revisionOf a) = some (p.removeComment id) := by
  rw [player_removeBlock, ha, hp]
  simp

/-- All regions of a block that was shown twice on a player that has loaded stay, but for one. -/
theorem DrawsAnew.regionsOf_removeBlock (h : v.DrawsAnew side id) :
    ((((v.showBlock id).showBlock id).removeBlock id).2.regionsOf side id).length =
      (v.regionsOf side id).length + 1 := by
  have honce := drawsAnew_showBlock.mpr h
  obtain ⟨r, hr⟩ := h.regionsOf_showBlock
  obtain ⟨r', hr'⟩ := honce.regionsOf_showBlock
  obtain ⟨⟨p, hp, -⟩, a, -, ha, rfl, -⟩ := drawsAnew_showBlock.mpr honce
  have hc := current_showBlock ((anchor?_showBlock _ id id).symm.trans ha) honce.1 hp
  rw [regionsOf_some (player_removeBlock_own ha hp), Player.regionsOf_removeComment hc,
    ← regionsOf_some hp, hr', hr]
  simp

/-- A block that has one region at most on each player takes it with it. -/
theorem clears_of_length_le (h : ∀ b, v.reviewable.find? id = some b → ∀ side p,
    v.player side = some p → p.regionsOf id ≠ [] → (p.regionsOf id).length ≤ 1 ∧
      p.current = none ∧ ∃ a, v.anchor? id = some a ∧ revisionOf a = side) : v.Clears id := by
  intro b hb side
  cases hp : v.player side with
  | none =>
    have hp' : (v.removeBlock id).2.player side = none := by
      rw [player_removeBlock, hp]
      simp
    simp [regionsOf, hp, hp']
  | some p =>
    rw [regionsOf_some hp]
    cases hr : p.regionsOf id with
    | nil =>
      refine ⟨?_, by simp⟩
      rw [regionsOf, player_removeBlock, hp]
      split
      · exact List.sublist_nil.mp (hr ▸ Player.regionsOf_removeComment_sublist p id id)
      · exact hr
    | cons region regions =>
      obtain ⟨hone, hc, a, ha, rfl⟩ := h b hb side p hp (by simp [hr])
      obtain rfl : regions = [] := by simpa [hr] using hone
      have hp' := player_removeBlock_own ha hp
      refine ⟨?_, ?_⟩
      · rw [regionsOf_some hp', Player.regionsOf_removeComment hc, hr]
        rfl
      · rintro region' hmem span ⟨q, hq, hshows⟩
        obtain rfl := List.mem_singleton.mp hmem
        obtain rfl : p.removeComment id = q := Option.some.inj (hp'.symm.trans hq)
        exact Player.not_shows_removeComment hc (by simp [hr]) hshows

/-- A block that does not get a new region each time it is shown takes its regions with it. -/
theorem Orderly.clears_showBlock (h : (v.showBlock id).Orderly)
    (hn : ∀ side, ¬ v.DrawsAnew side id) : (v.showBlock id).Clears id := by
  refine clears_of_length_le fun b hb side p hp hregions => ?_
  have hfits := h.fits side p hp
  obtain ⟨c, hc, rfl⟩ : ∃ c ∈ p.comments, c.2 = id := by
    by_contra hnone
    exact hregions (Player.regionsOf_eq_nil fun c hc he => hnone ⟨c, hc, he⟩)
  obtain ⟨a, hba, rfl⟩ := hfits.ofSide c hc b hb
  have ha : v.anchor? c.2 = some a := by
    rw [← anchor?_showBlock v c.2]
    simp [anchor?, hb, hba]
  have hl : p.loaded = true := by
    by_contra hl
    rw [hfits.empty (by simpa using hl)] at hc
    cases hc
  have hload : v.HasLoaded (revisionOf a) := by
    rw [← hasLoaded_showBlock v c.2]
    exact ⟨p, hp, hl⟩
  have hspare := hfits.spare c.2 b a hb hba (spanOf?_eq_none hn ha hload)
  rw [List.length_append] at hspare
  exact ⟨Nat.le_of_add_right_le hspare, current_showBlock ha hload hp, a,
    (anchor?_showBlock v c.2 c.2).trans ha, rfl⟩

/-! ### Calls -/

/-- What can be asked of a review and of its players, in any order. -/
inductive Call where
  /-- The players are made, or made anew. -/
  | render
  | step (s : Step)
  | showBlock (id : BlockId)
  | create (a : Anchor)
  | add (comments : List Comment)
  /-- A block is taken away from the reviewable alone. -/
  | discard (id : BlockId)
  /-- The waveform tells of a region. -/
  | drawn (side : Revision) (region : RegionId) (span : TimeSpan)
  | spectrogram (visible : Bool)
  | control (side : Revision) (c : Player.Control)

/-- What is refused changes nothing. -/
def call (v : Review W) : Call → Review W
  | .render => v.renderContent?.getD v
  | .step s => v.step s
  | .showBlock id => v.showBlock id
  | .create a =>
    match v.reviewable.create a with
    | .ok (_, r) => { v with reviewable := r }
    | .error _ => v
  | .add comments =>
    match v.reviewable.add comments with
    | .ok (_, r) => { v with reviewable := r }
    | .error _ => v
  | .discard id =>
    match v.reviewable.remove id with
    | some (_, r) => { v with reviewable := r }
    | none => v
  | .drawn side region span => (v.regionDrawn side region span).2
  | .spectrogram visible => v.setSpectrogram visible
  | .control side c =>
    match v.player side with
    | some p => v.setPlayer (p.control c) side
    | none => v

def calls (v : Review W) (cs : List Call) : Review W := cs.foldl call v

theorem Orderly.showBlock (h : v.Orderly) (id : BlockId) : (v.showBlock id).Orderly := by
  rcases showBlock_cases v id with he | ⟨a, p, ha, hp, hl, he⟩ | he <;> rw [he]
  · exact h
  · obtain ⟨b, hb, hba⟩ := find?_of_anchor? ha
    exact h.setPlayer ((h.fits _ p hp).addComment h.sound hl hb hba rfl)
  · exact h.withPending _

theorem Orderly.showAll (h : v.Orderly) (ids : List BlockId) :
    (ids.foldl Review.showBlock v).Orderly := by
  induction ids generalizing v with
  | nil => exact h
  | cons id ids ih => exact ih (h.showBlock id)

theorem Orderly.loadGroups (h : v.Orderly) (gs : List CommentGroup) :
    (v.loadGroups gs).2.Orderly := by
  induction gs generalizing v with
  | nil => exact h
  | cons g gs ih =>
    rw [Review.loadGroups]
    split
    · exact h
    · next hadd => exact ih (h.withReviewable (h.sound.follows_add hadd))
    · next hadd => exact ih ((h.withReviewable (h.sound.follows_add hadd)).showBlock _)

theorem Orderly.fileLoaded (h : v.Orderly) (side : Revision) : (v.fileLoaded side).2.Orderly := by
  cases hp : v.player side with
  | none => simpa only [Review.fileLoaded, hp] using h
  | some p =>
    rw [fileLoaded_eq hp]
    have hmoved : (v.withoutWaiting side).Orderly := h.withPending _
    exact (hmoved.setPlayer (h.fits side p hp).fileLoaded).showAll _

theorem Orderly.removeBlock (h : v.Orderly) (id : BlockId) : (v.removeBlock id).2.Orderly := by
  refine Orderly.follows (v := v) ?_ fun s q hq => ?_
  · cases hr : v.reviewable.remove id with
    | none =>
      simp only [Review.removeBlock, hr]
      exact h.sound.follows_self
    | some br =>
      rw [(removeBlock_some hr).1]
      exact h.sound.follows_remove hr
  · rw [player_removeBlock] at hq
    split at hq
    · obtain ⟨p, hp, rfl⟩ := Option.map_eq_some_iff.mp hq
      exact (h.fits s p hp).removeComment id
    · exact h.fits s q hq

/-- The block made for a region that was drawn gets it, or waits with it. -/
theorem Orderly.showDrawn (h : v.Orderly) (ha : v.anchor? id = some a)
    (hs : revisionOf a = side) (hspan : spanOf? a ≠ none) (hp : v.player side = some p)
    (w : W) (region : RegionId) :
    ((v.setPlayer { p with waveform := w, current := some region } side).showBlock id).Orderly := by
  subst hs
  have hfits := h.fits _ p hp
  by_cases hl : p.loaded = true
  · obtain ⟨b, hb, hba⟩ := find?_of_anchor? ha
    rw [showBlock_loaded (p := { p with waveform := w, current := some region })
      (anchor?_setPlayer.trans ha) (by rw [player_setPlayer, if_pos rfl]) hl, setPlayer_setPlayer]
    exact h.setPlayer (hfits.place h.sound hl hb hba rfl (absurd · hspan) w region)
  · have hempty := hfits.empty (by simpa using hl)
    have hdrawn : Player.Fits { p with waveform := w, current := some region } v.reviewable
        (revisionOf a) :=
      ⟨fun _ => hempty, hfits.named, hfits.ofSide, by simp [Player.regionsOf, hempty]⟩
    exact (h.setPlayer hdrawn).showBlock id

theorem Orderly.regionDrawn (h : v.Orderly) (side : Revision) (region : RegionId)
    (span : TimeSpan) : (v.regionDrawn side region span).2.Orderly := by
  cases hp : v.player side with
  | none => simpa only [Review.regionDrawn, hp] using h
  | some p =>
    have hfits := h.fits side p hp
    cases hc : p.current with
    | some drawn =>
      simp only [Review.regionDrawn, hp, Player.regionDrawn, hc, List.isEmpty_nil, if_true]
      exact h.setPlayer (hfits.congr rfl hc.symm rfl)
    | none =>
      by_cases hm : v.reviewable.medium = .audio
      · have hpush := h.withReviewable
          (h.sound.follows_push (a := .audio (drawnAnchor side span)) hm.symm [])
        have hp' : Review.player { v with
            reviewable := (v.reviewable.push (.audio (drawnAnchor side span)) []).2 } side =
              some p := by
          rw [← hp]
          cases side <;> rfl
        have hshown := hpush.showDrawn ((anchor?_push h.sound _ _ _).trans (if_pos rfl))
          (revisionOf_drawnAnchor side span) (by simp [spanOf?, drawnAnchor]) hp' p.waveform region
        simp only [Review.regionDrawn, hp, Player.regionDrawn, hc, List.isEmpty_cons,
          Bool.false_eq_true, if_false, reviewable_setPlayer, Reviewable.create, Anchor.medium, hm,
          if_true]
        cases side <;> exact hshown
      · simp only [Review.regionDrawn, hp, Player.regionDrawn, hc, List.isEmpty_cons,
          Bool.false_eq_true, if_false, reviewable_setPlayer, Reviewable.create, Anchor.medium,
          Ne.symm hm]
        -- A block with an anchor on audio would be of another medium than its reviewable.
        refine h.setPlayer ⟨hfits.empty, hfits.named, hfits.ofSide, fun i b a hb ha _ => ?_⟩
        have hanchored := h.sound.anchored b (List.mem_of_find?_eq_some hb)
        rw [ha] at hanchored
        exact absurd hanchored.symm hm

theorem Orderly.drawOn (h : v.Orderly) (side : Revision) (span : TimeSpan) :
    (v.drawOn side span).2.Orderly := by
  cases hp : v.player side with
  | none => simpa only [Review.drawOn, hp] using h
  | some p =>
    have hdrawn : Player.Fits { p with waveform := (draw p.waveform span).2 } v.reviewable side :=
      (h.fits side p hp).congr rfl rfl rfl
    simp only [Review.drawOn, hp]
    exact (h.setPlayer hdrawn).regionDrawn side _ span

/-- Players that are made anew have no regions. -/
theorem Orderly.render (h : v.Orderly) : (v.renderContent?.getD v).Orderly := by
  have hnew (u : Review W) (url : String) (s : Revision) :
      (newPlayer v.options url : Player W).Fits u.reviewable s :=
    Player.fits_of_no_regions rfl rfl
  unfold renderContent?
  split
  · exact h
  · cases hu : v.options.earlierUrl with
    | none => exact h.setPlayer (hnew v _ .later)
    | some url => exact (h.setPlayer (hnew v url .earlier)).setPlayer (hnew _ _ .later)

theorem Orderly.step (h : v.Orderly) (s : Step) : (v.step s).Orderly := by
  cases s with
  | load comments => exact h.loadGroups _
  | loaded side => exact h.fileLoaded side
  | draw side span => exact h.drawOn side span
  | remove id => exact h.removeBlock id

theorem Orderly.call (h : v.Orderly) (c : Call) : (v.call c).Orderly := by
  cases c with
  | render => exact h.render
  | step s => exact h.step s
  | showBlock id => exact h.showBlock id
  | create a =>
    rw [Review.call]
    split
    · next hcreate => exact h.withReviewable (h.sound.follows_create hcreate)
    · exact h
  | add comments =>
    rw [Review.call]
    split
    · next hadd => exact h.withReviewable (h.sound.follows_add hadd)
    · exact h
  | discard id =>
    rw [Review.call]
    split
    · next hremove => exact h.withReviewable (h.sound.follows_remove hremove)
    · exact h
  | drawn side region span => exact h.regionDrawn side region span
  | spectrogram visible => exact h.setSpectrogram visible
  | control side c =>
    rw [Review.call]
    split
    · next p hp => exact h.setPlayer ((h.fits side p hp).control c)
    · exact h

theorem Orderly.calls (h : v.Orderly) (cs : List Call) : (v.calls cs).Orderly := by
  induction cs generalizing v with
  | nil => exact h
  | cons c cs ih => exact ih (h.call c)

/-- However a review came about, a block that is shown again is as if shown once, and leaves nothing
behind when it is taken away, if and only if it has no span or its player has not loaded. Otherwise
it gets one more region each time it is shown, and only one of them goes with it. -/
theorem showBlock_again_iff {r : Reviewable} (hr : r.Sound) (o : Options) (cs : List Call)
    (id : BlockId) :
    let v : Review W := (Review.new r o).calls cs
    let once := v.showBlock id
    let twice := once.showBlock id
    (twice.SameShown once ↔ ∀ side, ¬ v.DrawsAnew side id) ∧
      (twice.Clears id ↔ ∀ side, ¬ v.DrawsAnew side id) ∧
      ∀ side, v.DrawsAnew side id →
        (twice.regionsOf side id).length = (once.regionsOf side id).length + 1 ∧
        ((twice.removeBlock id).2.regionsOf side id).length = (v.regionsOf side id).length + 1 := by
  intro v once twice
  have hv : v.Orderly := (orderly_new hr o).calls cs
  refine ⟨sameShown_showBlock_iff v id, ⟨fun hclears side hd => ?_, fun hn => ?_⟩,
    fun side hd => ?_⟩
  · obtain ⟨-, a, -, ha, -⟩ := drawsAnew_showBlock.mpr (drawsAnew_showBlock.mpr hd)
    obtain ⟨b, hb, -⟩ := find?_of_anchor? ha
    have hleft := hd.regionsOf_removeBlock
    rw [(hclears b hb side).1] at hleft
    cases hleft
  · have htwice : twice = once := showBlock_showBlock hn
    rw [htwice]
    exact Orderly.clears_showBlock (hv.showBlock id) hn
  · obtain ⟨region, hregion⟩ := (drawsAnew_showBlock.mpr hd).regionsOf_showBlock
    refine ⟨?_, hd.regionsOf_removeBlock⟩
    rw [hregion, List.length_append]
    rfl

/-- A block waits for its player and is shown twice. -/
theorem showBlock_again_iff_waiting :
    let r := Reviewable.new .audio ⟨"take", 1⟩
    let o : Options := ⟨"later.wav", none, false, false, [1], Settings.default⟩
    let v : Review Waveform :=
      (Review.new r o).calls [.render, .create (.audio ⟨some 1, some 2, false⟩)]
    r.Sound ∧ ((v.showBlock ⟨1⟩).showBlock ⟨1⟩).SameShown (v.showBlock ⟨1⟩) ∧
      ((v.showBlock ⟨1⟩).showBlock ⟨1⟩).Clears ⟨1⟩ ∧
      ((v.showBlock ⟨1⟩).showBlock ⟨1⟩).pending = [⟨1⟩] := by
  intro r o v
  have hr : r.Sound := Reviewable.sound_of_no_blocks rfl
  have hn : ∀ side, ¬ v.DrawsAnew side ⟨1⟩ := by
    rintro side ⟨⟨p, hp, hl⟩, -⟩
    cases side with
    | earlier => cases hp
    | later =>
      obtain rfl := Option.some.inj hp
      cases hl
  obtain ⟨hsame, hclears, -⟩ := showBlock_again_iff (W := Waveform) hr o
    [.render, .create (.audio ⟨some 1, some 2, false⟩)] ⟨1⟩
  exact ⟨hr, hsame.mpr hn, hclears.mpr hn, rfl⟩

/-- The player of a block has loaded when the block is shown twice. It gets two regions, and the
second one stays when the block is taken away. -/
theorem not_showBlock_again_loaded :
    let r := Reviewable.new .audio ⟨"take", 1⟩
    let o : Options := ⟨"later.wav", none, false, false, [1], Settings.default⟩
    let v : Review Waveform := (Review.new r o).calls
      [.render, .step (.loaded .later), .create (.audio ⟨some 1, some 2, false⟩)]
    let twice := (v.showBlock ⟨1⟩).showBlock ⟨1⟩
    ¬ twice.SameShown (v.showBlock ⟨1⟩) ∧ ¬ twice.Clears ⟨1⟩ ∧
      (twice.removeBlock ⟨1⟩).2.later.map Player.comments = some [(⟨2⟩, ⟨1⟩)] := by
  intro r o v twice
  refine ⟨fun hsame => ?_, fun hclears => ?_, rfl⟩
  · cases hsame.comments .later
  · cases (hclears _ rfl .later).1

end Review

end Marginalia.Audio
