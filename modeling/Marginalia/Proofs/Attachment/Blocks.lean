import Marginalia.Attachment.Reviewable

/-! Blocks of comments and their names. A block is found by its name, and no block gets the name of
another one, not even of one that was taken away. -/

namespace Marginalia.Attachment

/-- Where keys are distinct, the first member with a key is the only one. -/
theorem eraseP_eq_filter {α β : Type} [DecidableEq β] {f : α → β} {l : List α}
    (h : (l.map f).Nodup) (k : β) :
    l.eraseP (fun a => f a = k) = l.filter fun a => f a ≠ k := by
  induction l with
  | nil => rfl
  | cons a l ih =>
    obtain ⟨ha, hl⟩ := List.nodup_cons.mp h
    by_cases hk : f a = k
    · have hrest : l.filter (fun a => f a ≠ k) = l := by
        apply List.filter_eq_self.mpr
        intro c hc
        have hne : f c ≠ k := fun he => ha (List.mem_map.mpr ⟨c, hc, he.trans hk.symm⟩)
        simpa using hne
      rw [List.eraseP_cons_of_pos (by simpa using hk), List.filter_cons_of_neg (by simpa using hk),
        hrest]
    · rw [List.eraseP_cons_of_neg (by simpa using hk), List.filter_cons_of_pos (by simpa using hk),
        ih hl]

namespace Reviewable

variable {r r' : Reviewable} {id : BlockId} {b : Block}

/-- Blocks have names of their own, all of them given out before, and anchors on the medium. -/
structure Sound (r : Reviewable) : Prop where
  named : ∀ b ∈ r.blocks, b.id.number < r.next
  distinct : (r.blocks.map Block.id).Nodup
  anchored : ∀ b ∈ r.blocks, b.anchor.medium = r.medium

theorem sound_of_no_blocks (h : r.blocks = []) : r.Sound := by
  constructor <;> simp [h]

theorem find?_next (h : r.Sound) : r.find? ⟨r.next⟩ = none := by
  apply List.find?_eq_none.mpr
  intro b hb he
  have hn := h.named b hb
  simp only [decide_eq_true_eq] at he
  simp [he] at hn

/-- A new block is found by its name, and all others by theirs. -/
theorem find?_push (h : r.Sound) (a : Anchor) (cs : List Comment) (id : BlockId) :
    (r.push a cs).2.find? id =
      if id = ⟨r.next⟩ then some ⟨⟨r.next⟩, r.info.attachment, a, cs⟩ else r.find? id := by
  have hnew := find?_next h
  rw [find?] at hnew
  simp only [push, find?, List.find?_append]
  by_cases hid : id = ⟨r.next⟩
  · subst hid
    simp [hnew]
  · cases hb : r.blocks.find? fun b => b.id = id <;> simp [hid, Ne.symm hid]

theorem Sound.push (h : r.Sound) {a : Anchor} (ha : a.medium = r.medium) (cs : List Comment) :
    (r.push a cs).2.Sound where
  named b hb := by
    rcases List.mem_append.mp hb with hb | hb
    · exact Nat.lt_succ_of_lt (h.named b hb)
    · obtain rfl := List.mem_singleton.mp hb
      exact Nat.lt_succ_self _
  distinct := by
    simp only [Reviewable.push, List.map_append, List.map_cons, List.map_nil]
    refine List.nodup_append.mpr ⟨h.distinct, by simp, ?_⟩
    intro i hi j hj he
    obtain ⟨b, hb, rfl⟩ := List.mem_map.mp hi
    obtain rfl := List.mem_singleton.mp hj
    have hn := h.named b hb
    simp [he] at hn
  anchored b hb := by
    rcases List.mem_append.mp hb with hb | hb
    · exact h.anchored b hb
    · obtain rfl := List.mem_singleton.mp hb
      exact ha

theorem remove_eq_some (h : r.remove id = some (b, r')) :
    r.find? id = some b ∧ r' = { r with blocks := r.blocks.eraseP fun b => b.id = id } := by
  obtain ⟨b', hb, he⟩ := Option.map_eq_some_iff.mp h
  obtain ⟨rfl, rfl⟩ := Prod.mk.inj he
  exact ⟨hb, rfl⟩

theorem Sound.remove (h : r.Sound) (hr : r.remove id = some (b, r')) : r'.Sound := by
  obtain ⟨-, rfl⟩ := remove_eq_some hr
  have hsub : (r.blocks.eraseP fun b => b.id = id).Sublist r.blocks := List.eraseP_sublist
  exact ⟨fun b hb => h.named b (hsub.subset hb), (hsub.map Block.id).nodup h.distinct,
    fun b hb => h.anchored b (hsub.subset hb)⟩

/-- A block that was taken away is not found any more, and all others are. -/
theorem find?_remove (h : r.Sound) (hr : r.remove id = some (b, r')) (id' : BlockId) :
    r'.find? id' = if id' = id then none else r.find? id' := by
  obtain ⟨-, rfl⟩ := remove_eq_some hr
  rw [find?, find?, eraseP_eq_filter h.distinct, List.find?_filter]
  split
  · next he =>
    subst he
    simp
  · next he =>
    congr 1
    funext b
    by_cases hb : b.id = id'
    · simp [hb, he]
    · simp [hb]

/-! ### Changes -/

/-- What becomes of a reviewable: blocks come with new names and go, and the others are as they
were. -/
structure Follows (r r' : Reviewable) : Prop where
  sound : r'.Sound
  next : r.next ≤ r'.next
  old : ∀ id, id.number < r.next → r'.find? id = none ∨ r'.find? id = r.find? id

theorem Sound.follows_self (h : r.Sound) : r.Follows r := ⟨h, Nat.le_refl _, fun _ _ => Or.inr rfl⟩

theorem Sound.follows_push (h : r.Sound) {a : Anchor} (ha : a.medium = r.medium)
    (cs : List Comment) : r.Follows (r.push a cs).2 where
  sound := h.push ha cs
  next := Nat.le_succ _
  old id hid := by
    rw [find?_push h, if_neg]
    · exact Or.inr rfl
    · rintro rfl
      exact Nat.lt_irrefl _ hid

theorem Sound.follows_remove (h : r.Sound) (hr : r.remove id = some (b, r')) : r.Follows r' where
  sound := h.remove hr
  next := by
    obtain ⟨-, rfl⟩ := remove_eq_some hr
    exact Nat.le_refl _
  old id' _ := by
    rw [find?_remove h hr]
    split
    · exact Or.inl rfl
    · exact Or.inr rfl

theorem Sound.follows_create (h : r.Sound) {a : Anchor} (hr : r.create a = .ok (id, r')) :
    r.Follows r' := by
  rw [create] at hr
  split at hr
  · next ha =>
    obtain ⟨-, rfl⟩ := Prod.mk.inj (Except.ok.inj hr)
    exact h.follows_push ha []
  · cases hr

theorem exists_of_map_eq_ok {ε α β : Type} {x : Except ε α} {f : α → β} {y : β}
    (h : x.map f = .ok y) : ∃ a, x = .ok a ∧ f a = y := by
  cases x with
  | error e => cases h
  | ok a => exact ⟨a, rfl, Except.ok.inj h⟩

theorem medium_ofFields {m : Medium} {fs : Fields} {a : Anchor} (h : Anchor.ofFields m fs = .ok a) :
    a.medium = m := by
  cases m with
  | audio =>
    obtain rfl := Except.ok.inj h
    rfl
  | text =>
    obtain ⟨t, -, rfl⟩ := exists_of_map_eq_ok h
    rfl
  | xml =>
    obtain ⟨t, -, rfl⟩ := exists_of_map_eq_ok h
    rfl

theorem Sound.follows_add (h : r.Sound) {cs : List Comment} {made : Option BlockId}
    (hr : r.add cs = .ok (made, r')) : r.Follows r' := by
  cases cs with
  | nil =>
    obtain ⟨-, rfl⟩ := Prod.mk.inj (Except.ok.inj hr)
    exact h.follows_self
  | cons c cs =>
    obtain ⟨a, ha, he⟩ := exists_of_map_eq_ok hr
    obtain ⟨-, rfl⟩ := Prod.mk.inj he
    exact h.follows_push (medium_ofFields ha) _

end Reviewable

end Marginalia.Attachment
