import Mathlib.Data.List.Induction
import Marginalia.Proofs.Audio.Regions

/-! Comments on a recording in groups. Every comment that has the fields of an anchor is in one
group, that of its key; groups stand in the order in which their keys appear first, and comments in
a group in the order in which they came. An index from keys to the places of groups finds the same
ones. -/

namespace Marginalia.Audio

open Attachment (Anchor Block Comment Reviewable)

/-- A comment has all fields of an anchor on a recording. -/
def hasAnchor (c : Comment) : Bool :=
  (Anchor.fieldNames .audio).all fun name => (Json.lookup name c.fields).isSome

/-- Groups hold the comments that have anchors, each comment once. -/
structure Partitions (cs : List Comment) (gs : List CommentGroup) : Prop where
  distinct : (gs.map CommentGroup.key).Nodup
  ordered : gs.map CommentGroup.key = (cs.filterMap key?).eraseDups
  own : ∀ g ∈ gs, g.comments = cs.filter fun c => key? c = some g.key
  once : (gs.flatMap CommentGroup.comments).Perm (cs.filter hasAnchor)

/-! ### Lists without repeated members -/

section Distinct

variable {α : Type} [BEq α] [LawfulBEq α] {l : List α} {a : α}

theorem eraseDups_concat_of_mem (h : a ∈ l) : (l ++ [a]).eraseDups = l.eraseDups := by
  rw [List.eraseDups_append]
  simp [List.removeAll, h]

theorem eraseDups_concat_of_notMem (h : a ∉ l) : (l ++ [a]).eraseDups = l.eraseDups ++ [a] := by
  have hnew : [a].removeAll l = [a] := by simp [List.removeAll, h]
  rw [List.eraseDups_append, hnew, List.eraseDups_cons, List.filter_nil, List.eraseDups_nil]

theorem nodup_eraseDups (l : List α) : l.eraseDups.Nodup := by
  induction l using List.reverseRecOn with
  | nil => exact List.nodup_nil
  | append_singleton l a ih =>
    by_cases h : a ∈ l
    · rwa [eraseDups_concat_of_mem h]
    · rw [eraseDups_concat_of_notMem h]
      have hnew : a ∉ l.eraseDups := fun hm => h (List.mem_eraseDups.mp hm)
      exact List.nodup_append.mpr ⟨ih, List.nodup_singleton a, by
        rintro b hb c hc rfl
        exact hnew (List.mem_singleton.mp hc ▸ hb)⟩

end Distinct

section Grouping

variable {cs : List Comment} {c : Comment} {key : String} {keys : List String}
  {gs : List CommentGroup}

/-- The comments with a key, in order. -/
def groupOf (cs : List Comment) (key : String) : CommentGroup :=
  ⟨key, cs.filter fun c => key? c = some key⟩

theorem isSome_key? (c : Comment) : (key? c).isSome = hasAnchor c := by
  unfold key? hasAnchor
  simp only [Anchor.fieldNames, List.all_cons, List.all_nil]
  cases Json.lookup "start" c.fields <;> cases Json.lookup "end" c.fields <;>
    cases Json.lookup "attachedToEarlierRevision" c.fields <;> rfl

theorem groupOf_concat (hc : key? c = some key) :
    groupOf (cs ++ [c]) key = ⟨key, (groupOf cs key).comments ++ [c]⟩ := by
  simp [groupOf, hc]

theorem groupOf_concat_of_ne {k : String} (hc : key? c ≠ some k) :
    groupOf (cs ++ [c]) k = groupOf cs k := by
  simp [groupOf, hc]

theorem groupOf_eq_nil (h : key ∉ cs.filterMap key?) : (groupOf cs key).comments = [] := by
  apply List.filter_eq_nil_iff.mpr
  intro c hc he
  exact h (List.mem_filterMap.mpr ⟨c, hc, of_decide_eq_true he⟩)

/-- A comment joins the group with its key, and leaves all others as they are. -/
theorem insertComment_of_mem (hc : key? c = some key) (hn : keys.Nodup) (hm : key ∈ keys) :
    insertComment key c (keys.map (groupOf cs)) = keys.map (groupOf (cs ++ [c])) := by
  induction keys with
  | nil => cases hm
  | cons k keys ih =>
    obtain ⟨hk, hn⟩ := List.nodup_cons.mp hn
    rw [List.map_cons, List.map_cons, insertComment]
    by_cases he : k = key
    · subst he
      have hrest : keys.map (groupOf cs) = keys.map (groupOf (cs ++ [c])) := by
        apply List.map_congr_left
        intro k' hk'
        refine (groupOf_concat_of_ne ?_).symm
        rw [hc]
        exact fun he => hk (Option.some.inj he ▸ hk')
      have hkey : (groupOf cs k).key = k := rfl
      rw [if_pos hkey, groupOf_concat hc, hrest]
      rfl
    · have hne : key? c ≠ some k := fun h => he (Option.some.inj (hc.symm.trans h)).symm
      have hm : key ∈ keys := (List.mem_cons.mp hm).resolve_left (Ne.symm he)
      have hkey : (groupOf cs k).key ≠ key := he
      rw [if_neg hkey, groupOf_concat_of_ne hne, ih hn hm]

/-- A comment with a new key comes in a group behind the others. -/
theorem insertComment_of_notMem (hc : key? c = some key) (hm : key ∉ keys)
    (hempty : (groupOf cs key).comments = []) :
    insertComment key c (keys.map (groupOf cs)) = (keys ++ [key]).map (groupOf (cs ++ [c])) := by
  induction keys with
  | nil =>
    rw [List.nil_append, List.map_singleton, groupOf_concat hc, hempty]
    rfl
  | cons k keys ih =>
    obtain ⟨he, hm⟩ := not_or.mp (mt List.mem_cons.mpr hm)
    have hne : key? c ≠ some k := fun h => he (Option.some.inj (hc.symm.trans h))
    have hkey : (groupOf cs k).key ≠ key := Ne.symm he
    rw [List.map_cons, List.cons_append, List.map_cons, insertComment, if_neg hkey,
      groupOf_concat_of_ne hne, ih hm]

theorem groupComments_concat (cs : List Comment) (c : Comment) :
    groupComments (cs ++ [c]) = match key? c with
      | some key => insertComment key c (groupComments cs)
      | none => groupComments cs := by
  rw [groupComments, List.foldl_append]
  rfl

/-- The groups, told by the keys of the comments. -/
theorem groupComments_eq (cs : List Comment) :
    groupComments cs = (cs.filterMap key?).eraseDups.map (groupOf cs) := by
  induction cs using List.reverseRecOn with
  | nil => rfl
  | append_singleton cs c ih =>
    rw [groupComments_concat, List.filterMap_append]
    cases hc : key? c with
    | none =>
      have hall : ∀ k, groupOf cs k = groupOf (cs ++ [c]) k := by
        intro k
        refine (groupOf_concat_of_ne ?_).symm
        rw [hc]
        simp
      have hkeys : [c].filterMap key? = [] := by simp [hc]
      rw [hkeys, List.append_nil]
      exact ih.trans (List.map_congr_left fun k _ => hall k)
    | some key =>
      have hkeys : [c].filterMap key? = [key] := by simp [hc]
      dsimp only
      rw [hkeys, ih]
      by_cases hm : key ∈ cs.filterMap key?
      · rw [eraseDups_concat_of_mem hm]
        exact insertComment_of_mem hc (nodup_eraseDups _) (List.mem_eraseDups.mpr hm)
      · rw [eraseDups_concat_of_notMem hm]
        exact insertComment_of_notMem hc (mt List.mem_eraseDups.mp hm) (groupOf_eq_nil hm)

/-- Groups with distinct keys hold each comment with one of these keys once. -/
theorem perm_flatMap_groupOf (cs : List Comment) (hn : keys.Nodup) :
    (keys.flatMap fun k => (groupOf cs k).comments).Perm
      (cs.filter fun c => keys.any fun k => key? c = some k) := by
  induction keys with
  | nil => simp
  | cons k keys ih =>
    obtain ⟨hk, hn⟩ := List.nodup_cons.mp hn
    let listed (c : Comment) : Bool := (k :: keys).any fun k => key? c = some k
    have hfirst : (cs.filter listed).filter (fun c => key? c = some k) =
        (groupOf cs k).comments := by
      rw [List.filter_filter]
      apply List.filter_congr
      intro c _
      simp +contextual [listed]
    have hothers : (cs.filter listed).filter (fun c => !decide (key? c = some k)) =
        cs.filter fun c => keys.any fun k => key? c = some k := by
      rw [List.filter_filter]
      apply List.filter_congr
      intro c _
      by_cases he : key? c = some k
      · have hnot : (keys.any fun k => decide (key? c = some k)) = false := by
          simp only [he, Option.some.injEq, List.any_eq_false, decide_eq_true_eq]
          rintro k' hk' rfl
          exact hk hk'
        rw [hnot]
        simp [he]
      · simp [listed, he]
    rw [List.flatMap_cons, ← hfirst]
    refine List.Perm.trans ?_ (List.filter_append_perm (fun c => decide (key? c = some k)) _)
    rw [hothers]
    exact (ih hn).append_left _

theorem partitions_groupComments (cs : List Comment) : Partitions cs (groupComments cs) := by
  have hkeys : (groupComments cs).map CommentGroup.key = (cs.filterMap key?).eraseDups := by
    rw [groupComments_eq, List.map_map]
    exact List.map_id _
  refine ⟨hkeys ▸ nodup_eraseDups _, hkeys, fun g hg => ?_, ?_⟩
  · rw [groupComments_eq] at hg
    obtain ⟨k, -, rfl⟩ := List.mem_map.mp hg
    rfl
  · have hall : (cs.filter fun c => (cs.filterMap key?).eraseDups.any fun k => key? c = some k) =
        cs.filter hasAnchor := by
      apply List.filter_congr
      intro c hc
      rw [← isSome_key?]
      cases hk : key? c with
      | none => simp
      | some k =>
        have hm : k ∈ (cs.filterMap key?).eraseDups :=
          List.mem_eraseDups.mpr (List.mem_filterMap.mpr ⟨c, hc, hk⟩)
        exact List.any_eq_true.mpr ⟨k, hm, decide_eq_true rfl⟩
    rw [groupComments_eq, List.flatMap_map, ← hall]
    exact perm_flatMap_groupOf cs (nodup_eraseDups _)

end Grouping

/-! ### Groups found through an index -/

/-- Groups, and the places of their keys among them. -/
structure GroupIndex where
  groups : List CommentGroup
  places : Std.HashMap String Nat

namespace GroupIndex

def empty : GroupIndex := ⟨[], ∅⟩

/-- A comment goes where the index says, or to a new group behind the others. -/
def add (x : GroupIndex) (c : Comment) : GroupIndex :=
  match key? c with
  | none => x
  | some key =>
    match x.places[key]? with
    | some i =>
      { x with groups := x.groups.modify i fun g => { g with comments := g.comments ++ [c] } }
    | none => ⟨x.groups ++ [⟨key, [c]⟩], x.places.insert key x.groups.length⟩

/-- The index has the places of all keys, and no others. -/
def Right (x : GroupIndex) : Prop :=
  ∀ (key : String) (i : Nat),
    x.places[key]? = some i ↔ (x.groups.map CommentGroup.key)[i]? = some key

variable {x : GroupIndex} {c : Comment} {key : String} {i : Nat} {gs : List CommentGroup}

theorem insertComment_of_getElem? (hn : (gs.map CommentGroup.key).Nodup)
    (hi : (gs.map CommentGroup.key)[i]? = some key) :
    insertComment key c gs = gs.modify i fun g => { g with comments := g.comments ++ [c] } := by
  induction gs generalizing i with
  | nil => simp at hi
  | cons g gs ih =>
    obtain ⟨hg, hn⟩ := List.nodup_cons.mp hn
    rw [insertComment]
    cases i with
    | zero =>
      have he : g.key = key := by simpa using hi
      rw [if_pos he, List.modify_zero_cons]
    | succ i =>
      have hi : (gs.map CommentGroup.key)[i]? = some key := by simpa using hi
      have hne : g.key ≠ key := fun he => hg (he ▸ List.mem_of_getElem? hi)
      rw [if_neg hne, List.modify_succ_cons, ih hn hi]

theorem insertComment_of_new (h : key ∉ gs.map CommentGroup.key) :
    insertComment key c gs = gs ++ [⟨key, [c]⟩] := by
  induction gs with
  | nil => rfl
  | cons g gs ih =>
    obtain ⟨hne, h⟩ := not_or.mp (mt List.mem_cons.mpr h)
    rw [insertComment, if_neg (Ne.symm hne), ih h, List.cons_append]

theorem map_key_modify (c : Comment) (gs : List CommentGroup) (i : Nat) :
    (gs.modify i fun g => { g with comments := g.comments ++ [c] }).map CommentGroup.key =
      gs.map CommentGroup.key := by
  induction gs generalizing i with
  | nil => simp
  | cons g gs ih => cases i <;> simp [ih]

theorem getElem?_concat_eq_some_iff {ks : List String} {k : String} :
    (ks ++ [key])[i]? = some k ↔ ks[i]? = some k ∨ i = ks.length ∧ key = k := by
  rcases Nat.lt_trichotomy i ks.length with hlt | rfl | hgt
  · rw [List.getElem?_append_left hlt]
    simp [Nat.ne_of_lt hlt]
  · simp
  · have hle := Nat.le_of_lt hgt
    rw [List.getElem?_append_right hle, List.getElem?_eq_none hle]
    simp [Nat.ne_of_gt hgt, Nat.sub_ne_zero_of_lt hgt]

/-- The place of a new key is the one behind all others. -/
theorem Right.insert (h : x.Right) (hnew : key ∉ x.groups.map CommentGroup.key)
    (cs : List Comment) :
    Right ⟨x.groups ++ [⟨key, cs⟩], x.places.insert key x.groups.length⟩ := by
  intro k j
  dsimp only
  rw [Std.HashMap.getElem?_insert, List.map_append, List.map_singleton,
    getElem?_concat_eq_some_iff, List.length_map]
  by_cases hk : key = k
  · subst hk
    have hno : (x.groups.map CommentGroup.key)[j]? ≠ some key :=
      fun hj => hnew (List.mem_of_getElem? hj)
    rw [if_pos (beq_self_eq_true key), or_iff_right hno, Option.some.injEq, eq_comm,
      and_iff_left rfl]
  · rw [if_neg (by simpa using hk), h k j, or_iff_left fun hlast => hk hlast.2]

/-- The index leads a comment to the group that a search finds, and stays right. -/
theorem Right.add (h : x.Right) (hn : (x.groups.map CommentGroup.key).Nodup) (c : Comment) :
    (x.add c).Right ∧ (x.add c).groups = match key? c with
      | some key => insertComment key c x.groups
      | none => x.groups := by
  unfold GroupIndex.add
  cases hc : key? c with
  | none => exact ⟨h, rfl⟩
  | some key =>
    dsimp only
    cases hi : x.places[key]? with
    | some i =>
      have hplace := (h key i).mp hi
      refine ⟨fun k j => ?_, (insertComment_of_getElem? hn hplace).symm⟩
      dsimp only
      rw [map_key_modify]
      exact h k j
    | none =>
      have hnew : key ∉ x.groups.map CommentGroup.key := by
        intro hm
        obtain ⟨i, hi'⟩ := List.getElem?_of_mem hm
        rw [(h key i).mpr hi'] at hi
        cases hi
      exact ⟨h.insert hnew [c], (insertComment_of_new hnew).symm⟩

theorem right_foldl (cs : List Comment) :
    (cs.foldl GroupIndex.add empty).Right ∧
      (cs.foldl GroupIndex.add empty).groups = groupComments cs := by
  induction cs using List.reverseRecOn with
  | nil => exact ⟨fun key i => by simp [empty], rfl⟩
  | append_singleton cs c ih =>
    obtain ⟨hright, hgroups⟩ := ih
    have hn : ((cs.foldl GroupIndex.add empty).groups.map CommentGroup.key).Nodup :=
      hgroups ▸ (partitions_groupComments cs).distinct
    obtain ⟨hright', hgroups'⟩ := hright.add hn c
    rw [List.foldl_append, List.foldl_cons, List.foldl_nil]
    refine ⟨hright', ?_⟩
    rw [hgroups', hgroups, groupComments_concat]

end GroupIndex

/-! ### Blocks of groups -/

namespace Review

variable {W : Type} [WaveformPlayer W] {v : Review W}

/-- A recording gets a block for each group, behind the blocks that it has. -/
theorem loadGroups_blocks (hm : v.reviewable.medium = .audio) (gs : List CommentGroup)
    (hne : ∀ g ∈ gs, g.comments ≠ []) :
    (v.loadGroups gs).1 = .ok gs.length ∧
      ∃ new, (v.loadGroups gs).2.reviewable.blocks = v.reviewable.blocks ++ new ∧
        new.map Block.comments = gs.map CommentGroup.comments := by
  induction gs generalizing v with
  | nil => exact ⟨rfl, [], by simp [loadGroups], rfl⟩
  | cons g gs ih =>
    obtain ⟨hg, hne⟩ := List.forall_mem_cons.mp hne
    obtain ⟨c, cs, hcs⟩ := List.exists_cons_of_ne_nil hg
    have hadd : ∃ a, v.reviewable.add g.comments =
        .ok (some ⟨v.reviewable.next⟩, (v.reviewable.push (.audio a) g.comments).2) := by
      rw [hcs, Reviewable.add, hm]
      exact ⟨_, rfl⟩
    obtain ⟨a, hadd⟩ := hadd
    let pushed : Review W :=
      { v with reviewable := (v.reviewable.push (.audio a) g.comments).2 }
    have hshown : (pushed.showBlock ⟨v.reviewable.next⟩).reviewable =
        (v.reviewable.push (.audio a) g.comments).2 := reviewable_showBlock _ _
    obtain ⟨hcount, new, hblocks, hcomments⟩ :=
      ih (v := pushed.showBlock ⟨v.reviewable.next⟩) (by rw [hshown]; exact hm) hne
    rw [hshown] at hblocks
    rw [loadGroups, hadd]
    dsimp only
    rw [hcount]
    refine ⟨rfl, ⟨⟨v.reviewable.next⟩, v.reviewable.info.attachment, .audio a, g.comments⟩ :: new,
      ?_, ?_⟩
    · rw [hblocks, Reviewable.push, List.append_assoc]
      rfl
    · rw [List.map_cons, List.map_cons, hcomments]

/-- Comments are put into groups, the same with an index as without one, and a recording gets a
block for each group. -/
theorem groups_loadComments (hm : v.reviewable.medium = .audio) (cs : List Comment) :
    Partitions cs (groupComments cs) ∧
      (cs.foldl GroupIndex.add .empty).groups = groupComments cs ∧
      (v.loadComments cs).1 = .ok (groupComments cs).length ∧
      ∃ new, (v.loadComments cs).2.reviewable.blocks = v.reviewable.blocks ++ new ∧
        new.map Block.comments = (groupComments cs).map CommentGroup.comments := by
  have hparts := partitions_groupComments cs
  have hne : ∀ g ∈ groupComments cs, g.comments ≠ [] := by
    intro g hg
    have hkey : g.key ∈ (groupComments cs).map CommentGroup.key := List.mem_map_of_mem hg
    rw [hparts.ordered, List.mem_eraseDups] at hkey
    obtain ⟨c, hc, hck⟩ := List.mem_filterMap.mp hkey
    rw [hparts.own g hg]
    exact List.ne_nil_of_mem (List.mem_filter.mpr ⟨hc, decide_eq_true hck⟩)
  exact ⟨hparts, (GroupIndex.right_foldl cs).2, loadGroups_blocks hm _ hne⟩

/-- Two comments with one key around another one, and a comment without a start. -/
theorem groups_loadComments_interleaved :
    let comment (id : UInt64) (start stop : String) : Comment :=
      ⟨id, "", false, false, [("attachedToEarlierRevision", .bool false), ("end", .text stop),
        ("start", .text start)]⟩
    let cs := [comment 1 "1.5" "3", comment 2 "7" "8", comment 3 "1.5" "3",
      ⟨4, "", false, false, [("attachedToEarlierRevision", .bool false), ("end", .int 2)]⟩]
    let v : Review Waveform :=
      .new (.new .audio ⟨"take", 1⟩) ⟨"later.wav", none, false, false, [], Settings.default⟩
    v.reviewable.medium = .audio ∧
      (groupComments cs).map (fun g => (g.key, g.comments.map Comment.id)) =
        [("1.5x3-false", [1, 3]), ("7x8-false", [2])] ∧
      Partitions cs (groupComments cs) ∧
      (cs.foldl GroupIndex.add .empty).groups = groupComments cs ∧
      (v.loadComments cs).1 = .ok (groupComments cs).length ∧
      ∃ new, (v.loadComments cs).2.reviewable.blocks = v.reviewable.blocks ++ new ∧
        new.map Block.comments = (groupComments cs).map CommentGroup.comments := by
  intro comment cs v
  have hm : v.reviewable.medium = .audio := rfl
  exact ⟨hm, by decide, groups_loadComments hm cs⟩

end Review

end Marginalia.Audio
