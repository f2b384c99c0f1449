import Mathlib.Data.List.Forall2
import Marginalia.Proofs.Attachment.Blocks

/-! Comments loaded in batches. Every batch that holds comments becomes a block of its own, in
order, up to the first batch whose anchor cannot be read; the blocks before that one stay. -/

namespace Marginalia.Attachment.Reviewable

open List (Forall₂)

/-- A block that a batch of comments becomes: its anchor is read from the first of them. -/
structure Holds (r : Reviewable) (cs : List Comment) (b : Block) : Prop where
  comments : b.comments = cs
  attachment : b.attachment = r.info.attachment
  anchor : ∃ c, cs.head? = some c ∧ Anchor.ofFields r.medium c.fields = .ok b.anchor

/-- A batch whose anchor cannot be read. -/
def Unreadable (m : Medium) (cs : List Comment) (e : AnchorError) : Prop :=
  ∃ c, cs.head? = some c ∧ Anchor.ofFields m c.fields = .error e

/-- Some batches have become new blocks behind the others, one for each batch that is not empty,
with new names in order. -/
structure Loaded (r r' : Reviewable) (batches : List (List Comment)) (new : List Block) :
    Prop where
  blocks : r'.blocks = r.blocks ++ new
  held : Forall₂ r.Holds (batches.filter fun cs => !cs.isEmpty) new
  named : new.map (fun b => b.id.number) = List.range' r.next new.length
  next : r'.next = r.next + new.length
  medium : r'.medium = r.medium
  info : r'.info = r.info

variable {r r' : Reviewable} {cs : List Comment} {batches : List (List Comment)}
  {new : List Block} {a : Anchor} {c : Comment} {e : AnchorError}

theorem loaded_nil (r : Reviewable) : r.Loaded r [] [] := by
  constructor <;> simp

/-- An empty batch leaves no block. -/
theorem Loaded.empty (h : r.Loaded r' batches new) : r.Loaded r' ([] :: batches) new :=
  { h with held := h.held }

/-- The block of a batch comes before those of the batches behind it. -/
theorem Loaded.push (ha : Anchor.ofFields r.medium c.fields = .ok a)
    (h : (r.push a (c :: cs)).2.Loaded r' batches new) :
    r.Loaded r' ((c :: cs) :: batches)
      (⟨⟨r.next⟩, r.info.attachment, a, c :: cs⟩ :: new) where
  blocks := by
    rw [h.blocks, Reviewable.push, List.append_assoc]
    rfl
  held := .cons ⟨rfl, rfl, c, rfl, ha⟩ (h.held.imp fun _ _ hb => ⟨hb.comments, hb.attachment,
    hb.anchor⟩)
  named := by
    rw [List.map_cons, h.named, List.length_cons, List.range'_succ]
    rfl
  next := by
    rw [h.next, List.length_cons]
    exact Nat.succ_add_eq_add_succ r.next new.length
  medium := h.medium
  info := h.info

theorem load_empty (r : Reviewable) (batches : List (List Comment)) :
    r.load ([] :: batches) = r.load batches := by
  have hmap : (r.load batches).1.map (fun n => n) = (r.load batches).1 := by
    cases (r.load batches).1 <;> rfl
  calc r.load ([] :: batches)
      = ((r.load batches).1.map (fun n => n), (r.load batches).2) := rfl
    _ = r.load batches := by rw [hmap]

theorem load_unreadable (h : Unreadable r.medium cs e) (batches : List (List Comment)) :
    r.load (cs :: batches) = (.error e, r) := by
  obtain ⟨c, hc, he⟩ := h
  cases cs with
  | nil => cases hc
  | cons d cs =>
    obtain rfl := Option.some.inj hc
    simp only [load, add, he, Except.map]

theorem load_push (ha : Anchor.ofFields r.medium c.fields = .ok a) (cs : List Comment)
    (batches : List (List Comment)) :
    r.load ((c :: cs) :: batches) =
      (((r.push a (c :: cs)).2.load batches).1.map (· + 1),
        ((r.push a (c :: cs)).2.load batches).2) := by
  simp only [load, add, ha, Except.map]
  rfl

/-- What becomes of batches: they are all loaded, or those before one that cannot be read. -/
theorem load_cases (r : Reviewable) (batches : List (List Comment)) :
    ∃ done rest new, batches = done ++ rest ∧ r.Loaded (r.load batches).2 done new ∧
      (rest = [] ∧ (r.load batches).1 = .ok new.length ∨
        ∃ cs later e, rest = cs :: later ∧ Unreadable r.medium cs e ∧
          (r.load batches).1 = .error e) := by
  induction batches generalizing r with
  | nil => exact ⟨[], [], [], rfl, loaded_nil r, Or.inl ⟨rfl, rfl⟩⟩
  | cons cs batches ih =>
    cases cs with
    | nil =>
      obtain ⟨done, rest, new, hbatches, hloaded, hout⟩ := ih r
      rw [load_empty]
      exact ⟨[] :: done, rest, new, congrArg _ hbatches, hloaded.empty, hout⟩
    | cons c cs =>
      cases ha : Anchor.ofFields r.medium c.fields with
      | error e =>
        have hbad : Unreadable r.medium (c :: cs) e := ⟨c, rfl, ha⟩
        rw [load_unreadable hbad]
        exact ⟨[], (c :: cs) :: batches, [], rfl, loaded_nil r,
          Or.inr ⟨c :: cs, batches, e, rfl, hbad, rfl⟩⟩
      | ok a =>
        obtain ⟨done, rest, new, hbatches, hloaded, hout⟩ := ih (r.push a (c :: cs)).2
        rw [load_push ha]
        refine ⟨(c :: cs) :: done, rest, _, congrArg _ hbatches, hloaded.push ha, ?_⟩
        rcases hout with ⟨hrest, hcount⟩ | ⟨cs', later, e, hrest, hbad, herror⟩
        · exact Or.inl ⟨hrest, by rw [hcount]; rfl⟩
        · exact Or.inr ⟨cs', later, e, hrest, hbad, by rw [herror]; rfl⟩

theorem Holds.not_unreadable {b : Block} (h : r.Holds cs b) : ¬ Unreadable r.medium cs e := by
  rintro ⟨c, hc, he⟩
  obtain ⟨c', hc', ha⟩ := h.anchor
  obtain rfl := Option.some.inj (hc.symm.trans hc')
  rw [he] at ha
  cases ha

theorem not_unreadable_nil {m : Medium} : ¬ Unreadable m [] e := by
  rintro ⟨c, hc, -⟩
  cases hc

/-- Batches that have become blocks could be read. -/
theorem Loaded.not_unreadable (h : r.Loaded r' batches new) :
    ∀ cs ∈ batches, ∀ e, ¬ Unreadable r.medium cs e := by
  have hheld := h.held.imp fun cs b hb =>
    And.intro (fun (e : AnchorError) => hb.not_unreadable (e := e)) hb
  obtain ⟨hread, -⟩ := (List.forall₂_and_left _ _).mp hheld
  intro cs hcs e
  cases cs with
  | nil => exact not_unreadable_nil
  | cons c cs => exact hread (c :: cs) (List.mem_filter.mpr ⟨hcs, rfl⟩) e

/-- Batches leave the blocks as they were where none of them holds a comment. -/
theorem Loaded.blocks_eq_iff (h : r.Loaded r' batches new) :
    r'.blocks = r.blocks ↔ ∀ cs ∈ batches, cs = [] := by
  have hlength := h.held.length_eq
  rw [h.blocks, List.append_right_eq_self, ← List.length_eq_zero_iff, ← hlength,
    List.length_eq_zero_iff, List.filter_eq_nil_iff]
  simp

theorem not_unreadable_audio : ¬ Unreadable .audio cs e := by
  rintro ⟨c, -, he⟩
  cases he

/-- Where loading succeeds, every batch that holds comments is a new block. Where it fails, the
batches before the first one that cannot be read are, and no others; so the blocks are as they were
where none of those batches holds a comment. It succeeds exactly where every batch can be read,
which those on a recording always can. -/
theorem load_upTo_unreadable (r : Reviewable) (batches : List (List Comment)) :
    (∀ n, (r.load batches).1 = .ok n →
      ∃ new, r.Loaded (r.load batches).2 batches new ∧ n = new.length) ∧
    (∀ e, (r.load batches).1 = .error e →
      ∃ done cs later new, batches = done ++ cs :: later ∧ Unreadable r.medium cs e ∧
        r.Loaded (r.load batches).2 done new ∧
        ((r.load batches).2.blocks = r.blocks ↔ ∀ cs ∈ done, cs = [])) ∧
    ((∃ n, (r.load batches).1 = .ok n) ↔ ∀ cs ∈ batches, ∀ e, ¬ Unreadable r.medium cs e) ∧
    (r.medium = .audio → ∃ n, (r.load batches).1 = .ok n) := by
  obtain ⟨done, rest, new, hbatches, hloaded, hout⟩ := load_cases r batches
  have hall : ∀ n, (r.load batches).1 = .ok n →
      ∃ new, r.Loaded (r.load batches).2 batches new ∧ n = new.length := by
    intro n hn
    rcases hout with ⟨rfl, hcount⟩ | ⟨_, _, _, _, _, herror⟩
    · rw [List.append_nil] at hbatches
      subst hbatches
      exact ⟨new, hloaded, Except.ok.inj (hn.symm.trans hcount)⟩
    · rw [hn] at herror
      cases herror
  have hok : (∀ cs ∈ batches, ∀ e, ¬ Unreadable r.medium cs e) →
      ∃ n, (r.load batches).1 = .ok n := by
    intro hread
    rcases hout with ⟨-, hcount⟩ | ⟨cs, later, e, rfl, hbad, -⟩
    · exact ⟨_, hcount⟩
    · have hmem : cs ∈ batches := by
        rw [hbatches]
        exact List.mem_append_right done List.mem_cons_self
      exact absurd hbad (hread cs hmem e)
  refine ⟨hall, fun e he => ?_, ⟨?_, hok⟩, fun haudio => ?_⟩
  · rcases hout with ⟨-, hcount⟩ | ⟨cs, later, e', rfl, hbad, herror⟩
    · rw [he] at hcount
      cases hcount
    · obtain rfl := Except.error.inj (he.symm.trans herror)
      exact ⟨done, cs, later, new, hbatches, hbad, hloaded, hloaded.blocks_eq_iff⟩
  · rintro ⟨n, hn⟩
    obtain ⟨_, hloaded', -⟩ := hall n hn
    exact hloaded'.not_unreadable
  · refine hok fun cs _ e => ?_
    rw [haudio]
    exact not_unreadable_audio

/-- A view mode that cannot be read behind a batch that can: the block of that batch stays, and
trying once more makes a second block of it. -/
theorem load_leaves_first_block :
    let comment (id : UInt64) (mode : String) : Comment :=
      ⟨id, "", false, false, [("viewMode", .text mode)]⟩
    let batches := [[comment 1 "source"], [comment 2 "bogus"]]
    let r := Reviewable.new .text ⟨"", 1⟩
    let r' := (r.load batches).2
    (r.load batches).1 = .error (.unknownMode .text "bogus") ∧ r.blocks = [] ∧
      r'.blocks.map (fun b => b.comments.map Comment.id) = [[1]] ∧
      (r'.load batches).2.blocks.map (fun b => b.comments.map Comment.id) = [[1], [1]] ∧
      ¬ ∀ e, (r.load batches).1 = .error e → r'.blocks = r.blocks := by
  intro comment batches r r'
  have herror : (r.load batches).1 = .error (.unknownMode .text "bogus") := rfl
  have hblocks : r'.blocks.map (fun b => b.comments.map Comment.id) = [[1]] := rfl
  refine ⟨herror, rfl, hblocks, rfl, fun h => ?_⟩
  rw [h _ herror] at hblocks
  cases hblocks

end Marginalia.Attachment.Reviewable
