import Mathlib.Data.List.Nodup
import Marginalia.Diff.Patch.Table

/-! Tables as they are read from a diff: each group is a chunk of its own, nothing in it is loaded,
and no group has the control that hides its chunk. -/

namespace Marginalia.Diff

/-- A table that comes of a diff. -/
def Table.Parsed (t : Table) : Prop :=
  ∃ text context files file,
    Patch.tables text context = .ok files ∧ file ∈ files ∧ file.table = t

/-- A group that no answer had a part in. -/
structure Group.Untouched (g : Group) : Prop where
  loaded : g.loaded = false
  collapsible : g.collapsible = false
  rows : g.isPlaceholder = true → g.rows = []

/-- The groups of a table that no answer was worked in. -/
structure Untouched (gs : List Group) : Prop where
  chunks : (gs.map Group.chunk).Nodup
  groups : ∀ g ∈ gs, g.Untouched

section Except

variable {ε α β : Type}

theorem bind_eq_ok {x : Except ε α} {f : α → Except ε β} {b : β} :
    x >>= f = .ok b ↔ ∃ a, x = .ok a ∧ f a = .ok b := by
  cases x with
  | error e => simp [bind, Except.bind]
  | ok a => simp [bind, Except.bind]

theorem exists_eq_ok_of_isOk {x : Except ε α} (h : x.isOk = true) : ∃ a, x = .ok a := by
  cases x with
  | error e => cases h
  | ok a => exact ⟨a, rfl⟩

/-- What every step keeps holds at the end of a fold that succeeds. -/
theorem foldlM_keeps {P : β → Prop} {f : β → α → Except ε β}
    {l : List α} (hf : ∀ a ∈ l, ∀ b b', P b → f b a = .ok b' → P b') {b b' : β} (hb : P b)
    (h : l.foldlM f b = .ok b') : P b' := by
  induction l generalizing b with
  | nil =>
    obtain rfl : b = b' := by simpa [pure, Except.pure] using h
    exact hb
  | cons a l ih =>
    rw [List.foldlM_cons, bind_eq_ok] at h
    obtain ⟨c, hc, h⟩ := h
    exact ih (fun a ha => hf a (List.mem_cons_of_mem _ ha)) (hf a List.mem_cons_self b c hb hc) h

theorem exists_of_mem_mapM {f : α → Except ε β} {l : List α} {bs : List β} {b : β}
    (h : l.mapM f = .ok bs) (hb : b ∈ bs) : ∃ a ∈ l, f a = .ok b := by
  induction l generalizing bs with
  | nil =>
    obtain rfl : [] = bs := by simpa [pure, Except.pure] using h
    simp at hb
  | cons a l ih =>
    simp only [List.mapM_cons, bind_eq_ok, pure, Except.pure, Except.ok.injEq] at h
    obtain ⟨c, hc, cs, hcs, rfl⟩ := h
    rcases List.mem_cons.mp hb with rfl | hb
    · exact ⟨a, List.mem_cons_self, hc⟩
    · obtain ⟨a', ha', h'⟩ := ih hcs hb
      exact ⟨a', List.mem_cons_of_mem a ha', h'⟩

end Except

/-- No segment of a hunk is without rows. -/
theorem Segment.rows_ne_nil {ls : List HunkLine} {s : Segment} (h : s ∈ ofLines ls) :
    s.rows ≠ [] := by
  fun_induction ofLines ls with
  | case1 => simp at h
  | case2 l ls hk removed rest ih =>
    rcases List.mem_cons.mp h with rfl | h
    · simp only [rows]
      cases rest.takeWhile (isKind .added) <;> simp [sideBySide]
    · exact ih h
  | case3 l ls hk ih =>
    rcases List.mem_cons.mp h with rfl | h
    · simp [rows, sideBySide]
    · exact ih h
  | case4 l ls hr ha ih =>
    rcases List.mem_cons.mp h with rfl | h
    · simp [rows]
    · exact ih h

namespace Patch

theorem reserve_eq_ok {next count n : Nat} :
    reserve next count = .ok n ↔ next + count < lineLimit ∧ next + count = n := by
  unfold reserve
  by_cases h : next + count < lineLimit <;> simp [h]

theorem row_next {next n : Nat} {old new : Option HunkLine} {r : Row}
    (h : row next old new = .ok (r, n)) : n = next + 1 ∧ n < lineLimit := by
  simp only [row, bind_eq_ok, reserve_eq_ok, pure, Except.pure, Except.ok.injEq,
    Prod.mk.injEq] at h
  obtain ⟨-, -, -, -, k, ⟨hlim, rfl⟩, -, rfl⟩ := h
  exact ⟨rfl, hlim⟩

theorem rows_next {next n : Nat} {ps : List (Option HunkLine × Option HunkLine)} {rs : List Row}
    (h : rows next ps = .ok (rs, n)) : n = next + ps.length ∧ (ps ≠ [] → n < lineLimit) := by
  induction ps generalizing next rs n with
  | nil =>
    obtain ⟨-, rfl⟩ : [] = rs ∧ next = n := by simpa [rows] using h
    simp
  | cons p ps ih =>
    simp only [rows, bind_eq_ok, pure, Except.pure, Except.ok.injEq, Prod.mk.injEq] at h
    obtain ⟨⟨r, k⟩, hr, ⟨rs', m⟩, hrs, -, rfl⟩ := h
    obtain ⟨hk, hlim⟩ := row_next hr
    obtain ⟨hm, hlim'⟩ := ih hrs
    refine ⟨by simp only [List.length_cons]; omega, fun _ => ?_⟩
    cases ps with
    | nil => simp only [List.length_nil] at hm; omega
    | cons q ps => exact hlim' (by simp)

namespace Builder

/-- A builder whose groups are numbered through. Each of them has a line at least, so that there
are fewer groups than line numbers. -/
structure Sound (b : Builder) : Prop where
  chunks : b.groups.map Group.chunk = (List.range b.groups.length).map UInt64.ofNat
  fewer : b.groups.length < b.nextLine
  limit : b.nextLine < lineLimit
  groups : ∀ g ∈ b.groups, g.Untouched

variable {b b' : Builder}

theorem sound_start : start.Sound := ⟨rfl, by decide, by decide, by simp [start]⟩

theorem Sound.push (h : b.Sound) {make : UInt64 → Group} {n : Nat} (hn : b.nextLine < n)
    (hlim : n < lineLimit) (hc : ∀ chunk, (make chunk).chunk = chunk)
    (hu : ∀ chunk, (make chunk).Untouched) : (b.push make n).Sound := by
  refine ⟨?_, ?_, hlim, fun g hg => ?_⟩
  · simp [Builder.push, List.range_succ, h.chunks, hc]
  · have hf := h.fewer
    simp only [Builder.push, List.length_append, List.length_singleton]
    omega
  · rcases List.mem_append.mp hg with hg | hg
    · exact h.groups g hg
    · rw [List.mem_singleton.mp hg]
      exact hu _

theorem Sound.pushGap (h : b.Sound) {context hidden : UInt32} {header : List Char}
    (hpos : 0 < hidden.toNat) (he : b.pushGap context hidden header = .ok b') : b'.Sound := by
  simp only [Builder.pushGap, bind_eq_ok, reserve_eq_ok, pure, Except.pure, Except.ok.injEq] at he
  obtain ⟨n, ⟨hlim, rfl⟩, rfl⟩ := he
  refine h.push (by omega) hlim (fun chunk => ?_) fun chunk => ?_
  · split <;> rfl
  · split <;> exact ⟨rfl, rfl, fun _ => rfl⟩

theorem kindOf_ne_collapsed (s : Segment) : kindOf s ≠ .collapsed := by
  unfold kindOf
  split <;> simp

theorem Sound.pushSegment (h : b.Sound) {s : Segment} (hs : s.rows ≠ [])
    (he : b.pushSegment s = .ok b') : b'.Sound := by
  simp only [Builder.pushSegment, bind_eq_ok, pure, Except.pure, Except.ok.injEq] at he
  obtain ⟨⟨rs, n⟩, hrs, rfl⟩ := he
  obtain ⟨hn, hlim⟩ := rows_next hrs
  have hpos := List.length_pos_iff.mpr hs
  refine h.push (by omega) (hlim hs) (fun chunk => rfl) fun chunk => ⟨rfl, rfl, fun hp => ?_⟩
  exact absurd (by simpa [Group.isPlaceholder, Group.new] using hp) (kindOf_ne_collapsed s)

theorem Sound.pushSegments (h : b.Sound) {hunk : Hunk} {nextOld : Nat}
    (he : hunk.segments.foldlM Builder.pushSegment { b with nextOld := nextOld } = .ok b') :
    b'.Sound := by
  refine foldlM_keeps (fun s hs c c' hc => ?_) ?_ he
  · exact hc.pushSegment (Segment.rows_ne_nil hs)
  · exact ⟨h.chunks, h.fewer, h.limit, h.groups⟩

theorem Sound.pushHunk (h : b.Sound) {context : UInt32} {hunk : Hunk}
    (he : b.pushHunk context hunk = .ok b') : b'.Sound := by
  simp only [Builder.pushHunk, bind_eq_ok] at he
  obtain ⟨start, -, he⟩ := he
  by_cases hpos : 0 < max start.toNat 1 - b.nextOld
  · simp only [if_pos hpos, bind_eq_ok] at he
    obtain ⟨c, hc, length, -, he⟩ := he
    have hlt := start.toNat_lt
    have hhid : 0 < (UInt32.ofNat (max start.toNat 1 - b.nextOld)).toNat := by
      rw [UInt32.toNat_ofNat_of_lt' (by simp only [UInt32.size]; omega)]
      exact hpos
    split at he
    · exact (h.pushGap hhid hc).pushSegments he
    · simp at he
  · simp only [if_neg hpos, bind_eq_ok] at he
    obtain ⟨c, hc, length, -, he⟩ := he
    obtain rfl := Except.ok.inj hc
    split at he
    · exact h.pushSegments he
    · simp at he

theorem Sound.untouched (h : b.Sound) : Untouched b.groups := by
  refine ⟨?_, h.groups⟩
  have hlen : b.groups.length < UInt64.size := by
    have hf := h.fewer
    have hl := h.limit
    simp only [lineLimit, UInt32.size, UInt64.size] at *
    omega
  rw [h.chunks]
  apply List.Nodup.map_on _ List.nodup_range
  intro i hi j hj hij
  rw [List.mem_range] at hi hj
  have hn := congrArg UInt64.toNat hij
  rwa [UInt64.toNat_ofNat_of_lt' (by omega), UInt64.toNat_ofNat_of_lt' (by omega)] at hn

end Builder

end Patch

/-- A table that comes of a diff has the groups that the hunks of a file add up to. -/
theorem Table.Parsed.exists_builder {t : Table} (h : t.Parsed) :
    ∃ (context : UInt32) (hunks : List Hunk) (b : Patch.Builder),
      hunks.foldlM (Patch.Builder.pushHunk context) .start = .ok b ∧ t = .ofGroups b.groups := by
  obtain ⟨text, context, files, file, he, hm, rfl⟩ := h
  unfold Patch.tables at he
  split at he
  · obtain ⟨f, -, hf⟩ := exists_of_mem_mapM he hm
    unfold Patch.fileTable at hf
    simp only at hf
    split at hf
    · rename_i b hb
      obtain rfl := Except.ok.inj hf
      exact ⟨context, f.hunks, b, hb, rfl⟩
    · simp at hf
  · simp at he

theorem Table.Parsed.untouched {t : Table} (h : t.Parsed) :
    ∃ gs, t = .ofGroups gs ∧ Untouched gs := by
  obtain ⟨context, hunks, b, hb, rfl⟩ := h.exists_builder
  have hs := foldlM_keeps (fun hunk _ c c' hc => hc.pushHunk) Patch.Builder.sound_start hb
  exact ⟨b.groups, rfl, hs.untouched⟩

end Marginalia.Diff
