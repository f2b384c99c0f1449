import Mathlib.Data.List.DropRight
import Marginalia.Proofs.Diff.Layout

/-! The two files of a diff, each read down its side of the table. What the rows show there are the
lines of the hunks on that side, in order, one after another. -/

namespace Marginalia.Diff

/-- Whether lines of a kind are in the file on a side. Context is in both files, a remark in none. -/
def LineKind.isOn : LineKind → Side → Bool
  | .context, _ => true
  | .removed, side => side == .left
  | .added, side => side == .right
  | .remark, _ => false

def HunkLine.isOn (l : HunkLine) (side : Side) : Bool := l.kind.isOn side

/-- The number of a line on a side, and its text without the line ends behind it. -/
def HunkLine.shown (l : HunkLine) (side : Side) : Option Nat × Option String :=
  (l.number? side, some (String.ofList (l.text.rdropWhile fun c => c == '\r' || c == '\n')))

def Hunk.linesOn (h : Hunk) (side : Side) : List HunkLine := h.lines.filter (·.isOn side)

/-- Whether a row shows anything on a side. -/
def Row.shows (r : Row) (side : Side) : Bool := (r.number? side).isSome || (r.text? side).isSome

/-- The numbers and texts that rows show on a side. -/
def shownOn (side : Side) (rs : List Row) : List (Option Nat × Option String) :=
  (rs.filter (·.shows side)).map fun r => ((r.number? side).map UInt32.toNat, r.text? side)

theorem shownOn_append (side : Side) (rs rs' : List Row) :
    shownOn side (rs ++ rs') = shownOn side rs ++ shownOn side rs' := by
  simp [shownOn]

theorem lineText_eq (l : HunkLine) :
    Patch.lineText l =
      String.ofList (l.text.rdropWhile fun c => c == '\r' || c == '\n') := by
  have hp : (fun c => c == '\n' || c == '\r') = fun c : Char => c == '\r' || c == '\n' := by
    funext c
    exact Bool.or_comm _ _
  rw [Patch.lineText, Text.chomp, hp]
  rfl

namespace Segment

/-- Two lists side by side are each found whole on their side, whichever is longer. -/
theorem filterMap_sideBySide {α : Type} (side : Side) (as bs : List α) :
    (sideBySide as bs).filterMap side.of = side.of (as, bs) := by
  fun_induction sideBySide as bs with
  | case1 bs => cases side <;> simp [Side.of, Function.comp_def]
  | case2 as _ => cases side <;> simp [Side.of, Function.comp_def]
  | case3 a as b bs ih =>
    cases side with
    | left => simpa [Side.of] using ih
    | right => simpa [Side.of] using ih

theorem filterMap_equal (side : Side) (ls : List HunkLine) :
    (rows (.equal ls)).filterMap side.of = ls := by
  cases side <;> simp [rows, Side.of, Function.comp_def]

/-- A run of lines of one kind is on a side in whole or not at all. -/
theorem filter_isOn_run {k : LineKind} {ls : List HunkLine} (side : Side)
    (h : ∀ l ∈ ls, l.kind = k) :
    ls.filter (·.isOn side) = if k.isOn side then ls else [] := by
  have hall : ∀ l ∈ ls, l.isOn side = k.isOn side := fun l hl => by rw [HunkLine.isOn, h l hl]
  split
  · rename_i hk
    exact List.filter_eq_self.mpr fun l hl => (hall l hl).trans hk
  · rename_i hk
    exact List.filter_eq_nil_iff.mpr fun l hl => (hall l hl).symm ▸ hk

theorem kind_of_mem_takeWhile {k : LineKind} {ls : List HunkLine} {l : HunkLine}
    (h : l ∈ ls.takeWhile (isKind k)) : l.kind = k := by
  simpa [isKind] using List.mem_takeWhile_imp h

theorem kind_of_mem_run {k : LineKind} {l : HunkLine} (hl : l.kind = k) (ls : List HunkLine) :
    ∀ m ∈ l :: ls.takeWhile (isKind k), m.kind = k := by
  intro m hm
  rcases List.mem_cons.mp hm with rfl | hm
  · exact hl
  · exact kind_of_mem_takeWhile hm

/-- The rows of the segments hold all lines of either side, in order. -/
theorem filterMap_ofLines (side : Side) {ls : List HunkLine} (h : ∀ l ∈ ls, l.kind ≠ .remark) :
    ((ofLines ls).flatMap rows).filterMap side.of = ls.filter (·.isOn side) := by
  -- a segment takes its run or its two runs off the front of the lines
  fun_induction ofLines ls with
  | case1 => rfl
  | case2 l ls hk removed rest ih =>
    have hsplit : l :: ls = (l :: removed) ++ (rest.takeWhile (isKind .added) ++
        rest.dropWhile (isKind .added)) := by
      rw [List.takeWhile_append_dropWhile, List.cons_append, List.takeWhile_append_dropWhile]
    have hrest : ∀ m ∈ rest.dropWhile (isKind .added), m.kind ≠ .remark := by
      intro m hm
      rw [hsplit] at h
      exact h m (List.mem_append_right _ (List.mem_append_right _ hm))
    rw [List.flatMap_cons, List.filterMap_append, ih hrest, rows, filterMap_sideBySide, hsplit,
      List.filter_append, List.filter_append, filter_isOn_run side (kind_of_mem_run hk ls),
      filter_isOn_run side fun m hm => kind_of_mem_takeWhile hm]
    cases side <;> simp [Side.of, LineKind.isOn, removed]
  | case3 l ls hk ih =>
    have hsplit : l :: ls = (l :: ls.takeWhile (isKind .added)) ++
        ls.dropWhile (isKind .added) := by
      rw [List.cons_append, List.takeWhile_append_dropWhile]
    have hrest : ∀ m ∈ ls.dropWhile (isKind .added), m.kind ≠ .remark := by
      intro m hm
      rw [hsplit] at h
      exact h m (List.mem_append_right _ hm)
    rw [List.flatMap_cons, List.filterMap_append, ih hrest, rows, filterMap_sideBySide, hsplit,
      List.filter_append, filter_isOn_run side (kind_of_mem_run hk ls)]
    cases side <;> simp [Side.of, LineKind.isOn]
  | case4 l ls hr ha ih =>
    have hk : l.kind = .context := by
      have hl := h l List.mem_cons_self
      cases hkind : l.kind <;> simp_all
    have hsplit : l :: ls = (l :: ls.takeWhile (isKind l.kind)) ++
        ls.dropWhile (isKind l.kind) := by
      rw [List.cons_append, List.takeWhile_append_dropWhile]
    have hrest : ∀ m ∈ ls.dropWhile (isKind l.kind), m.kind ≠ .remark := by
      intro m hm
      rw [hsplit] at h
      exact h m (List.mem_append_right _ hm)
    rw [List.flatMap_cons, List.filterMap_append, ih hrest, filterMap_equal, hsplit,
      List.filter_append, filter_isOn_run side (kind_of_mem_run rfl ls), hk]
    rfl

end Segment

variable {hs : List (Nat × Hunk)} {gs : List Group} {rs : List Row}

theorem Row.Pairs.shows_of_none {p : Option HunkLine × Option HunkLine} {r : Row} {side : Side}
    (h : r.Pairs p) (hl : side.of p = none) : r.shows side = false := by
  obtain ⟨hnumber, htext⟩ := h side
  rw [hl] at hnumber htext
  have hn : r.number? side = none := by simpa using hnumber
  rw [Row.shows, hn, htext]
  rfl

theorem Row.Pairs.shown {p : Option HunkLine × Option HunkLine} {r : Row} {side : Side}
    {l : HunkLine} (h : r.Pairs p) (hl : side.of p = some l) :
    r.shows side = true ∧ ((r.number? side).map UInt32.toNat, r.text? side) = l.shown side := by
  obtain ⟨hnumber, htext⟩ := h side
  rw [hl] at hnumber htext
  refine ⟨by rw [Row.shows, htext]; simp, ?_⟩
  rw [Option.map_some, lineText_eq] at htext
  rw [hnumber, htext]
  rfl

theorem shownOn_pairs {ps : List (Option HunkLine × Option HunkLine)}
    (h : List.Forall₂ Row.Pairs ps rs) (side : Side) :
    shownOn side rs = (ps.filterMap side.of).map (·.shown side) := by
  induction h with
  | nil => rfl
  | @cons p r ps rs hp _ ih =>
    rw [← List.singleton_append, shownOn_append, ih]
    cases hl : side.of p with
    | none => simp [shownOn, hp.shows_of_none hl, hl]
    | some l =>
      obtain ⟨hshows, hshown⟩ := hp.shown hl
      simp [shownOn, hshows, hl, hshown]

theorem shownOn_segments {ss : List Segment} (h : List.Forall₂ Segment.ShownBy ss gs)
    (side : Side) :
    shownOn side (gs.flatMap Group.rows) =
      ((ss.flatMap Segment.rows).filterMap side.of).map (·.shown side) := by
  induction h with
  | nil => rfl
  | cons hs _ ih =>
    rw [List.flatMap_cons, List.flatMap_cons, shownOn_append, ih, shownOn_pairs hs.rows,
      List.filterMap_append, List.map_append]

/-- The segments of a hunk show its lines, its remarks left out. -/
theorem filterMap_segments (h : Hunk) (side : Side) :
    (h.segments.flatMap Segment.rows).filterMap side.of = h.linesOn side := by
  rw [Hunk.segments, Segment.filterMap_ofLines side fun l hl => by simpa using (List.mem_filter.mp hl).2,
    List.filter_filter, Hunk.linesOn]
  apply List.filter_congr
  intro l _
  cases hk : l.kind <;> simp [HunkLine.isOn, hk, LineKind.isOn]

theorem rows_of_hides {n : Nat} {gap : List Group} (h : Hides n gap) :
    gap.flatMap Group.rows = [] := by
  cases h with
  | nothing => rfl
  | lines hp hr hn hpos => simp [hr]

theorem shownOn_laid (h : Laid hs gs) (side : Side) :
    shownOn side (gs.flatMap Group.rows) =
      (hs.flatMap fun p => p.2.linesOn side).map (·.shown side) := by
  induction h with
  | nil => rfl
  | cons hgap hbody _ ih =>
    rw [List.flatMap_append, List.flatMap_append, rows_of_hides hgap, List.nil_append,
      shownOn_append, ih, shownOn_segments hbody, filterMap_segments, List.flatMap_cons,
      List.map_append]

namespace Patch

theorem map_snd_placed (next : Nat) (hs : List Hunk) : (placed next hs).map Prod.snd = hs := by
  induction hs generalizing next with
  | nil => rfl
  | cons h hs ih => rw [placed, List.map_cons, ih]

/-- The rows of a file's table show, on either side, the lines of its hunks that are on that side,
each once and in order. -/
theorem shownOn_tables {text : String} {context : UInt32} {files : List FileTable}
    (h : tables text context = .ok files) :
    ∃ patches, read text.toList = .ok patches ∧
      List.Forall₂ (fun p f => ∀ side, shownOn side f.table.rows =
        (p.hunks.flatMap (·.linesOn side)).map (·.shown side)) patches files := by
  obtain ⟨patches, hread, hlaid⟩ := laid_tables h
  refine ⟨patches, hread, hlaid.imp fun p f hf side => ?_⟩
  have hshown := shownOn_laid hf side
  rwa [← List.flatMap_map Prod.snd (fun h : Hunk => h.linesOn side), map_snd_placed] at hshown

/-- Two removed lines beside one added line, remarks behind either run, carriage returns at the end
of a text, and a hunk that follows. -/
theorem shownOn_tables_uneven :
    let text := "--- a/f\n+++ b/f\n@@ -1,3 +1,2 @@\n c\n-x\r\r\n-y\n\\ end\n+z\n\\ end\n" ++
      "@@ -9 +8,2 @@\n\n+w\n"
    ∃ files, tables text 1 = .ok files ∧
      files.map (fun f => shownOn .left f.table.rows) =
        [[(some 1, some "c"), (some 2, some "x"), (some 3, some "y"), (some 9, some "")]] ∧
      files.map (fun f => shownOn .right f.table.rows) =
        [[(some 1, some "c"), (some 2, some "z"), (some 8, some ""), (some 9, some "w")]] := by
  intro text
  obtain ⟨files, hfiles⟩ := exists_eq_ok_of_isOk
    (show (tables text 1).isOk = true by decide +kernel)
  obtain ⟨patches, hread, hshown⟩ := shownOn_tables hfiles
  have hlines (side : Side) : files.map (fun f => shownOn side f.table.rows) =
      patches.map fun p => (p.hunks.flatMap (·.linesOn side)).map (·.shown side) := by
    rw [← List.forall₂_eq_eq_eq, List.forall₂_map_left_iff, List.forall₂_map_right_iff]
    exact hshown.flip.imp fun f p h => h side
  have hleft : (read text.toList).map (fun ps => ps.map fun p =>
      (p.hunks.flatMap (·.linesOn .left)).map (·.shown .left)) =
        .ok [[(some 1, some "c"), (some 2, some "x"), (some 3, some "y"), (some 9, some "")]] := by
    decide +kernel
  have hright : (read text.toList).map (fun ps => ps.map fun p =>
      (p.hunks.flatMap (·.linesOn .right)).map (·.shown .right)) =
        .ok [[(some 1, some "c"), (some 2, some "z"), (some 8, some ""), (some 9, some "w")]] := by
    decide +kernel
  rw [hread] at hleft hright
  exact ⟨files, hfiles, (hlines .left).trans (Except.ok.inj hleft),
    (hlines .right).trans (Except.ok.inj hright)⟩

end Patch

end Marginalia.Diff
