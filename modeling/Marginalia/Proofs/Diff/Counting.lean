import Marginalia.Proofs.Diff.Addressing
import Marginalia.Proofs.Diff.Gaps
import Marginalia.Proofs.Diff.Totality

/-! How a table that comes of a diff counts its lines. Groups are numbered by their places, and rows
are numbered through from one, with all lines counted that the placeholders above them hide. -/

namespace Marginalia.Diff

variable {gs : List Group} {t : Table} {i j k l : Nat}

/-- The lines that groups stand for: a hidden line without its number, a row with it. -/
def numbering (gs : List Group) : List (Option Nat) :=
  gs.flatMap fun g =>
    List.replicate (hiddenLines [g]) none ++ g.rows.map fun r => some r.line.toNat

theorem numbering_append (gs gs' : List Group) :
    numbering (gs ++ gs') = numbering gs ++ numbering gs' := by
  simp [numbering]

theorem numbering_singleton (g : Group) :
    numbering [g] =
      List.replicate (hiddenLines [g]) none ++ g.rows.map fun r => some r.line.toNat := by
  simp [numbering]

theorem length_numbering (gs : List Group) :
    (numbering gs).length = hiddenLines gs + (gs.flatMap Group.rows).length := by
  induction gs with
  | nil => rfl
  | cons g gs ih =>
    rw [← List.singleton_append, numbering_append, List.length_append, ih, hiddenLines_append,
      List.flatMap_append, List.length_append, numbering_singleton]
    simp only [List.length_append, List.length_replicate, List.length_map, List.flatMap_singleton]
    omega

theorem hiddenLines_rows {g : Group} (h : ¬ g.isPlaceholder = true) : hiddenLines [g] = 0 := by
  simp [hiddenLines, h]

/-! ### Lines by place -/

/-- The groups of a table that comes of a diff: numbered by their places, and counted through line
by line, with nothing in them but what the diff says. -/
structure Counted (gs : List Group) : Prop where
  chunks : ∀ (k : Nat) (g : Group), gs[k]? = some g → g.chunk.toNat = k
  lines : Counts 1 (numbering gs)
  gaps : ∀ g ∈ gs, g.isPlaceholder = true → 1 ≤ g.hiddenLines ∧ g.rows = []
  plain : ∀ g ∈ gs, g.loaded = false ∧ g.collapsible = false ∧
    ∀ r ∈ g.rows, r.selected = false ∧ r.comments = .none

/-- A row is numbered by the lines before it: all rows above, and what is hidden above its group. -/
theorem Counted.line_eq (h : Counted gs) {A B : List Group} {g : Group} {R R' : List Row} {r : Row}
    (hgs : gs = A ++ g :: B) (hrows : g.rows = R ++ r :: R') :
    r.line.toNat = 1 + ((A.flatMap Group.rows).length + R.length) + hiddenLines A := by
  have hp : ¬ g.isPlaceholder = true := by
    intro hp
    have hnil := (h.gaps g (by simp [hgs]) hp).2
    simp [hnil] at hrows
  have hplace : (numbering gs)[(numbering A).length + R.length]? = some (some r.line.toNat) := by
    rw [hgs, ← List.singleton_append, numbering_append, numbering_append, numbering_singleton,
      hiddenLines_rows hp, hrows, List.getElem?_append_right (by omega)]
    simp
  have hline := h.lines _ _ hplace
  rw [length_numbering] at hline
  omega

theorem take_append_drop_take (gs : List Group) (h : k ≤ l) :
    gs.take k ++ (gs.take l).drop k = gs.take l := by
  have hsplit := List.take_append_drop k (gs.take l)
  rwa [List.take_take, Nat.min_eq_left h] at hsplit

theorem rowsBefore_mono (gs : List Group) (h : k ≤ l) : rowsBefore gs k ≤ rowsBefore gs l := by
  rw [rowsBefore, rowsBefore, ← take_append_drop_take gs h, List.flatMap_append, List.length_append]
  omega

theorem hiddenLines_take_mono (gs : List Group) (h : k ≤ l) :
    hiddenLines (gs.take k) ≤ hiddenLines (gs.take l) := by
  rw [← take_append_drop_take gs h, hiddenLines_append]
  omega

/-- The row at a place is in a group, behind some of its rows. -/
theorem exists_row_at (h : i < (gs.flatMap Group.rows).length) :
    ∃ A g B R r R', gs = A ++ g :: B ∧ g.rows = R ++ r :: R' ∧
      (gs.flatMap Group.rows)[i]? = some r ∧ i = (A.flatMap Group.rows).length + R.length := by
  induction gs generalizing i with
  | nil => simp at h
  | cons g gs ih =>
    rw [List.flatMap_cons, List.length_append] at h
    by_cases hi : i < g.rows.length
    · refine ⟨[], g, gs, g.rows.take i, g.rows[i], g.rows.drop (i + 1), rfl, ?_, ?_, ?_⟩
      · rw [List.getElem_cons_drop, List.take_append_drop]
      · rw [List.flatMap_cons, List.getElem?_append_left hi, List.getElem?_eq_getElem hi]
      · simp [Nat.min_eq_left (Nat.le_of_lt hi)]
    · obtain ⟨A, g', B, R, r, R', hgs, hrows, hr, he⟩ := ih (i := i - g.rows.length) (by omega)
      refine ⟨g :: A, g', B, R, r, R', by rw [hgs]; rfl, hrows, ?_, ?_⟩
      · rw [List.flatMap_cons, List.getElem?_append_right (by omega), hr]
      · rw [List.flatMap_cons, List.length_append]
        omega

/-- Each place of a counted table has its row, in the group that the place is in, and its number. -/
theorem Counted.line_at (h : Counted t.groups) (ht : t.Indexed) (hi : i < t.rowCount) :
    ∃ k n, t.groupOfRow? i = some k ∧ t.line? i = some n ∧
      n.toNat = 1 + i + hiddenLines (t.groups.take k) := by
  have haddressed := ht.addressed
  rw [haddressed.count] at hi
  obtain ⟨A, g, B, R, r, R', hgs, hg, hr, he⟩ := exists_row_at hi
  refine ⟨A.length, r.line, (haddressed.group i A.length).mpr ?_, ?_, ?_⟩
  · rw [hgs, rowsBefore, rowsBefore, List.take_left, ← List.singleton_append,
      ← List.append_assoc, List.take_left' (by simp), List.flatMap_append, List.length_append,
      List.flatMap_singleton, hg]
    simp only [List.length_append, List.length_cons]
    omega
  · rw [Table.line?, haddressed.row, Table.rows, hr]
    rfl
  · rw [h.line_eq hgs hg, hgs, List.take_left, ← he]

theorem lt_rowCount_of_line? (ht : t.Indexed) {n : UInt32} (hn : t.line? i = some n) :
    i < t.rowCount := by
  rw [ht.addressed.count, ← Table.hasRow_iff ht, ← Table.line?_isSome, hn]
  rfl

theorem Counted.one_le_line (h : Counted t.groups) (ht : t.Indexed) {n : UInt32}
    (hn : t.line? i = some n) : 1 ≤ n := by
  obtain ⟨k, m, -, hm, hline⟩ := h.line_at ht (lt_rowCount_of_line? ht hn)
  obtain rfl : n = m := Option.some.inj (hn.symm.trans hm)
  rw [UInt32.le_iff_toNat_le, hline, UInt32.toNat_one]
  omega

/-- From one row to another below it there are at least as many lines as rows. -/
theorem Counted.line_add_le (h : Counted t.groups) (ht : t.Indexed) {a b : UInt32} (hij : i ≤ j)
    (ha : t.line? i = some a) (hb : t.line? j = some b) : a.toNat + (j - i) ≤ b.toNat := by
  have haddressed := ht.addressed
  obtain ⟨k, a', hk, ha', hline⟩ := h.line_at ht (lt_rowCount_of_line? ht ha)
  obtain ⟨l, b', hl, hb', hline'⟩ := h.line_at ht (lt_rowCount_of_line? ht hb)
  obtain rfl : a = a' := Option.some.inj (ha.symm.trans ha')
  obtain rfl : b = b' := Option.some.inj (hb.symm.trans hb')
  have hkl : k ≤ l := by
    by_contra hlt
    have hbefore := ((haddressed.group i k).mp hk).1
    have hbehind := ((haddressed.group j l).mp hl).2
    have hmono := rowsBefore_mono t.groups (show l + 1 ≤ k by omega)
    omega
  have hhidden := hiddenLines_take_mono t.groups hkl
  omega

theorem Counted.line_lt (h : Counted t.groups) (ht : t.Indexed) {a b : UInt32} (hij : i < j)
    (ha : t.line? i = some a) (hb : t.line? j = some b) : a < b := by
  have hle := h.line_add_le ht (Nat.le_of_lt hij) ha hb
  rw [UInt32.lt_iff_toNat_lt]
  omega

/-! ### Lines as they are numbered -/

namespace Patch

theorem line_of_row {next n : Nat} {old new : Option HunkLine} {r : Row}
    (h : row next old new = .ok (r, n)) :
    r.line.toNat = next ∧ r.selected = false ∧ r.comments = .none := by
  simp only [row, bind_eq_ok, reserve_eq_ok, pure, Except.pure, Except.ok.injEq,
    Prod.mk.injEq] at h
  obtain ⟨-, -, -, -, m, ⟨hlim, -⟩, rfl, -⟩ := h
  have hnext : next < UInt32.size := Nat.lt_of_succ_lt hlim
  exact ⟨UInt32.toNat_ofNat_of_lt' hnext, rfl, rfl⟩

/-- Rows are numbered through, and carry no flag. -/
theorem lines_of_rows {next n : Nat} {ps : List (Option HunkLine × Option HunkLine)}
    {rs : List Row} (h : rows next ps = .ok (rs, n)) :
    rs.map (fun r => r.line.toNat) = List.range' next rs.length ∧
      ∀ r ∈ rs, r.selected = false ∧ r.comments = .none := by
  induction ps generalizing next rs n with
  | nil =>
    obtain ⟨rfl, -⟩ : [] = rs ∧ next = n := by simpa [rows] using h
    simp
  | cons p ps ih =>
    simp only [rows, bind_eq_ok, pure, Except.pure, Except.ok.injEq, Prod.mk.injEq] at h
    obtain ⟨⟨r, m⟩, hr, ⟨rs', m'⟩, hrs, rfl, -⟩ := h
    obtain ⟨hline, hflags⟩ := line_of_row hr
    obtain ⟨rfl, -⟩ := row_next hr
    obtain ⟨hlines, hall⟩ := ih hrs
    refine ⟨?_, List.forall_mem_cons.mpr ⟨hflags, hall⟩⟩
    rw [List.map_cons, hline, hlines, List.length_cons, List.range'_succ]

namespace Builder

variable {b b' : Builder} {context : UInt32} {h : Hunk}

/-- A builder that has counted the lines of its groups. -/
structure Counted (b : Builder) : Prop where
  sound : b.Sound
  lines : Counts 1 (numbering b.groups)
  next : b.nextLine = 1 + (numbering b.groups).length
  gaps : ∀ g ∈ b.groups, g.isPlaceholder = true → 1 ≤ g.hiddenLines ∧ g.rows = []
  flags : ∀ g ∈ b.groups, ∀ r ∈ g.rows, r.selected = false ∧ r.comments = .none

theorem counted_start : start.Counted :=
  ⟨sound_start, by simp [Counts, numbering, start], rfl, by simp [start], by simp [start]⟩

/-- A group that goes on counting from the next line, as far as the new next line. -/
theorem Counted.push (hb : b.Counted) {make : UInt64 → Group} {n : Nat}
    (hs : (b.push make n).Sound)
    (hl : ∀ chunk, Counts b.nextLine (numbering [make chunk]))
    (hn : ∀ chunk, n = b.nextLine + (numbering [make chunk]).length)
    (hg : ∀ chunk, (make chunk).isPlaceholder = true →
      1 ≤ (make chunk).hiddenLines ∧ (make chunk).rows = [])
    (hf : ∀ chunk, ∀ r ∈ (make chunk).rows, r.selected = false ∧ r.comments = .none) :
    (b.push make n).Counted := by
  refine ⟨hs, ?_, ?_, ?_, ?_⟩
  · rw [Builder.push, numbering_append]
    apply hb.lines.append
    rw [← hb.next]
    exact hl _
  · rw [Builder.push, numbering_append, List.length_append, ← Nat.add_assoc, ← hb.next]
    exact hn _
  · exact List.forall_mem_append.mpr ⟨hb.gaps, List.forall_mem_singleton.mpr (hg _)⟩
  · exact List.forall_mem_append.mpr ⟨hb.flags, List.forall_mem_singleton.mpr (hf _)⟩

theorem Counted.pushGap (hb : b.Counted) {hidden : UInt32} {header : List Char}
    (hpos : 0 < hidden.toNat) (he : b.pushGap context hidden header = .ok b') : b'.Counted := by
  have hs := hb.sound.pushGap hpos he
  simp only [Builder.pushGap, bind_eq_ok, reserve_eq_ok, pure, Except.pure, Except.ok.injEq] at he
  obtain ⟨n, ⟨-, rfl⟩, rfl⟩ := he
  generalize hmake : (fun chunk => if header = [] then
      Group.placeholder chunk hidden (reveals context hidden header)
    else (Group.placeholder chunk hidden (reveals context hidden header)).withHeader
      (String.ofList header)) = make at hs ⊢
  have hgap (chunk : UInt64) : (make chunk).isPlaceholder = true ∧ (make chunk).rows = [] ∧
      (make chunk).hiddenLines = hidden := by
    rw [← hmake]
    dsimp only
    split <;> exact ⟨rfl, rfl, rfl⟩
  have hnumbering (chunk : UInt64) :
      numbering [make chunk] = List.replicate hidden.toNat none := by
    obtain ⟨hp, hr, hh⟩ := hgap chunk
    simp [numbering_singleton, hiddenLines, hp, hr, hh]
  apply hb.push hs
  · intro chunk
    rw [hnumbering]
    exact counts_replicate _ _
  · intro chunk
    rw [hnumbering, List.length_replicate]
  · intro chunk _
    obtain ⟨-, hr, hh⟩ := hgap chunk
    rw [hh, UInt32.le_iff_toNat_le]
    exact ⟨hpos, hr⟩
  · intro chunk r hr
    rw [(hgap chunk).2.1] at hr
    simp at hr

theorem Counted.pushSegment (hb : b.Counted) {s : Segment} (hs : s.rows ≠ [])
    (he : b.pushSegment s = .ok b') : b'.Counted := by
  have hsound := hb.sound.pushSegment hs he
  simp only [Builder.pushSegment, bind_eq_ok, pure, Except.pure, Except.ok.injEq] at he
  obtain ⟨⟨rs, n⟩, hrs, rfl⟩ := he
  obtain ⟨hlines, hflags⟩ := lines_of_rows hrs
  have hp (chunk : UInt64) : ¬ (Group.new chunk (kindOf s) rs).isPlaceholder = true := by
    simpa [Group.isPlaceholder, Group.new] using kindOf_ne_collapsed s
  have hnumbering (chunk : UInt64) : numbering [Group.new chunk (kindOf s) rs] =
      (List.range' b.nextLine rs.length).map some := by
    rw [numbering_singleton, hiddenLines_rows (hp chunk), ← hlines, List.map_map]
    rfl
  apply hb.push hsound
  · intro chunk
    rw [hnumbering]
    exact counts_range' _ _
  · intro chunk
    rw [hnumbering, List.length_map, List.length_range', (rows_next hrs).1,
      (pairs_of_rows hrs).length_eq]
  · intro chunk hgap
    exact absurd hgap (hp chunk)
  · intro chunk
    exact hflags

theorem Counted.pushHunk (hb : b.Counted) (he : b.pushHunk context h = .ok b') : b'.Counted := by
  obtain ⟨hstop, d, hd, he⟩ := pushHunk_eq_ok_iff.mp he
  have hcount := toNat_hidden (b := b) (h := h) (by omega)
  have hgap : d.Counted := by
    simp only [withGap] at hd
    split at hd
    · next hpos => exact hb.pushGap (hcount.symm ▸ hpos) hd
    · obtain rfl := Except.ok.inj hd
      exact hb
  have hnext : ({ d with nextOld := max h.oldStart 1 + h.oldLength } : Builder).Counted :=
    ⟨⟨hgap.sound.chunks, hgap.sound.fewer, hgap.sound.limit, hgap.sound.groups⟩, hgap.lines,
      hgap.next, hgap.gaps, hgap.flags⟩
  exact foldlM_keeps (fun s hs c c' hc => hc.pushSegment (Segment.rows_ne_nil hs)) hnext he

/-- The groups of a builder are chunks by their places. -/
theorem Counted.groups (hb : b.Counted) : Diff.Counted b.groups := by
  refine ⟨fun k g hg => ?_, hb.lines, hb.gaps, fun g hg => ?_⟩
  · have hk : k < b.groups.length := (List.getElem?_eq_some_iff.mp hg).1
    have hfew := hb.sound.fewer
    have hlimit := hb.sound.limit
    have hchunk := congrArg (·[k]?) hb.sound.chunks
    simp only [List.getElem?_map, hg, List.getElem?_range hk, Option.map_some,
      Option.some.injEq] at hchunk
    rw [hchunk]
    simp only [lineLimit, UInt32.size] at hlimit
    apply UInt64.toNat_ofNat_of_lt'
    simp only [UInt64.size]
    omega
  · have huntouched := hb.sound.groups g hg
    exact ⟨huntouched.loaded, huntouched.collapsible, hb.flags g hg⟩

end Builder

end Patch

theorem Table.Parsed.counted (h : t.Parsed) : t.Indexed ∧ Counted t.groups := by
  obtain ⟨context, hunks, b, hb, rfl⟩ := h.exists_builder
  have hs := foldlM_keeps (fun hunk _ c c' hc => hc.pushHunk) Patch.Builder.counted_start hb
  exact ⟨indexed_ofGroups b.groups, hs.groups⟩

/-- Rows are numbered from one on and upwards, each one more than there are rows above it and lines
hidden above its group. Numbers are words, so no table counts further than these reach. -/
structure Table.NumberedThrough (t : Table) : Prop where
  chunks : ∀ (k : Nat) (g : Group), t.groups[k]? = some g → g.chunk.toNat = k
  lines : ∀ i, i < t.rowCount → ∃ k n, t.groupOfRow? i = some k ∧ t.line? i = some n ∧
    n.toNat = 1 + i + hiddenLines (t.groups.take k)
  first : ∀ i n, t.line? i = some n → 1 ≤ n
  ascending : ∀ i j a b, t.line? i = some a → t.line? j = some b → i < j → a < b
  gaps : ∀ g ∈ t.groups, g.isPlaceholder = true → 1 ≤ g.hiddenLines ∧ g.rows = []
  plain : ∀ g ∈ t.groups, g.loaded = false ∧ g.collapsible = false ∧
    ∀ r ∈ g.rows, r.selected = false ∧ r.comments = .none

namespace Patch

/-- The tables of a diff are numbered through, and nothing in them is loaded, can be hidden again or
is flagged. -/
theorem numberedThrough_tables {text : String} {context : UInt32} {files : List FileTable}
    (h : tables text context = .ok files) : ∀ f ∈ files, f.table.NumberedThrough := by
  intro f hf
  obtain ⟨hi, hc⟩ := Table.Parsed.counted ⟨text, context, files, f, h, hf, rfl⟩
  refine ⟨hc.chunks, fun i => hc.line_at hi, fun i n hn => ?_, fun i j a b ha hb hij => ?_,
    hc.gaps, hc.plain⟩
  · exact hc.one_le_line hi hn
  · exact hc.line_lt hi hij ha hb

/-- Two lines hidden before a change and four before a second one, with fewer added lines than
removed ones. -/
theorem numberedThrough_tables_two_gaps :
    let text := "--- a/f\n+++ b/f\n@@ -3,2 +3,2 @@ h\n c\n-x\n+y\n@@ -9,2 +9 @@\n-p\n-q\n+r\n"
    ∃ f, tables text 1 = .ok [f] ∧ f.table.NumberedThrough ∧
      f.table.groups.map (fun g => (g.kind, g.chunk, g.hiddenLines)) =
        [(.collapsed, 0, 2), (.equal, 1, 0), (.replace, 2, 0), (.collapsed, 3, 4),
          (.replace, 4, 0)] ∧
      (List.range 5).map f.table.line? = [some 3, some 4, some 9, some 10, none] := by
  intro text
  let gs : List Group :=
    [(Group.placeholder 0 2 [.above 1, .whole, .below 1, .toHeader 2 "h"]).withHeader "h",
      .new 1 .equal [⟨3, some 3, some 3, some "c", some "c", .none, false⟩],
      .new 2 .replace [⟨4, some 4, some 4, some "x", some "y", .none, false⟩],
      .placeholder 3 4 [.above 1, .whole, .below 1],
      .new 4 .replace [⟨9, some 9, some 9, some "p", some "r", .none, false⟩,
        ⟨10, some 10, none, some "q", none, .none, false⟩]]
  have hf : tables text 1 = .ok [⟨"f", none, .ofGroups gs⟩] := by decide +kernel
  exact ⟨_, hf, numberedThrough_tables hf _ List.mem_cons_self, rfl, rfl⟩

end Patch

end Marginalia.Diff
