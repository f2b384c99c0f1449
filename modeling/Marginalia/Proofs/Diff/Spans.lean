import Marginalia.Proofs.Diff.Counting
import Marginalia.Proofs.Diff.Release

/-! The spans of new comments. On the table of a diff, whatever the pointer does, a span that the
editor is opened for lies within the table, its lines are those of its first and last row, and it
has as many of them as the numbers say, rows and hidden lines together. -/

namespace Marginalia.Diff

/-- No answer comes in: the reviewer does something, or a comment is stored or deleted. -/
def Operation.isLocal : Operation → Bool
  | .answer _ _ => false
  | .act _ | .comment _ _ _ => true

/-- A span over rows of a table, from the lowest of their lines to the highest. The words of its
lines are subtracted and counted without a carry, and there is a line for each row at least. -/
structure Span.Measured (span : Span) (t : Table) : Prop where
  ordered : span.firstRow ≤ span.lastRow
  within : span.lastRow.toNat < t.rowCount
  firstLine : t.line? span.firstRow.toNat = some span.firstLine
  lastLine : t.line? span.lastRow.toNat = some span.lastLine
  between : ∀ i, span.firstRow.toNat ≤ i → i ≤ span.lastRow.toNat →
    ∃ n, t.line? i = some n ∧ span.firstLine ≤ n ∧ n ≤ span.lastLine
  noBorrow : span.firstLine ≤ span.lastLine
  noCarry : (span.lastLine - span.firstLine).toNat + 1 < UInt32.size
  count : span.lineCount.toNat = span.lastLine.toNat - span.firstLine.toNat + 1
  rows : span.lastRow.toNat - span.firstRow.toNat + 1 ≤ span.lineCount.toNat

namespace Span

variable {span : Span} {t t' : Table}

theorem Measured.reflagged (h : span.Measured t) (hr : t.Reflagged t') : span.Measured t' := by
  have hcount : t'.rowCount = t.rowCount := congrArg List.length hr.index
  refine ⟨h.ordered, hcount ▸ h.within, (hr.line?_eq _).trans h.firstLine,
    (hr.line?_eq _).trans h.lastLine, ?_, h.noBorrow, h.noCarry, h.count, h.rows⟩
  intro i hlow hhigh
  obtain ⟨n, hn, hbounds⟩ := h.between i hlow hhigh
  exact ⟨n, (hr.line?_eq i).trans hn, hbounds⟩

/-- Lines are counted from one, so that the count of a span is no more than its last line. -/
theorem toNat_lineCount (span : Span) (hone : 1 ≤ span.firstLine)
    (hle : span.firstLine ≤ span.lastLine) :
    (span.lastLine - span.firstLine).toNat + 1 < UInt32.size ∧
      span.lineCount.toNat = span.lastLine.toNat - span.firstLine.toNat + 1 := by
  have hsub := UInt32.toNat_sub_of_le _ _ hle
  have hlast := span.lastLine.toNat_lt
  rw [UInt32.le_iff_toNat_le, UInt32.toNat_one] at hone
  have hcarry : (span.lastLine - span.firstLine).toNat + 1 < UInt32.size := by
    simp only [UInt32.size]
    omega
  refine ⟨hcarry, ?_⟩
  rw [lineCount, UInt32.toNat_add, UInt32.toNat_one, Nat.mod_eq_of_lt hcarry, hsub]

variable {row row' : UInt64} {a b : UInt32} {side : Side}

/-- In a counted table, the lines of two rows measure the span from one to the other. -/
theorem measured_of_le (side : Side) (hi : t.Indexed) (hc : Counted t.groups) (h : row ≤ row')
    (ha : t.line? row.toNat = some a) (hb : t.line? row'.toNat = some b) :
    (⟨row, row', a, b, side⟩ : Span).Measured t := by
  have hrows : row.toNat ≤ row'.toNat := UInt64.le_iff_toNat_le.mp h
  have hlines := hc.line_add_le hi hrows ha hb
  have hle : a ≤ b := by
    rw [UInt32.le_iff_toNat_le]
    omega
  have hlast := lt_rowCount_of_line? hi hb
  obtain ⟨hcarry, hcount⟩ :=
    toNat_lineCount ⟨row, row', a, b, side⟩ (hc.one_le_line hi ha) hle
  refine ⟨h, hlast, ha, hb, ?_, hle, hcarry, hcount, ?_⟩
  · intro i hlow hhigh
    obtain ⟨k, n, -, hn, -⟩ := hc.line_at hi (Nat.lt_of_le_of_lt hhigh hlast)
    have hfirst := hc.line_add_le hi hlow ha hn
    have hend := hc.line_add_le hi hhigh hn hb
    refine ⟨n, hn, ?_, ?_⟩ <;> rw [UInt32.le_iff_toNat_le] <;> dsimp only <;> omega
  · rw [hcount]
    dsimp only
    omega

/-- It does not matter which of the two rows comes first. -/
theorem measured_of_lines (hi : t.Indexed) (hc : Counted t.groups)
    (ha : t.line? row.toNat = some a) (hb : t.line? row'.toNat = some b) :
    (⟨min row row', max row row', min a b, max a b, side⟩ : Span).Measured t := by
  by_cases h : row ≤ row'
  · have hmeasured := measured_of_le side hi hc h ha hb
    have hle : a ≤ b := hmeasured.noBorrow
    have hmin : min row row' = row := if_pos h
    have hmax : max row row' = row' := if_pos h
    have hlow : min a b = a := if_pos hle
    have hhigh : max a b = b := if_pos hle
    rwa [hmin, hmax, hlow, hhigh]
  · have hlt : row'.toNat < row.toNat := by
      rw [UInt64.le_iff_toNat_le] at h
      omega
    have hle : ¬ a ≤ b := by
      have hline := hc.line_lt hi hlt hb ha
      rw [UInt32.lt_iff_toNat_lt] at hline
      rw [UInt32.le_iff_toNat_le]
      omega
    have hmin : min row row' = row' := if_neg h
    have hmax : max row row' = row := if_neg h
    have hlow : min a b = b := if_neg hle
    have hhigh : max a b = a := if_neg hle
    rw [hmin, hmax, hlow, hhigh]
    exact measured_of_le side hi hc (UInt64.le_iff_toNat_le.mpr (Nat.le_of_lt hlt)) hb ha

end Span

namespace Session

variable {s : Session} {t : Table}

theorem reflagged_of_isLocal {op : Operation} (h : op.isLocal = true) :
    s.table.Reflagged (s.perform op).table := by
  cases op with
  | act a => exact s.reflagged_handle a
  | comment row side value => exact s.table.reflagged_setComment row side value
  | answer r result => cases h

/-- Without answers, nothing but flags of rows changes. -/
theorem reflagged_run {ops : List Operation} (h : ∀ op ∈ ops, op.isLocal = true) :
    s.table.Reflagged (s.run ops).table := by
  induction ops generalizing s with
  | nil => exact .refl _
  | cons op ops ih =>
    obtain ⟨hop, hops⟩ := List.forall_mem_cons.mp h
    exact (reflagged_of_isLocal hop).trans (ih hops)

/-- The editor is opened by a release, for the rows and lines from the cell held down to the row
that was reached. -/
theorem openEditor_cases {held : Option (Cell × UInt64)} (h : s.selector.Follows s.table held)
    {a : Action} {file : File} {span : Span} (he : .openEditor file span ∈ (s.handle a).2) :
    ∃ (p : Cell) (row : UInt64) (m n : UInt32), s.table.line? p.row.toNat = some m ∧
      s.table.line? row.toNat = some n ∧
      span = ⟨min p.row row, max p.row row, min m n, max m n, p.side⟩ := by
  cases a with
  | pointerEnter c => simp [handle] at he
  | pointerLeave c onto => simp [handle] at he
  | pointerDown c => simp [handle] at he
  | expand chunk reveal =>
    rw [handle] at he
    cases hx : s.requests.expand s.table chunk reveal <;> simp [send, hx] at he
  | collapse chunk =>
    rw [handle] at he
    cases hx : s.requests.collapse s.table chunk <;> simp [send, hx] at he
  | pointerUp c =>
    have hreleased := released_of_follows h c
    by_cases hc : PointsAtComment s.table c
    · rw [hreleased.existing hc] at he
      simp at he
    · cases held with
      | none =>
        rw [hreleased.nothing hc rfl] at he
        simp at he
      | some p =>
        obtain ⟨m, n, hm, hn, hevents⟩ := hreleased.created hc p.1 p.2 rfl
        rw [hevents] at he
        simp only [List.mem_singleton, Event.openEditor.injEq] at he
        exact ⟨p.1, p.2, m, n, hm, hn, he.2⟩

/-- On the table of a diff, the pointer does whatever it does and comments come and go. The span of
each comment that is begun then is measured by the table. -/
theorem measured_run (ht : t.Parsed) (file : File) {ops : List Operation}
    (hops : ∀ op ∈ ops, op.isLocal = true) {a : Action} {f : File} {span : Span}
    (he : .openEditor f span ∈ (((new file t).run ops).handle a).2) :
    span.Measured ((new file t).run ops).table := by
  obtain ⟨hi, hc⟩ := ht.counted
  have hr : t.Reflagged ((new file t).run ops).table := reflagged_run (s := new file t) hops
  obtain ⟨p, row, m, n, hm, hn, rfl⟩ := openEditor_cases (follows_run rfl ops) he
  rw [hr.line?_eq] at hm hn
  exact (Span.measured_of_lines hi hc hm hn).reflagged hr

/-- A drag from the last row up to the first one, over two hidden lines, with a comment stored on the
way: three rows, and five lines. -/
theorem measured_run_up_over_gap :
    let text := "--- a/f\n+++ b/f\n@@ -1 +1 @@\n-a\n+b\n@@ -4 +4,2 @@\n c\n+d\n"
    let gs : List Group :=
      [.new 0 .replace [⟨1, some 1, some 1, some "a", some "b", .none, false⟩],
        .placeholder 1 2 [.above 1, .whole, .below 1],
        .new 2 .equal [⟨4, some 4, some 4, some "c", some "c", .none, false⟩],
        .new 3 .insert [⟨5, none, some 5, none, some "d", .none, false⟩]]
    let ops : List Operation :=
      [.act (.pointerDown ⟨2, .right, .lineNumber⟩), .comment 1 .left true,
        .act (.pointerEnter ⟨0, .left, .ghostFlag⟩)]
    let s := (new (.new 0 0 0) (.ofGroups gs)).run ops
    let span : Span := ⟨0, 2, 1, 5, .right⟩
    Patch.tables text 1 = .ok [⟨"f", none, .ofGroups gs⟩] ∧ (∀ op ∈ ops, op.isLocal = true) ∧
      .openEditor (.new 0 0 0) span ∈ (s.handle (.pointerUp ⟨1, .left, .contents⟩)).2 ∧
      span.Measured s.table ∧ span.lineCount = 5 := by
  intro text gs ops s span
  have hf : Patch.tables text 1 = .ok [⟨"f", none, .ofGroups gs⟩] := by decide +kernel
  have ht : (Table.ofGroups gs).Parsed := ⟨text, 1, _, _, hf, List.mem_cons_self, rfl⟩
  have hops : ∀ op ∈ ops, op.isLocal = true := by simp [ops, Operation.isLocal]
  have he : .openEditor (.new 0 0 0) span ∈ (s.handle (.pointerUp ⟨1, .left, .contents⟩)).2 := by
    decide
  exact ⟨hf, hops, he, measured_run ht _ hops he, by decide⟩

end Session

end Marginalia.Diff
