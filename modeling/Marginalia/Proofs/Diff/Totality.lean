import Mathlib.Algebra.GroupWithZero.Nat
import Marginalia.Proofs.Diff.BreaksOff
import Marginalia.Proofs.Diff.Sides

/-! Every text has tables or a report of what is wrong with it, unless its reading breaks off. Once
a diff is read, it has tables exactly where all its numbers fit. -/

namespace Marginalia.Diff

open Patch (lineLimit placed)

/-- All line numbers that the table of a hunk works with are there. -/
structure Hunk.Fits (h : Hunk) : Prop where
  stop : max h.oldStart 1 + h.oldLength < lineLimit
  lines : ∀ side, ∀ l ∈ h.linesOn side, ∀ n ∈ l.number? side, n < lineLimit

/-- How many rows a hunk has in a table. -/
def Hunk.rowCount (h : Hunk) : Nat := (h.segments.flatMap Segment.rows).length

/-- How many lines a table numbers, those hidden before its hunks and those of the hunks, where
`next` is the old line that it begins with. -/
def lineCount (next : Nat) (hs : List Hunk) : Nat :=
  ((placed next hs).map fun p => p.1 + p.2.rowCount).sum

/-- The hunks fit, and the lines of the table can be numbered through from one. -/
structure FilePatch.Fits (p : FilePatch) : Prop where
  hunks : ∀ h ∈ p.hunks, h.Fits
  lines : 1 + lineCount 1 p.hunks < lineLimit

section Except

variable {ε α β : Type}

theorem exists_bind_eq_ok {x : Except ε α} {f : α → Except ε β} :
    (∃ b, (x >>= f) = .ok b) ↔ ∃ a, x = .ok a ∧ ∃ b, f a = .ok b := by
  constructor
  · rintro ⟨b, h⟩
    obtain ⟨a, ha, hb⟩ := bind_eq_ok.mp h
    exact ⟨a, ha, b, hb⟩
  · rintro ⟨a, ha, b, hb⟩
    exact ⟨b, bind_eq_ok.mpr ⟨a, ha, hb⟩⟩

theorem exists_mapM_eq_ok {f : α → Except ε β} {l : List α} :
    (∃ bs, l.mapM f = .ok bs) ↔ ∀ a ∈ l, ∃ b, f a = .ok b := by
  induction l with
  | nil => simp [pure, Except.pure]
  | cons a l ih =>
    rw [List.mapM_cons, exists_bind_eq_ok, List.forall_mem_cons]
    constructor
    · rintro ⟨b, hb, bs, hbs⟩
      obtain ⟨bs', hbs', -⟩ := bind_eq_ok.mp hbs
      exact ⟨⟨b, hb⟩, ih.mp ⟨bs', hbs'⟩⟩
    · rintro ⟨⟨b, hb⟩, hl⟩
      obtain ⟨bs, hbs⟩ := ih.mpr hl
      exact ⟨b, hb, b :: bs, bind_eq_ok.mpr ⟨bs, hbs, rfl⟩⟩

theorem exists_of_mapM_eq_error {f : α → Except ε β} {l : List α} {e : ε}
    (h : l.mapM f = .error e) : ∃ a ∈ l, f a = .error e := by
  induction l with
  | nil => cases h
  | cons a l ih =>
    rw [List.mapM_cons] at h
    cases ha : f a with
    | error e' =>
      rw [ha] at h
      cases h
      exact ⟨a, List.mem_cons_self, ha⟩
    | ok b =>
      cases hl : l.mapM f with
      | error e' =>
        rw [ha, hl] at h
        cases h
        obtain ⟨a', ha', he⟩ := ih hl
        exact ⟨a', List.mem_cons_of_mem a ha', he⟩
      | ok bs =>
        rw [ha, hl] at h
        cases h

end Except

namespace Patch

variable {next n : Nat} {ps : List (Option HunkLine × Option HunkLine)} {context : UInt32}

/-! ### Rows -/

theorem line_isOk_iff : (∃ m, line n = .ok m) ↔ n < lineLimit := by
  rw [line]
  split <;> simp [*]

theorem line?_isOk_iff {n : Option Nat} : (∃ m, line? n = .ok m) ↔ ∀ k ∈ n, k < lineLimit := by
  cases n with
  | none => simp [line?]
  | some k =>
    have hk : (∀ k' ∈ some k, k' < lineLimit) ↔ k < lineLimit := by simp
    rw [hk, ← line_isOk_iff, line?]
    cases line k <;> simp [Except.map]

/-- The lines of a pair have numbers that fit. -/
def PairFits (p : Option HunkLine × Option HunkLine) : Prop :=
  ∀ side : Side, ∀ l ∈ side.of p, ∀ n ∈ l.number? side, n < lineLimit

theorem pairFits_iff {p : Option HunkLine × Option HunkLine} :
    PairFits p ↔ (∀ n ∈ p.1.bind HunkLine.oldNumber, n < lineLimit) ∧
      ∀ n ∈ p.2.bind HunkLine.newNumber, n < lineLimit := by
  constructor
  · intro h
    refine ⟨?_, ?_⟩
    · intro n hn
      obtain ⟨l, hl, hln⟩ := Option.bind_eq_some_iff.mp hn
      exact h .left l hl n hln
    · intro n hn
      obtain ⟨l, hl, hln⟩ := Option.bind_eq_some_iff.mp hn
      exact h .right l hl n hln
  · rintro ⟨hold, hnew⟩ side l hl n hn
    cases side with
    | left => exact hold n (Option.bind_eq_some_iff.mpr ⟨l, hl, hn⟩)
    | right => exact hnew n (Option.bind_eq_some_iff.mpr ⟨l, hl, hn⟩)

theorem row_isOk_iff {p : Option HunkLine × Option HunkLine} :
    (∃ r, row next p.1 p.2 = .ok r) ↔ PairFits p ∧ next + 1 < lineLimit := by
  rw [pairFits_iff, ← line?_isOk_iff, ← line?_isOk_iff]
  simp only [row, exists_bind_eq_ok, reserve_eq_ok]
  constructor
  · rintro ⟨m, hm, m', hm', _, ⟨hlim, -⟩, -⟩
    exact ⟨⟨⟨m, hm⟩, m', hm'⟩, hlim⟩
  · rintro ⟨⟨⟨m, hm⟩, m', hm'⟩, hlim⟩
    exact ⟨m, hm, m', hm', _, ⟨hlim, rfl⟩, _, rfl⟩

theorem rows_isOk_iff (hnext : next < lineLimit) :
    (∃ r, rows next ps = .ok r) ↔ (∀ p ∈ ps, PairFits p) ∧ next + ps.length < lineLimit := by
  induction ps generalizing next with
  | nil => simp [rows, hnext]
  | cons p ps ih =>
    rw [List.forall_mem_cons, List.length_cons, rows, exists_bind_eq_ok]
    constructor
    · rintro ⟨⟨r, k⟩, hr, hrest⟩
      obtain ⟨hfits, hlim⟩ := row_isOk_iff.mp ⟨_, hr⟩
      obtain ⟨rfl, -⟩ := row_next hr
      obtain ⟨rs, hrs, -⟩ := exists_bind_eq_ok.mp hrest
      obtain ⟨hall, hlen⟩ := (ih hlim).mp ⟨rs, hrs⟩
      exact ⟨⟨hfits, hall⟩, by omega⟩
    · rintro ⟨⟨hfits, hall⟩, hlen⟩
      have hlim : next + 1 < lineLimit := by omega
      obtain ⟨⟨r, k⟩, hr⟩ := row_isOk_iff.mpr ⟨hfits, hlim⟩
      obtain ⟨rfl, -⟩ := row_next hr
      obtain ⟨rs, hrs⟩ := (ih hlim).mpr ⟨hall, by omega⟩
      exact ⟨_, hr, exists_bind_eq_ok.mpr ⟨rs, hrs, _, rfl⟩⟩

namespace Builder

variable {b c d : Builder} {s : Segment} {h : Hunk}

/-! ### Hunks -/

theorem pushSegment_isOk_iff (hb : b.nextLine < lineLimit) :
    (∃ c, b.pushSegment s = .ok c) ↔
      (∀ p ∈ s.rows, PairFits p) ∧ b.nextLine + s.rows.length < lineLimit := by
  rw [← rows_isOk_iff hb, pushSegment, exists_bind_eq_ok]
  constructor
  · rintro ⟨r, hr, -⟩
    exact ⟨r, hr⟩
  · rintro ⟨r, hr⟩
    exact ⟨r, hr, _, rfl⟩

theorem nextLine_pushSegment (hc : b.pushSegment s = .ok c) :
    c.nextLine = b.nextLine + s.rows.length := by
  obtain ⟨⟨rs, n⟩, hrs, hc⟩ := bind_eq_ok.mp hc
  obtain rfl := Except.ok.inj hc
  exact (rows_next hrs).1

theorem pushSegments_isOk_iff {ss : List Segment} (hb : b.nextLine < lineLimit) :
    (∃ c, ss.foldlM pushSegment b = .ok c) ↔ (∀ p ∈ ss.flatMap Segment.rows, PairFits p) ∧
      b.nextLine + (ss.flatMap Segment.rows).length < lineLimit := by
  induction ss generalizing b with
  | nil => simp [pure, Except.pure, hb]
  | cons s ss ih =>
    rw [List.foldlM_cons, exists_bind_eq_ok, List.flatMap_cons, List.length_append,
      List.forall_mem_append]
    constructor
    · rintro ⟨c, hc, hrest⟩
      obtain ⟨hfits, hlim⟩ := (pushSegment_isOk_iff hb).mp ⟨c, hc⟩
      have hnext := nextLine_pushSegment hc
      obtain ⟨hall, hlen⟩ := (ih (hnext ▸ hlim)).mp hrest
      exact ⟨⟨hfits, hall⟩, by omega⟩
    · rintro ⟨⟨hfits, hall⟩, hlen⟩
      have hlim : b.nextLine + s.rows.length < lineLimit := by omega
      obtain ⟨c, hc⟩ := (pushSegment_isOk_iff hb).mpr ⟨hfits, hlim⟩
      have hnext := nextLine_pushSegment hc
      exact ⟨c, hc, (ih (hnext ▸ hlim)).mpr ⟨hall, by omega⟩⟩

theorem nextLine_pushSegments {ss : List Segment} (hc : ss.foldlM pushSegment b = .ok c) :
    c.nextLine = b.nextLine + (ss.flatMap Segment.rows).length := by
  induction ss generalizing b with
  | nil =>
    obtain rfl := Except.ok.inj hc
    rfl
  | cons s ss ih =>
    obtain ⟨d, hd, hc⟩ := bind_eq_ok.mp (List.foldlM_cons.symm.trans hc)
    rw [ih hc, nextLine_pushSegment hd, List.flatMap_cons, List.length_append, Nat.add_assoc]

/-- The pairs of a hunk's rows fit where the lines on both sides do. -/
theorem pairs_fit_iff (h : Hunk) : (∀ p ∈ h.segments.flatMap Segment.rows, PairFits p) ↔
    ∀ side, ∀ l ∈ h.linesOn side, ∀ n ∈ l.number? side, n < lineLimit := by
  constructor
  · intro hall side l hl
    rw [← filterMap_segments, List.mem_filterMap] at hl
    obtain ⟨p, hp, hpl⟩ := hl
    exact hall p hp side l hpl
  · intro hall p hp side l hl
    apply hall side l
    rw [← filterMap_segments, List.mem_filterMap]
    exact ⟨p, hp, hl⟩

/-- A builder with the gap before a hunk. -/
def withGap (context : UInt32) (b : Builder) (h : Hunk) : Except LineError Builder :=
  let hidden := max h.oldStart 1 - b.nextOld
  if 0 < hidden then b.pushGap context (UInt32.ofNat hidden) (Text.trim h.header) else .ok b

/-- A hunk that starts at a line number there is has as many lines before it as a word holds. -/
theorem toNat_hidden (hs : max h.oldStart 1 < lineLimit) :
    (UInt32.ofNat (max h.oldStart 1 - b.nextOld)).toNat = max h.oldStart 1 - b.nextOld :=
  UInt32.toNat_ofNat_of_lt' (Nat.lt_of_le_of_lt (Nat.sub_le _ _) hs)

theorem nextLine_withGap (hs : max h.oldStart 1 < lineLimit) (hd : b.withGap context h = .ok d) :
    d.nextLine = b.nextLine + (max h.oldStart 1 - b.nextOld) := by
  have hcount := toNat_hidden (b := b) hs
  simp only [withGap] at hd
  split at hd
  · simp only [pushGap, bind_eq_ok, reserve_eq_ok, hcount] at hd
    obtain ⟨n, ⟨-, rfl⟩, hd⟩ := hd
    obtain rfl := Except.ok.inj hd
    rfl
  · obtain rfl := Except.ok.inj hd
    omega

theorem withGap_isOk_iff (hs : max h.oldStart 1 < lineLimit) (hb : b.nextLine < lineLimit) :
    (∃ d, b.withGap context h = .ok d) ↔
      b.nextLine + (max h.oldStart 1 - b.nextOld) < lineLimit := by
  have hcount := toNat_hidden (b := b) hs
  simp only [withGap]
  split
  · simp only [pushGap, exists_bind_eq_ok, reserve_eq_ok, hcount]
    constructor
    · rintro ⟨n, ⟨hlim, -⟩, -⟩
      exact hlim
    · intro hlim
      exact ⟨_, ⟨hlim, rfl⟩, _, rfl⟩
  · constructor
    · intro _
      omega
    · intro _
      exact ⟨b, rfl⟩

theorem pushHunk_eq {start : UInt32} (hs : line h.oldStart = .ok start) :
    b.pushHunk context h = b.withGap context h >>= fun d => line h.oldLength >>= fun length =>
      if max h.oldStart 1 + length.toNat < lineLimit then
        h.segments.foldlM pushSegment { d with nextOld := max h.oldStart 1 + length.toNat }
      else .error (.hunkOverflow h.oldStart h.oldLength) := by
  simp only [pushHunk, withGap, hs, bind, Except.bind, toNat_of_line hs]
  split <;> rfl

theorem pushHunk_eq_ok_iff : b.pushHunk context h = .ok c ↔
    max h.oldStart 1 + h.oldLength < lineLimit ∧ ∃ d, b.withGap context h = .ok d ∧
      h.segments.foldlM pushSegment { d with nextOld := max h.oldStart 1 + h.oldLength } =
        .ok c := by
  constructor
  · intro hc
    obtain ⟨start, hs, -⟩ := bind_eq_ok.mp hc
    rw [pushHunk_eq hs] at hc
    obtain ⟨d, hd, hc⟩ := bind_eq_ok.mp hc
    obtain ⟨length, hlength, hc⟩ := bind_eq_ok.mp hc
    rw [toNat_of_line hlength] at hc
    split at hc
    · next hstop => exact ⟨hstop, d, hd, hc⟩
    · cases hc
  · rintro ⟨hstop, d, hd, hc⟩
    obtain ⟨start, hs⟩ := line_isOk_iff.mpr (show h.oldStart < lineLimit by omega)
    obtain ⟨length, hlength⟩ := line_isOk_iff.mpr (show h.oldLength < lineLimit by omega)
    rw [pushHunk_eq hs]
    refine bind_eq_ok.mpr ⟨d, hd, bind_eq_ok.mpr ⟨length, hlength, ?_⟩⟩
    rw [toNat_of_line hlength, if_pos hstop]
    exact hc

theorem nextLine_pushHunk (hc : b.pushHunk context h = .ok c) :
    c.nextLine = b.nextLine + (max h.oldStart 1 - b.nextOld + h.rowCount) := by
  obtain ⟨hstop, d, hd, hc⟩ := pushHunk_eq_ok_iff.mp hc
  have hgap := nextLine_withGap (by omega) hd
  have hrows := nextLine_pushSegments hc
  simp only [Hunk.rowCount] at *
  omega

theorem pushHunk_isOk_iff (hb : b.nextLine < lineLimit) :
    (∃ c, b.pushHunk context h = .ok c) ↔ h.Fits ∧
      b.nextLine + (max h.oldStart 1 - b.nextOld + h.rowCount) < lineLimit := by
  simp only [pushHunk_eq_ok_iff]
  constructor
  · rintro ⟨c, hstop, d, hd, hc⟩
    have hs : max h.oldStart 1 < lineLimit := by omega
    -- The rows are numbered from where the gap ends, so the gap comes first.
    have hlim := (withGap_isOk_iff hs hb).mp ⟨d, hd⟩
    have hgap := nextLine_withGap hs hd
    obtain ⟨hfits, hrows⟩ := (pushSegments_isOk_iff (hgap ▸ hlim)).mp ⟨c, hc⟩
    refine ⟨⟨hstop, (pairs_fit_iff h).mp hfits⟩, ?_⟩
    simp only [Hunk.rowCount] at *
    omega
  · rintro ⟨⟨hstop, hlines⟩, hlim⟩
    have hs : max h.oldStart 1 < lineLimit := by omega
    have hgaplim : b.nextLine + (max h.oldStart 1 - b.nextOld) < lineLimit := by omega
    have hopened : ∃ d, b.withGap context h = .ok d := (withGap_isOk_iff hs hb).mpr hgaplim
    obtain ⟨d, hd⟩ := hopened
    have hgap := nextLine_withGap hs hd
    have hrows : d.nextLine + h.rowCount < lineLimit := by omega
    obtain ⟨c, hc⟩ := (pushSegments_isOk_iff
      (b := { d with nextOld := max h.oldStart 1 + h.oldLength }) (hgap ▸ hgaplim)).mpr
        ⟨(pairs_fit_iff h).mpr hlines, hrows⟩
    exact ⟨c, hstop, d, hd, hc⟩

theorem pushHunks_isOk_iff {hs : List Hunk} (hb : b.nextLine < lineLimit) :
    (∃ c, hs.foldlM (pushHunk context) b = .ok c) ↔
      (∀ h ∈ hs, h.Fits) ∧ b.nextLine + lineCount b.nextOld hs < lineLimit := by
  induction hs generalizing b with
  | nil => simp [pure, Except.pure, lineCount, placed, hb]
  | cons h hs ih =>
    have hcount : lineCount b.nextOld (h :: hs) = (max h.oldStart 1 - b.nextOld + h.rowCount) +
        lineCount (max h.oldStart 1 + h.oldLength) hs := by
      rw [lineCount, placed, List.map_cons, List.sum_cons]
      rfl
    rw [List.foldlM_cons, exists_bind_eq_ok, List.forall_mem_cons, hcount]
    constructor
    · rintro ⟨c, hc, hrest⟩
      obtain ⟨hfits, hlim⟩ := (pushHunk_isOk_iff hb).mp ⟨c, hc⟩
      have hnext := nextLine_pushHunk hc
      obtain ⟨-, -, -, -, -, hold⟩ := groups_pushHunk hc
      obtain ⟨hall, hlen⟩ := (ih (hnext ▸ hlim)).mp hrest
      rw [hold] at hlen
      exact ⟨⟨hfits, hall⟩, by omega⟩
    · rintro ⟨⟨hfits, hall⟩, hlen⟩
      have hlim : b.nextLine + (max h.oldStart 1 - b.nextOld + h.rowCount) < lineLimit := by omega
      have hpushed : ∃ c, b.pushHunk context h = .ok c := (pushHunk_isOk_iff hb).mpr ⟨hfits, hlim⟩
      obtain ⟨c, hc⟩ := hpushed
      have hnext := nextLine_pushHunk hc
      obtain ⟨-, -, -, -, -, hold⟩ := groups_pushHunk hc
      refine ⟨c, hc, (ih (hnext ▸ hlim)).mpr ⟨hall, ?_⟩⟩
      rw [hold]
      omega

end Builder

/-! ### Tables -/

theorem fileTable_isOk_iff {p : FilePatch} : (∃ f, fileTable context p = .ok f) ↔ p.Fits := by
  have hfits : p.Fits ↔ ∃ b, p.hunks.foldlM (Builder.pushHunk context) Builder.start = .ok b := by
    rw [Builder.pushHunks_isOk_iff (by decide)]
    exact ⟨fun h => ⟨h.hunks, h.lines⟩, fun h => ⟨h.1, h.2⟩⟩
  rw [hfits]
  simp only [fileTable]
  cases p.hunks.foldlM (Builder.pushHunk context) Builder.start with
  | error e =>
    constructor
    · rintro ⟨f, hf⟩
      cases hf
    · rintro ⟨b, hb⟩
      cases hb
  | ok b =>
    constructor
    · intro _
      exact ⟨b, rfl⟩
    · intro _
      exact ⟨_, rfl⟩

/-- What is wrong with a file is said of the file, so it is reported. -/
theorem report?_of_fileTable {p : FilePatch} {e : DiffError}
    (h : fileTable context p = .error e) :
    ∃ m, e.report? = some ("Failed to parse diff: " ++ m) := by
  simp only [fileTable] at h
  cases hb : p.hunks.foldlM (Builder.pushHunk context) Builder.start with
  | error cause =>
    rw [hb] at h
    cases h
    refine ⟨String.ofList (cleanPath p.target) ++ ": " ++ cause.message, ?_⟩
    simp only [DiffError.report?, String.append_assoc]
  | ok b =>
    rw [hb] at h
    cases h

theorem tables_isOk_iff {text : String} {patches : List FilePatch}
    (hr : read text.toList = .ok patches) :
    (∃ files, tables text context = .ok files) ↔ ∀ p ∈ patches, p.Fits := by
  rw [tables, hr]
  simp only [exists_mapM_eq_ok, fileTable_isOk_iff]

theorem report?_of_tables {text : String} {patches : List FilePatch} {e : DiffError}
    (hr : read text.toList = .ok patches) (h : tables text context = .error e) :
    ∃ m, e.report? = some ("Failed to parse diff: " ++ m) := by
  rw [tables, hr] at h
  obtain ⟨p, -, hp⟩ := exists_of_mapM_eq_error h
  exact report?_of_fileTable hp

/-- A text that is no diff is reported, or its reading is given up. -/
theorem report?_of_read {e : PatchError} :
    (∃ m, (DiffError.patch e).report? = some ("Failed to parse diff: " ++ m)) ↔
      ¬ (e = .strayTarget ∨ e = .numberTooLarge) := by
  cases e with
  | strayTarget => simp [DiffError.report?, PatchError.report?]
  | numberTooLarge => simp [DiffError.report?, PatchError.report?]
  | targetWithoutSource line => simp [DiffError.report?, PatchError.report?]
  | hunkWithoutFile line => simp [DiffError.report?, PatchError.report?]

/-- Every text has tables or a report of what is wrong with it, if its reading does not break off.
A diff that is read has tables exactly where its line numbers fit. -/
theorem tables_total (text : String) (context : UInt32) :
    (((∃ files, tables text context = .ok files) ∨ ∃ e m, tables text context = .error e ∧
        e.report? = some ("Failed to parse diff: " ++ m)) ↔
      ¬ BreaksOff (Text.lines text.toList)) ∧
    ∀ patches, read text.toList = .ok patches →
      ((∃ files, tables text context = .ok files) ↔ ∀ p ∈ patches, p.Fits) := by
  refine ⟨?_, fun patches hr => tables_isOk_iff hr⟩
  rw [← breaksOff_iff]
  cases hr : read text.toList with
  | error e =>
    have htables : tables text context = .error (.patch e) := by rw [tables, hr]
    have hreport := report?_of_read (e := e)
    rw [htables]
    constructor
    · rintro (⟨files, hfiles⟩ | ⟨e', m, he, hm⟩)
      · cases hfiles
      · cases he
        simpa using hreport.mp ⟨m, hm⟩
    · intro hne
      obtain ⟨m, hm⟩ := hreport.mpr (by simpa using hne)
      exact .inr ⟨_, m, rfl, hm⟩
  | ok patches =>
    refine ⟨fun _ => by simp, fun _ => ?_⟩
    cases h : tables text context with
    | ok files => exact .inl ⟨files, rfl⟩
    | error e =>
      obtain ⟨m, hm⟩ := report?_of_tables hr h
      exact .inr ⟨e, m, rfl, hm⟩

/-- The one old line of a hunk has the last number there is, so no line can follow it: the diff is
read, and the hunk is reported. -/
theorem tables_total_last_line :
    let text := "--- a/f\n+++ b/f\n@@ -4294967295 +1 @@\n x\n"
    ∃ e m, tables text 1 = .error e ∧ e.report? = some ("Failed to parse diff: " ++ m) := by
  intro text
  have hread : read text.toList = .ok [⟨"a/f".toList, "b/f".toList, [⟨4294967295, 1, 1, 1, [],
      [⟨.context, ['x'], some 4294967295, some 1⟩]⟩]⟩] := by decide +kernel
  have hnot : ¬ BreaksOff (Text.lines text.toList) := by
    rw [← breaksOff_iff, hread]
    simp
  rcases (tables_total text 1).1.mpr hnot with hok | herror
  · have hfits := ((tables_total text 1).2 _ hread).mp hok _ List.mem_cons_self
    have hstop := (hfits.hunks _ List.mem_cons_self).stop
    exact absurd hstop (by decide)
  · exact herror

/-- A hunk number past sixty-four bits and a target name without a source name: there are no tables,
and nothing is reported. -/
theorem breaks_off_unreported :
    let large := tables "--- a/f\n+++ b/f\n@@ -18446744073709551616 +1 @@\n x\n" 1
    let stray := tables "+++ b/x\n" 20
    (∃ e, large = .error e ∧ e.report? = none) ∧ ∃ e, stray = .error e ∧ e.report? = none := by
  intro large stray
  have hlarge : large = .error (.patch .numberTooLarge) := by decide +kernel
  have hstray : stray = .error (.patch .strayTarget) := by decide +kernel
  exact ⟨⟨_, hlarge, rfl⟩, _, hstray, rfl⟩

end Patch

end Marginalia.Diff
