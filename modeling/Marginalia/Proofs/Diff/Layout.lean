import Mathlib.Data.List.Forall2
import Marginalia.Proofs.Diff.Parsed

/-! How the table of a file is laid out: hunk by hunk, first the placeholder of the gap before the
hunk, if lines are hidden there, then one group for each segment, with a row for each line. -/

namespace Marginalia.Diff

/-- The number of the line that a row shows on a side. -/
def Row.number? (r : Row) : Side → Option UInt32
  | .left => r.oldLine
  | .right => r.newLine

def Row.text? (r : Row) : Side → Option String
  | .left => r.oldText
  | .right => r.newText

def HunkLine.number? (l : HunkLine) : Side → Option Nat
  | .left => l.oldNumber
  | .right => l.newNumber

/-- What a pair of an old and a new part has on a side. -/
def Side.of {α : Type} : Side → α × α → α
  | .left, p => p.1
  | .right, p => p.2

/-- A row that shows an old line, a new line, or both, on either side the number and the text. -/
def Row.Pairs (p : Option HunkLine × Option HunkLine) (r : Row) : Prop :=
  ∀ side, (r.number? side).map UInt32.toNat = (side.of p).bind (·.number? side) ∧
    r.text? side = (side.of p).map Patch.lineText

/-- A group that shows the rows of a segment and hides nothing. -/
structure Segment.ShownBy (s : Segment) (g : Group) : Prop where
  kind : g.kind = Patch.kindOf s
  hidden : g.hiddenLines = 0
  rows : List.Forall₂ Row.Pairs s.rows g.rows

/-- A placeholder of so many lines, or no group where no line is hidden. -/
inductive Hides : Nat → List Group → Prop
  | nothing : Hides 0 []
  | lines {n : Nat} {g : Group} (hp : g.isPlaceholder = true) (hr : g.rows = [])
      (hn : g.hiddenLines.toNat = n) (hpos : 0 < n) : Hides n [g]

/-- Groups that stand for hunks, each after a gap of so many hidden lines. -/
inductive Laid : List (Nat × Hunk) → List Group → Prop
  | nil : Laid [] []
  | cons {n : Nat} {h : Hunk} {hs : List (Nat × Hunk)} {gap body gs : List Group}
      (hgap : Hides n gap) (hbody : List.Forall₂ Segment.ShownBy h.segments body)
      (hrest : Laid hs gs) : Laid ((n, h) :: hs) (gap ++ body ++ gs)

theorem mapM_forall₂ {ε α β : Type} {f : α → Except ε β} {l : List α} {bs : List β}
    (h : l.mapM f = .ok bs) : List.Forall₂ (fun a b => f a = .ok b) l bs := by
  induction l generalizing bs with
  | nil =>
    obtain rfl : [] = bs := by simpa [pure, Except.pure] using h
    exact .nil
  | cons a l ih =>
    simp only [List.mapM_cons, bind_eq_ok, pure, Except.pure, Except.ok.injEq] at h
    obtain ⟨c, hc, cs, hcs, rfl⟩ := h
    exact .cons hc (ih hcs)

namespace Patch

theorem toNat_of_line {n : Nat} {m : UInt32} (h : line n = .ok m) : m.toNat = n := by
  unfold line at h
  split at h
  · rename_i hn
    obtain rfl := Except.ok.inj h
    exact UInt32.toNat_ofNat_of_lt' hn
  · simp at h

theorem toNat_of_line? {n : Option Nat} {m : Option UInt32} (h : line? n = .ok m) :
    m.map UInt32.toNat = n := by
  cases n with
  | none =>
    obtain rfl := Except.ok.inj h
    rfl
  | some n =>
    change (line n).map some = .ok m at h
    cases hn : line n with
    | error e => simp [hn, Except.map] at h
    | ok k =>
      obtain rfl : some k = m := by simpa [hn, Except.map] using h
      rw [Option.map_some, toNat_of_line hn]

theorem pairs_of_row {next n : Nat} {p : Option HunkLine × Option HunkLine} {r : Row}
    (h : row next p.1 p.2 = .ok (r, n)) : r.Pairs p := by
  simp only [row, bind_eq_ok, pure, Except.pure, Except.ok.injEq, Prod.mk.injEq] at h
  obtain ⟨old, hold, new, hnew, k, -, rfl, -⟩ := h
  intro side
  cases side with
  | left => exact ⟨toNat_of_line? hold, rfl⟩
  | right => exact ⟨toNat_of_line? hnew, rfl⟩

theorem pairs_of_rows {next n : Nat} {ps : List (Option HunkLine × Option HunkLine)}
    {rs : List Row} (h : rows next ps = .ok (rs, n)) : List.Forall₂ Row.Pairs ps rs := by
  induction ps generalizing next rs n with
  | nil =>
    obtain ⟨rfl, -⟩ : [] = rs ∧ next = n := by simpa [rows] using h
    exact .nil
  | cons p ps ih =>
    simp only [rows, bind_eq_ok, pure, Except.pure, Except.ok.injEq, Prod.mk.injEq] at h
    obtain ⟨⟨r, k⟩, hr, ⟨rs', m⟩, hrs, rfl, -⟩ := h
    exact .cons (pairs_of_row hr) (ih hrs)

/-- The hunks, each with the number of lines that the table hides before it, where `next` is the
old line after the hunk before. -/
def placed (next : Nat) : List Hunk → List (Nat × Hunk)
  | [] => []
  | h :: hs => (max h.oldStart 1 - next, h) :: placed (max h.oldStart 1 + h.oldLength) hs

namespace Builder

variable {b b' : Builder} {context : UInt32}

theorem groups_pushSegment {s : Segment} (h : b.pushSegment s = .ok b') :
    ∃ g, b'.groups = b.groups ++ [g] ∧ s.ShownBy g ∧ b'.nextOld = b.nextOld := by
  simp only [pushSegment, bind_eq_ok, pure, Except.pure, Except.ok.injEq] at h
  obtain ⟨⟨rs, n⟩, hrs, rfl⟩ := h
  exact ⟨_, rfl, ⟨rfl, rfl, pairs_of_rows hrs⟩, rfl⟩

theorem groups_pushSegments {ss : List Segment} (h : ss.foldlM pushSegment b = .ok b') :
    ∃ gs, b'.groups = b.groups ++ gs ∧ List.Forall₂ Segment.ShownBy ss gs ∧
      b'.nextOld = b.nextOld := by
  induction ss generalizing b with
  | nil =>
    obtain rfl : b = b' := by simpa [pure, Except.pure] using h
    exact ⟨[], (List.append_nil _).symm, .nil, rfl⟩
  | cons s ss ih =>
    rw [List.foldlM_cons, bind_eq_ok] at h
    obtain ⟨c, hc, h⟩ := h
    obtain ⟨g, hg, hs, hold⟩ := groups_pushSegment hc
    obtain ⟨gs, hgs, hss, hold'⟩ := ih h
    exact ⟨g :: gs, by rw [hgs, hg, List.append_assoc]; rfl, .cons hs hss, hold'.trans hold⟩

theorem groups_pushGap {hidden : UInt32} {header : List Char} (hpos : 0 < hidden.toNat)
    (h : b.pushGap context hidden header = .ok b') :
    ∃ gap, b'.groups = b.groups ++ gap ∧ Hides hidden.toNat gap := by
  simp only [pushGap, bind_eq_ok, pure, Except.pure, Except.ok.injEq] at h
  obtain ⟨n, -, rfl⟩ := h
  refine ⟨_, rfl, ?_⟩
  split
  · exact .lines rfl rfl rfl hpos
  · exact .lines rfl rfl rfl hpos

/-- A hunk with its gap: the builder that has the gap goes on to the segments. -/
theorem gap_of_pushHunk {h : Hunk} (hb : b.pushHunk context h = .ok b') :
    ∃ (c : Builder) (gap : List Group), c.groups = b.groups ++ gap ∧
      Hides (max h.oldStart 1 - b.nextOld) gap ∧
      h.segments.foldlM pushSegment { c with nextOld := max h.oldStart 1 + h.oldLength } =
        .ok b' := by
  simp only [pushHunk, bind_eq_ok] at hb
  obtain ⟨start, hstart, hb⟩ := hb
  have hlt := start.toNat_lt
  rw [toNat_of_line hstart] at hb hlt
  by_cases hpos : 0 < max h.oldStart 1 - b.nextOld
  · simp only [if_pos hpos, bind_eq_ok] at hb
    obtain ⟨c, hc, length, hlength, hb⟩ := hb
    have hhid : (UInt32.ofNat (max h.oldStart 1 - b.nextOld)).toNat =
        max h.oldStart 1 - b.nextOld :=
      UInt32.toNat_ofNat_of_lt' (by simp only [UInt32.size]; omega)
    obtain ⟨gap, hgap, hhides⟩ := groups_pushGap (hhid.symm ▸ hpos) hc
    rw [toNat_of_line hlength] at hb
    split at hb
    · exact ⟨c, gap, hgap, hhid ▸ hhides, hb⟩
    · simp at hb
  · have hzero : max h.oldStart 1 - b.nextOld = 0 := by omega
    simp only [if_neg hpos, bind_eq_ok] at hb
    obtain ⟨c, hc, length, hlength, hb⟩ := hb
    obtain rfl := Except.ok.inj hc
    rw [toNat_of_line hlength] at hb
    split at hb
    · exact ⟨b, [], (List.append_nil _).symm, hzero ▸ .nothing, hb⟩
    · simp at hb

theorem groups_pushHunk {h : Hunk} (hb : b.pushHunk context h = .ok b') :
    ∃ gap body, b'.groups = b.groups ++ (gap ++ body) ∧
      Hides (max h.oldStart 1 - b.nextOld) gap ∧
      List.Forall₂ Segment.ShownBy h.segments body ∧
      b'.nextOld = max h.oldStart 1 + h.oldLength := by
  obtain ⟨c, gap, hgap, hhides, hb⟩ := gap_of_pushHunk hb
  obtain ⟨body, hbody, hshown, hold⟩ := groups_pushSegments hb
  refine ⟨gap, body, ?_, hhides, hshown, hold⟩
  rw [hbody, ← List.append_assoc, ← hgap]

theorem laid_of_foldlM {hs : List Hunk} (h : hs.foldlM (pushHunk context) b = .ok b') :
    ∃ gs, b'.groups = b.groups ++ gs ∧ Laid (placed b.nextOld hs) gs := by
  induction hs generalizing b with
  | nil =>
    obtain rfl : b = b' := by simpa [pure, Except.pure] using h
    exact ⟨[], (List.append_nil _).symm, .nil⟩
  | cons k hs ih =>
    rw [List.foldlM_cons, bind_eq_ok] at h
    obtain ⟨c, hc, h⟩ := h
    obtain ⟨gap, body, hgroups, hgap, hbody, hold⟩ := groups_pushHunk hc
    obtain ⟨gs, hgs, hlaid⟩ := ih h
    rw [hold] at hlaid
    exact ⟨gap ++ body ++ gs, by rw [hgs, hgroups, List.append_assoc], .cons hgap hbody hlaid⟩

end Builder

/-- The tables of a diff are those of its files, in order, each laid out by its hunks. -/
theorem laid_tables {text : String} {context : UInt32} {files : List FileTable}
    (h : tables text context = .ok files) :
    ∃ patches, read text.toList = .ok patches ∧
      List.Forall₂ (fun p f => Laid (placed 1 p.hunks) f.table.groups) patches files := by
  unfold tables at h
  split at h
  · rename_i patches hread
    refine ⟨patches, hread, (mapM_forall₂ h).imp fun p f hf => ?_⟩
    unfold fileTable at hf
    simp only at hf
    split at hf
    · rename_i b hb
      obtain rfl := Except.ok.inj hf
      obtain ⟨gs, hgs, hlaid⟩ := Builder.laid_of_foldlM hb
      rw [show b.groups = gs from hgs]
      exact hlaid
    · simp at hf
  · simp at h

end Patch

end Marginalia.Diff
