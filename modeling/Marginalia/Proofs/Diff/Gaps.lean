import Mathlib.Algebra.GroupWithZero.Nat
import Marginalia.Proofs.Diff.Numbering

/-! The gaps of a diff. Where hunks follow one another as the format has it, a placeholder stands
for the lines skipped before its hunk, and lines are counted through on either side. A hunk that
only adds lines, below a line of the old file, slips: the placeholder before it is one line short,
and the missing line turns up in the gap after it. Gaps and numbers are right where each gap is
between two hunks that slip or two that do not, or is empty and before one that slips. If no hunk is
without lines, neither the gaps nor the numbers are right anywhere else. -/

namespace Marginalia.Diff

/-- The first line of a hunk on a side. A side without lines names the line before the hunk. -/
def Hunk.first (h : Hunk) (side : Side) : Nat :=
  if h.length side = 0 then h.start side + 1 else h.start side

/-- The line after a hunk. -/
def Hunk.next (h : Hunk) (side : Side) : Nat := h.first side + h.length side

/-- A body of as many lines on either side as the header states. -/
def Hunk.Complete (h : Hunk) : Prop := ∀ side, (h.linesOn side).length = h.length side

/-- The hunks of a well-formed file, from the line `next` of each side on: all are complete, none
begins before that line, and as many lines are skipped on the old side as on the new. -/
def WellFormed (next : Side → Nat) : List Hunk → Prop
  | [] => True
  | h :: hs => h.Complete ∧ (∀ side, next side ≤ h.first side) ∧
      h.first .left - next .left = h.first .right - next .right ∧ WellFormed h.next hs

/-- The hunks, each with the number of lines skipped before it. -/
def skips (next : Nat) : List Hunk → List (Nat × Hunk)
  | [] => []
  | h :: hs => (h.first .left - next, h) :: skips (h.next .left) hs

/-- One for a hunk that only adds lines, below a line of the old file. -/
def Hunk.slip (h : Hunk) : Nat := if h.oldLength = 0 ∧ 0 < h.oldStart then 1 else 0

/-- The hunks, each with the number of lines hidden before it: a line is missing before a hunk that
slips, and one is too many after it. -/
def slipped (slip next : Nat) : List Hunk → List (Nat × Hunk)
  | [] => []
  | h :: hs => (h.first .left - next + slip - h.slip, h) :: slipped h.slip (h.next .left) hs

/-- Each gap is between two hunks that slip or two that do not, or is empty and before one that
slips. -/
def Steady (slip next : Nat) : List Hunk → Prop
  | [] => True
  | h :: hs => (h.slip = slip ∨ slip < h.slip ∧ h.first .left = next) ∧
      Steady h.slip (h.next .left) hs

/-- The lines that the placeholders among groups hide. -/
def hiddenLines (gs : List Group) : Nat :=
  ((gs.filter Group.isPlaceholder).map fun g => g.hiddenLines.toNat).sum

/-- Each line number shown on a side is one more than the lines hidden before its row and the lines
shown before it on that side. -/
def CountsThrough (side : Side) (gs : List Group) : Prop :=
  ∀ A g B R r R' n, gs = A ++ g :: B → g.rows = R ++ r :: R' → r.number? side = some n →
    n.toNat = 1 + hiddenLines A + (A.flatMap Group.rows ++ R).countP (·.shows side)

variable {n : Side → Nat} {hs : List Hunk} {gs : List Group} {h k : Hunk} {slip : Nat}

theorem slip_le (h : Hunk) : h.slip ≤ 1 := by
  unfold Hunk.slip
  split <;> omega

/-- The table takes a hunk to begin one line too high where it slips. -/
theorem first_eq (hf : 1 ≤ h.first .left) : h.first .left = max h.oldStart 1 + h.slip := by
  simp only [Hunk.first, Hunk.length, Hunk.start, Hunk.slip] at hf ⊢
  by_cases hzero : h.oldLength = 0
  · by_cases hpos : 0 < h.oldStart
    · simp only [hzero, hpos, and_self, if_true]
      omega
    · simp only [hzero, hpos, and_false, if_true, if_false]
      omega
  · simp only [hzero, false_and, if_false] at hf ⊢
    omega

theorem placed_eq (hw : WellFormed n hs) (hslip : slip ≤ n .left) (hn : 1 ≤ n .left) :
    Patch.placed (n .left - slip) hs = slipped slip (n .left) hs := by
  induction hs generalizing n slip with
  | nil => rfl
  | cons h hs ih =>
    obtain ⟨-, hle, -, hw⟩ := hw
    have hstart := hle .left
    have hfirst := first_eq (hn.trans hstart)
    have hlast : h.next .left = h.first .left + h.oldLength := rfl
    have hone := slip_le h
    have hgap : max h.oldStart 1 - (n .left - slip) = h.first .left - n .left + slip - h.slip := by
      omega
    have hnext : max h.oldStart 1 + h.oldLength = h.next .left - h.slip := by omega
    rw [Patch.placed, slipped, hgap, hnext, ih hw (by omega) (by omega)]

theorem slipped_eq_skips_iff (hw : WellFormed n hs) :
    slipped slip (n .left) hs = skips (n .left) hs ↔ Steady slip (n .left) hs := by
  induction hs generalizing n slip with
  | nil => simp [slipped, skips, Steady]
  | cons h hs ih =>
    obtain ⟨-, hle, -, hw⟩ := hw
    have hstart := hle .left
    have hgap : h.first .left - n .left + slip - h.slip = h.first .left - n .left ↔
        h.slip = slip ∨ slip < h.slip ∧ h.first .left = n .left := by
      omega
    rw [slipped, skips, Steady, List.cons.injEq, Prod.mk.injEq, ih hw, hgap]
    simp

/-- The lines that groups stand for on a side: a hidden line without its number, a shown one with
it. -/
def reading (side : Side) (gs : List Group) : List (Option Nat) :=
  gs.flatMap fun g =>
    List.replicate (hiddenLines [g]) none ++ (shownOn side g.rows).map Prod.fst

/-- Where a line has a number, it is the one that its place gives it. -/
def Counts (n : Nat) (xs : List (Option Nat)) : Prop := ∀ i m, xs[i]? = some (some m) → m = n + i

theorem Counts.append {k : Nat} {xs ys : List (Option Nat)} (hx : Counts k xs)
    (hy : Counts (k + xs.length) ys) : Counts k (xs ++ ys) := by
  intro i m hi
  rcases Nat.lt_or_ge i xs.length with hlt | hge
  · rw [List.getElem?_append_left hlt] at hi
    exact hx i m hi
  · rw [List.getElem?_append_right hge] at hi
    have hm := hy _ m hi
    omega

theorem Counts.of_append {k : Nat} {xs ys : List (Option Nat)} (h : Counts k (xs ++ ys)) :
    Counts (k + xs.length) ys := by
  intro i m hi
  have hplace : (xs ++ ys)[xs.length + i]? = some (some m) := by
    rw [List.getElem?_append_right (by omega), Nat.add_sub_cancel_left]
    exact hi
  have hm := h _ _ hplace
  omega

theorem counts_replicate (k l : Nat) : Counts k (List.replicate l none) := by
  intro i m hi
  simp [List.getElem?_replicate] at hi

theorem counts_range' (k l : Nat) : Counts k ((List.range' k l).map some) := by
  intro i m hi
  rw [List.getElem?_map, Option.map_eq_some_iff] at hi
  obtain ⟨a, ha, hm⟩ := hi
  obtain rfl := Option.some.inj hm
  have hlt : i < l := by
    by_contra hge
    simp [Nat.le_of_not_lt hge] at ha
  rw [List.getElem?_range' hlt, Option.some.injEq] at ha
  omega

theorem hiddenLines_append (gs gs' : List Group) :
    hiddenLines (gs ++ gs') = hiddenLines gs + hiddenLines gs' := by
  simp [hiddenLines]

theorem reading_append (side : Side) (gs gs' : List Group) :
    reading side (gs ++ gs') = reading side gs ++ reading side gs' := by
  simp [reading]

theorem length_shownOn (side : Side) (rs : List Row) :
    (shownOn side rs).length = rs.countP (·.shows side) := by
  rw [shownOn, List.length_map, List.countP_eq_length_filter]

theorem length_reading (side : Side) (gs : List Group) :
    (reading side gs).length =
      hiddenLines gs + (gs.flatMap Group.rows).countP (·.shows side) := by
  induction gs with
  | nil => rfl
  | cons g gs ih =>
    rw [← List.singleton_append, reading_append, List.length_append, ih, hiddenLines_append,
      List.flatMap_append, List.countP_append]
    simp only [reading, List.flatMap_singleton, List.length_append, List.length_replicate,
      List.length_map, length_shownOn]
    omega

theorem reading_hides {k : Nat} {gap : List Group} (side : Side) (h : Hides k gap) :
    reading side gap = List.replicate k none := by
  cases h with
  | nothing => rfl
  | lines hp hr hn hpos =>
    simp [reading, hiddenLines, hp, hr, hn, shownOn]

theorem reading_segments {ss : List Segment} (h : List.Forall₂ Segment.ShownBy ss gs)
    (side : Side) :
    reading side gs = (shownOn side (gs.flatMap Group.rows)).map Prod.fst := by
  induction h with
  | nil => rfl
  | @cons s g ss gs hs _ ih =>
    have hg : hiddenLines [g] = 0 := by
      by_cases hp : g.isPlaceholder = true <;> simp [hiddenLines, hp, hs.hidden]
    rw [← List.singleton_append, reading_append, ih, List.flatMap_append, shownOn_append,
      List.map_append]
    simp [reading, hg]

/-- A hunk is read with the numbers of its lines. -/
theorem reading_hunk (hnum : h.Numbered) {body : List Group}
    (hbody : List.Forall₂ Segment.ShownBy h.segments body) (side : Side) :
    reading side body = (List.range' (h.start side) (h.linesOn side).length).map some := by
  rw [reading_segments hbody, shownOn_segments hbody, filterMap_segments, List.map_map, ← hnum side]
  rfl

theorem reading_cons {l : Nat} {gap body : List Group} (hc : h.Complete) (hnum : h.Numbered)
    (hgap : Hides l gap) (hbody : List.Forall₂ Segment.ShownBy h.segments body) (side : Side) :
    reading side (gap ++ body ++ gs) = List.replicate l none ++
      ((List.range' (h.start side) (h.length side)).map some ++ reading side gs) := by
  rw [reading_append, reading_append, reading_hides side hgap, reading_hunk hnum hbody, hc side,
    List.append_assoc]

/-- As many lines are skipped before a hunk on either side. -/
theorem WellFormed.skip_eq (hw : WellFormed n (h :: hs)) (side : Side) :
    h.first .left - n .left = h.first side - n side := by
  obtain ⟨-, -, hskip, -⟩ := hw
  cases side with
  | left => rfl
  | right => exact hskip

theorem counts_laid (hw : WellFormed n hs) (hnum : ∀ h ∈ hs, h.Numbered)
    (hl : Laid (skips (n .left) hs) gs) (side : Side) : Counts (n side) (reading side gs) := by
  induction hs generalizing n gs with
  | nil =>
    cases hl
    intro i m hi
    simp [reading] at hi
  | cons h hs ih =>
    have hside := hw.skip_eq side
    obtain ⟨hc, hle, -, hw⟩ := hw
    cases hl with
    | @cons _ _ _ gap body gs hgap hbody hrest =>
      have hstart := hle side
      have hbelow := ih hw (fun k hk => hnum k (List.mem_cons_of_mem h hk)) hrest
      rw [hside] at hgap
      rw [reading_cons hc (hnum h List.mem_cons_self) hgap hbody]
      have hfirst : n side + (h.first side - n side) = h.first side := by omega
      apply (counts_replicate _ _).append
      rw [List.length_replicate, hfirst]
      apply Counts.append
      · -- a side without lines has no number to be wrong about
        by_cases hzero : h.length side = 0
        · intro i m hi
          simp [hzero] at hi
        · have hs : h.start side = h.first side := by rw [Hunk.first, if_neg hzero]
          rw [hs]
          exact counts_range' _ _
      · rw [List.length_map, List.length_range']
        exact hbelow

theorem not_isPlaceholder_of_shownBy {s : Segment} {g : Group} (h : s.ShownBy g) :
    ¬ g.isPlaceholder = true := by
  intro hp
  rw [Group.isPlaceholder, h.kind, beq_iff_eq] at hp
  exact Patch.Builder.kindOf_ne_collapsed s hp

theorem not_isPlaceholder_of_segments {ss : List Segment}
    (h : List.Forall₂ Segment.ShownBy ss gs) : ∀ g ∈ gs, ¬ g.isPlaceholder = true := by
  induction h with
  | nil => simp
  | cons hs _ ih =>
    intro g hg
    rcases List.mem_cons.mp hg with rfl | hg
    · exact not_isPlaceholder_of_shownBy hs
    · exact ih g hg

theorem rows_of_laid {ps : List (Nat × Hunk)} (hl : Laid ps gs) :
    ∀ g ∈ gs, g.isPlaceholder = true → g.rows = [] := by
  induction hl with
  | nil => simp
  | cons hgap hbody _ ih =>
    intro g hg hp
    rcases List.mem_append.mp hg with hg | hg
    · rcases List.mem_append.mp hg with hg | hg
      · cases hgap with
        | nothing => simp at hg
        | lines _ hr _ _ => rw [List.mem_singleton.mp hg, hr]
      · exact absurd hp (not_isPlaceholder_of_segments hbody g hg)
    · exact ih g hg hp

/-- A group with rows hides nothing. -/
theorem hiddenLines_of_row {g : Group} {R R' : List Row} {r : Row}
    (hempty : g.isPlaceholder = true → g.rows = []) (hrows : g.rows = R ++ r :: R') :
    hiddenLines [g] = 0 := by
  have hp : ¬ g.isPlaceholder = true := by
    intro hp
    simp [hempty hp] at hrows
  simp [hiddenLines, hp]

theorem countsThrough_of_laid {ps : List (Nat × Hunk)} {side : Side} (hl : Laid ps gs)
    (hc : Counts 1 (reading side gs)) : CountsThrough side gs := by
  intro A g B R r R' k hgs hrows hr
  have hg : hiddenLines [g] = 0 := hiddenLines_of_row (rows_of_laid hl g (by simp [hgs])) hrows
  have hshows : r.shows side = true := by rw [Row.shows, hr]; rfl
  have hplace : (reading side gs)[(reading side A).length + R.countP (·.shows side)]? =
      some (some k.toNat) := by
    have hrow : (shownOn side g.rows).map Prod.fst =
        (shownOn side R).map Prod.fst ++ some k.toNat :: (shownOn side R').map Prod.fst := by
      rw [hrows, ← List.singleton_append, shownOn_append, shownOn_append]
      simp [shownOn, hshows, hr]
    rw [hgs, ← List.singleton_append, reading_append, reading_append,
      List.getElem?_append_right (by omega), Nat.add_sub_cancel_left]
    simp only [reading, List.flatMap_singleton, hg, List.replicate_zero, List.nil_append, hrow]
    rw [← length_shownOn]
    simp
  have hk := hc _ _ hplace
  rw [length_reading] at hk
  rw [List.countP_append]
  omega

/-- A number that is read from rows is that of one of them. -/
theorem exists_row_of_shownOn {side : Side} {rs : List Row} {j m : Nat}
    (h : ((shownOn side rs).map Prod.fst)[j]? = some (some m)) :
    ∃ R r R' k, rs = R ++ r :: R' ∧ r.number? side = some k ∧ k.toNat = m ∧
      R.countP (·.shows side) = j := by
  induction rs generalizing j with
  | nil => simp [shownOn] at h
  | cons r rs ih =>
    rw [← List.singleton_append, shownOn_append, List.map_append] at h
    by_cases hs : r.shows side = true
    · cases j with
      | zero =>
        obtain ⟨k, hk, hm⟩ : ∃ k, r.number? side = some k ∧ k.toNat = m := by
          simpa [shownOn, hs] using h
        exact ⟨[], r, rs, k, rfl, hk, hm, rfl⟩
      | succ j =>
        obtain ⟨R, r', R', k, rfl, hk, hm, hj⟩ := ih (j := j) (by simpa [shownOn, hs] using h)
        exact ⟨r :: R, r', R', k, rfl, hk, hm, by simp [hs, hj]⟩
    · obtain ⟨R, r', R', k, rfl, hk, hm, hj⟩ := ih (j := j) (by simpa [shownOn, hs] using h)
      exact ⟨r :: R, r', R', k, rfl, hk, hm, by simp [hs, hj]⟩

/-- A number that is read from groups is that of a row, and its place is that of the row. -/
theorem exists_row_of_reading {side : Side} {i m : Nat}
    (hempty : ∀ g ∈ gs, g.isPlaceholder = true → g.rows = [])
    (h : (reading side gs)[i]? = some (some m)) :
    ∃ A g B R r R' k, gs = A ++ g :: B ∧ g.rows = R ++ r :: R' ∧ r.number? side = some k ∧
      k.toNat = m ∧ i = hiddenLines A + (A.flatMap Group.rows ++ R).countP (·.shows side) := by
  induction gs generalizing i with
  | nil => simp [reading] at h
  | cons g gs ih =>
    have hlength := length_reading side [g]
    rw [← List.singleton_append, reading_append] at h
    rcases Nat.lt_or_ge i (reading side [g]).length with hlt | hge
    · rw [List.getElem?_append_left hlt, reading, List.flatMap_singleton] at h
      rcases Nat.lt_or_ge i (hiddenLines [g]) with hhidden | hshown
      · rw [List.getElem?_append_left (by simpa using hhidden)] at h
        simp [List.getElem?_replicate] at h
      · rw [List.getElem?_append_right (by simpa using hshown), List.length_replicate] at h
        obtain ⟨R, r, R', k, hrows, hk, hm, hj⟩ := exists_row_of_shownOn h
        have hg : hiddenLines [g] = 0 := hiddenLines_of_row (hempty g List.mem_cons_self) hrows
        have hnone : hiddenLines [] = 0 := rfl
        refine ⟨[], g, gs, R, r, R', k, rfl, hrows, hk, hm, ?_⟩
        rw [hnone, List.flatMap_nil, List.nil_append, hj]
        omega
    · rw [List.getElem?_append_right hge] at h
      obtain ⟨A, g', B, R, r, R', k, rfl, hrows, hk, hm, hi⟩ :=
        ih (fun g' hg' => hempty g' (List.mem_cons_of_mem g hg')) h
      refine ⟨g :: A, g', B, R, r, R', k, rfl, hrows, hk, hm, ?_⟩
      rw [← List.singleton_append, hiddenLines_append, List.flatMap_append, List.append_assoc,
        List.countP_append]
      omega

theorem counts_of_countsThrough {side : Side}
    (hempty : ∀ g ∈ gs, g.isPlaceholder = true → g.rows = []) (hc : CountsThrough side gs) :
    Counts 1 (reading side gs) := by
  intro i m hi
  obtain ⟨A, g, B, R, r, R', k, hgs, hrows, hk, rfl, rfl⟩ := exists_row_of_reading hempty hi
  have hcount := hc A g B R r R' k hgs hrows hk
  omega

/-- A hunk that is not without lines has lines on a side. -/
theorem exists_linesOn_ne_nil (h : k.segments ≠ []) : ∃ side, k.linesOn side ≠ [] := by
  obtain ⟨l, hl⟩ : ∃ l, l ∈ k.lines.filter fun l => l.kind ≠ .remark := by
    apply List.exists_mem_of_ne_nil
    intro hnil
    apply h
    rw [Hunk.segments, hnil, Segment.ofLines]
  obtain ⟨hmem, hkind⟩ := List.mem_filter.mp hl
  obtain ⟨side, hside⟩ : ∃ side, l.isOn side = true := by
    cases hk : l.kind with
    | context => exact ⟨.left, by simp [HunkLine.isOn, hk, LineKind.isOn]⟩
    | removed => exact ⟨.left, by simp [HunkLine.isOn, hk, LineKind.isOn]⟩
    | added => exact ⟨.right, by simp [HunkLine.isOn, hk, LineKind.isOn]⟩
    | remark => simp [hk] at hkind
  exact ⟨side, List.ne_nil_of_mem (List.mem_filter.mpr ⟨hmem, hside⟩)⟩

/-- Where the lines are counted through, each gap hides as many lines as are skipped there. -/
theorem steady_of_counts (hw : WellFormed n hs) (hnum : ∀ h ∈ hs, h.Numbered)
    (hne : ∀ h ∈ hs, h.segments ≠ []) (hl : Laid (slipped slip (n .left) hs) gs)
    (hc : ∀ side, Counts (n side) (reading side gs)) : Steady slip (n .left) hs := by
  induction hs generalizing n slip gs with
  | nil => trivial
  | cons h hs ih =>
    have hskip := hw.skip_eq
    obtain ⟨hcomplete, hle, -, hw⟩ := hw
    cases hl with
    | @cons _ _ _ gap body gs hgap hbody hrest =>
      have hbehind (side : Side) :
          Counts (n side + (h.first .left - n .left + slip - h.slip))
            ((List.range' (h.start side) (h.length side)).map some ++ reading side gs) := by
        have hread := hc side
        rw [reading_cons hcomplete (hnum h List.mem_cons_self) hgap hbody] at hread
        simpa using hread.of_append
      -- the first line on a side where the hunk has lines tells how many are hidden before it
      have hhidden : h.first .left - n .left + slip - h.slip = h.first .left - n .left := by
        obtain ⟨side, hside⟩ := exists_linesOn_ne_nil (hne h List.mem_cons_self)
        have hpos : 0 < h.length side := by
          rw [← hcomplete side]
          exact List.length_pos_of_ne_nil hside
        have hfirst : h.start side = h.first side := by rw [Hunk.first, if_neg (by omega)]
        have hfront : ((List.range' (h.start side) (h.length side)).map some ++
            reading side gs)[0]? = some (some (h.start side)) := by
          rw [List.getElem?_append_left (by simpa using hpos)]
          simp [hpos]
        have hplace := hbehind side 0 _ hfront
        have hstart := hle side
        have hgap := hskip side
        omega
      have hstart := hle .left
      refine ⟨by omega, ih hw ?_ ?_ hrest ?_⟩
      · exact fun k hk => hnum k (List.mem_cons_of_mem h hk)
      · exact fun k hk => hne k (List.mem_cons_of_mem h hk)
      · intro side
        have hnext : n side + (h.first .left - n .left) + h.length side = h.next side := by
          have hstart := hle side
          rw [hskip side, Hunk.next]
          omega
        have hbelow := (hbehind side).of_append
        rwa [hhidden, List.length_map, List.length_range', hnext] at hbelow

/-- Before groups that begin with rows, it can be told how many lines are hidden. -/
theorem hides_unique {k l : Nat} {gap gap' xs ys : List Group} (h : Hides k gap)
    (h' : Hides l gap') (hx : ∀ g, xs.head? = some g → ¬ g.isPlaceholder = true)
    (hy : ∀ g, ys.head? = some g → ¬ g.isPlaceholder = true) (he : gap ++ xs = gap' ++ ys) :
    k = l ∧ xs = ys := by
  cases h with
  | nothing =>
    cases h' with
    | nothing => exact ⟨rfl, he⟩
    | lines hp hr hn hpos => exact absurd hp (hx _ (by rw [← List.nil_append xs, he]; rfl))
  | lines hp hr hn hpos =>
    cases h' with
    | nothing => exact absurd hp (hy _ (by rw [← List.nil_append ys, ← he]; rfl))
    | lines hp' hr' hn' hpos' =>
      obtain ⟨hg, hxy⟩ := List.cons.inj he
      rw [hg] at hn
      exact ⟨hn.symm.trans hn', hxy⟩

theorem head_of_segments {ss : List Segment} {body : List Group}
    (h : List.Forall₂ Segment.ShownBy ss body) (hne : ss ≠ []) (gs : List Group) :
    ∀ g, (body ++ gs).head? = some g → ¬ g.isPlaceholder = true := by
  intro g hg
  cases h with
  | nil => exact absurd rfl hne
  | cons hs _ =>
    obtain rfl := Option.some.inj hg
    exact not_isPlaceholder_of_shownBy hs

/-- Groups tell how many lines are hidden before each hunk, if no hunk is without lines. -/
theorem laid_unique {ps qs : List (Nat × Hunk)} {gs' : List Group} (hp : Laid ps gs)
    (hq : Laid qs gs') (hgs : gs = gs') (hm : ps.map Prod.snd = qs.map Prod.snd)
    (hne : ∀ p ∈ ps, p.2.segments ≠ []) : ps = qs := by
  induction hp generalizing qs gs' with
  | nil => exact (List.map_eq_nil_iff.mp hm.symm).symm
  | @cons k h hs gap body gs hgap hbody hrest ih =>
    cases hq with
    | nil => simp at hm
    | @cons l h' hs' gap' body' gs' hgap' hbody' hrest' =>
      obtain ⟨rfl, hm'⟩ : h = h' ∧ hs.map Prod.snd = hs'.map Prod.snd := by simpa using hm
      have hseg : h.segments ≠ [] := hne (k, h) List.mem_cons_self
      rw [List.append_assoc, List.append_assoc] at hgs
      obtain ⟨rfl, hgs⟩ := hides_unique hgap hgap' (head_of_segments hbody hseg gs)
        (head_of_segments hbody' hseg gs') hgs
      have hlen : body.length = body'.length :=
        hbody.length_eq.symm.trans hbody'.length_eq
      obtain ⟨-, hgs⟩ := List.append_inj hgs hlen
      rw [ih hrest' hgs hm' fun p hp => hne p (List.mem_cons_of_mem _ hp)]

theorem map_snd_skips (next : Nat) (hs : List Hunk) : (skips next hs).map Prod.snd = hs := by
  induction hs generalizing next with
  | nil => rfl
  | cons h hs ih => rw [skips, List.map_cons, ih]

theorem steady_of_no_slip {next : Nat} (h : ∀ h ∈ hs, h.slip = 0) : Steady 0 next hs := by
  induction hs generalizing next with
  | nil => trivial
  | cons k hs ih =>
    have hk := h k List.mem_cons_self
    refine ⟨Or.inl hk, ?_⟩
    rw [hk]
    exact ih fun m hm => h m (List.mem_cons_of_mem k hm)

/-- How groups count the lines of well-formed hunks. Gaps and numbers are right where the hunks are
steady, and neither is right anywhere else if no hunk is without lines. -/
structure Accounts (hs : List Hunk) (gs : List Group) : Prop where
  hidden : Laid (slipped 0 1 hs) gs
  skipped : Steady 0 1 hs → Laid (skips 1 hs) gs
  counts : Steady 0 1 hs → ∀ side, CountsThrough side gs
  steady : (∀ h ∈ hs, h.segments ≠ []) → Laid (skips 1 hs) gs → Steady 0 1 hs
  counted : (∀ h ∈ hs, h.segments ≠ []) → (∀ side, CountsThrough side gs) → Steady 0 1 hs

theorem accounts_of_laid (hw : WellFormed (fun _ => 1) hs) (hnum : ∀ h ∈ hs, h.Numbered)
    (hl : Laid (Patch.placed 1 hs) gs) : Accounts hs gs := by
  have hplaced : Patch.placed 1 hs = slipped 0 1 hs := placed_eq hw (Nat.zero_le 1) le_rfl
  have hiff : slipped 0 1 hs = skips 1 hs ↔ Steady 0 1 hs := slipped_eq_skips_iff hw
  have hseg : (Patch.placed 1 hs).map Prod.snd = hs := Patch.map_snd_placed 1 hs
  rw [hplaced] at hl hseg
  refine ⟨hl, fun hs => hiff.mpr hs ▸ hl, fun hs side => ?_, fun hne hskips => hiff.mp ?_,
    fun hne hcounts => ?_⟩
  · exact countsThrough_of_laid hl (counts_laid hw hnum (hiff.mpr hs ▸ hl) side)
  · refine laid_unique hl hskips rfl (hseg.trans (map_snd_skips 1 hs).symm) fun p hp => hne p.2 ?_
    exact hseg ▸ List.mem_map_of_mem hp
  · apply steady_of_counts hw hnum hne hl
    intro side
    exact counts_of_countsThrough (rows_of_laid hl) (hcounts side)

namespace Patch

/-- The table of each well-formed file accounts for all lines that its hunks skip or hold, except
for the line by which a hunk slips. -/
theorem accounts_tables {text : String} {context : UInt32} {files : List FileTable}
    (h : tables text context = .ok files) :
    ∃ patches, read text.toList = .ok patches ∧
      List.Forall₂ (fun p f => WellFormed (fun _ => 1) p.hunks →
        Accounts p.hunks f.table.groups) patches files := by
  obtain ⟨patches, hread, hlaid⟩ := laid_tables h
  have hnum := numbered_read hread
  refine ⟨patches, hread, ?_⟩
  rw [List.forall₂_iff_zip] at hlaid ⊢
  refine ⟨hlaid.1, fun {p f} hpf hw => ?_⟩
  exact accounts_of_laid hw (hnum p (List.of_mem_zip hpf).1) (hlaid.2 hpf)

/-- A change below context, and two lines removed further down where no context is around them. -/
theorem accounts_removed_below :
    let text := "--- a/f\n+++ b/f\n@@ -3,2 +3,2 @@\n c\n-x\n+y\n@@ -9,2 +8,0 @@\n-p\n-q\n"
    let h : Hunk := ⟨3, 2, 3, 2, [], [⟨.context, ['c'], some 3, some 3⟩,
      ⟨.removed, ['x'], some 4, none⟩, ⟨.added, ['y'], none, some 4⟩]⟩
    let k : Hunk := ⟨9, 2, 8, 0, [], [⟨.removed, ['p'], some 9, none⟩,
      ⟨.removed, ['q'], some 10, none⟩]⟩
    WellFormed (fun _ => 1) [h, k] ∧ ∃ f, tables text 1 = .ok [f] ∧
      Laid [(2, h), (4, k)] f.table.groups ∧ ∀ side, CountsThrough side f.table.groups := by
  intro text h k
  have hw : WellFormed (fun _ => 1) [h, k] := by
    refine ⟨fun side => ?_, fun side => ?_, rfl, fun side => ?_, fun side => ?_, rfl, trivial⟩ <;>
      cases side <;> decide
  refine ⟨hw, ?_⟩
  have hread : read text.toList = .ok [⟨"a/f".toList, "b/f".toList, [h, k]⟩] := by decide +kernel
  obtain ⟨files, hfiles⟩ := exists_eq_ok_of_isOk
    (show (tables text 1).isOk = true by decide +kernel)
  obtain ⟨patches, hread', hall⟩ := accounts_tables hfiles
  obtain rfl := Except.ok.inj (hread.symm.trans hread')
  obtain ⟨f, fs, hf, hfs, rfl⟩ := List.forall₂_cons_left_iff.mp hall
  obtain rfl := List.forall₂_nil_left_iff.mp hfs
  have hs : Steady 0 1 [h, k] := steady_of_no_slip (by decide)
  exact ⟨f, hfiles, (hf hw).skipped hs, (hf hw).counts hs⟩

/-- Two lines added below the fifth line: the placeholder hides four lines, not the five that are
skipped, and the first new line is the sixth, not the fifth. -/
theorem not_countsThrough_added_below :
    let text := "--- a/f\n+++ b/f\n@@ -5,0 +6,2 @@\n+x\n+y\n"
    let h : Hunk := ⟨5, 0, 6, 2, [], [⟨.added, ['x'], none, some 6⟩, ⟨.added, ['y'], none, some 7⟩]⟩
    let gs : List Group :=
      [.placeholder 0 4 [.above 1, .whole, .below 1],
        .new 1 .insert [⟨5, none, some 6, none, some "x", .none, false⟩,
          ⟨6, none, some 7, none, some "y", .none, false⟩]]
    read text.toList = .ok [⟨"a/f".toList, "b/f".toList, [h]⟩] ∧
      tables text 1 = .ok [⟨"f", none, .ofGroups gs⟩] ∧
      WellFormed (fun _ => 1) [h] ∧ skips 1 [h] = [(5, h)] ∧ ¬ Laid (skips 1 [h]) gs ∧
      ¬ CountsThrough .right gs := by
  intro text h gs
  have hread : read text.toList = .ok [⟨"a/f".toList, "b/f".toList, [h]⟩] := by decide +kernel
  have htables : tables text 1 = .ok [⟨"f", none, .ofGroups gs⟩] := by decide +kernel
  have hw : WellFormed (fun _ => 1) [h] := by
    refine ⟨fun side => ?_, fun side => ?_, rfl, trivial⟩ <;> cases side <;> decide
  refine ⟨hread, htables, hw, rfl, fun hl => ?_, fun hc => ?_⟩
  · obtain ⟨patches, hread', hlaid⟩ := laid_tables htables
    obtain rfl := Except.ok.inj (hread.symm.trans hread')
    obtain ⟨hlaid, -⟩ := List.forall₂_cons.mp hlaid
    have hnum := numbered_read hread _ List.mem_cons_self
    have hseg : ∀ k ∈ [h], k.segments ≠ [] := by decide +kernel
    obtain ⟨hs, -⟩ := (accounts_of_laid hw hnum hlaid).steady hseg hl
    exact absurd hs (by decide)
  · have hrow := hc [.placeholder 0 4 [.above 1, .whole, .below 1]] _ [] [] _ _ 6 rfl rfl rfl
    exact absurd hrow (by decide)

end Patch

end Marginalia.Diff
