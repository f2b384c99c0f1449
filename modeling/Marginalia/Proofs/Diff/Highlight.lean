import Marginalia.Proofs.Diff.Release

/-! The rows that a drag highlights. A move flags rows between the row last seen and the new one
alone, and leaves the table as if all rows of the drag had been left out and those of the longer or
shorter one selected anew. It can do so because all rows of a drag are selected in every state of a
run. -/

namespace Marginalia.Diff

/-- Groups are told by their rows and by what they are without the flags of these. -/
theorem groups_ext {gs hs : List Group} (hb : gs.map Group.blank = hs.map Group.blank)
    (hr : gs.flatMap Group.rows = hs.flatMap Group.rows) : gs = hs := by
  induction gs generalizing hs with
  | nil =>
    obtain rfl : hs = [] := by simpa using hb.symm
    rfl
  | cons g gs ih =>
    cases hs with
    | nil => simp at hb
    | cons k hs =>
      simp only [List.map_cons, List.cons.injEq] at hb
      have hlen : g.rows.length = k.rows.length := by
        simpa [Group.blank] using congrArg (fun g : Group => g.rows.length) hb.1
      obtain ⟨hrows, hrest⟩ := List.append_inj hr hlen
      have hg : g = k := by
        obtain ⟨hgk, -⟩ := hb
        cases g
        cases k
        simp_all [Group.blank]
      rw [hg, ih hb.2 hrest]

/-- The rows from one to another, whichever of them comes first. -/
def Between (a b : UInt64) (i : Nat) : Prop :=
  min a.toNat b.toNat ≤ i ∧ i ≤ max a.toNat b.toNat

instance (a b : UInt64) (i : Nat) : Decidable (Between a b i) :=
  inferInstanceAs (Decidable (_ ∧ _))

theorem Between.symm {a b : UInt64} {i : Nat} (h : Between a b i) : Between b a i := by
  unfold Between at h ⊢
  omega

/-- Wherever a third row is, what is between two rows is between it and one of them. -/
theorem Between.through {a b : UInt64} {i : Nat} (h : Between a b i) (c : UInt64) :
    Between a c i ∨ Between c b i := by
  unfold Between at h ⊢
  omega

namespace Table

variable {t t' t'' : Table}

/-- Tables that differ in flags of rows only are the same if the rows at all places are. -/
theorem Reflagged.ext_row? (h : t.Indexed) (h' : t.Reflagged t') (h'' : t.Reflagged t'')
    (hr : ∀ i, t'.row? i = t''.row? i) : t' = t'' := by
  have hrows : t'.rows = t''.rows := by
    apply List.ext_getElem?
    intro i
    rw [← row?_eq (h'.indexed h), ← row?_eq (h''.indexed h), hr i]
  have hg : t'.groups = t''.groups := groups_ext (h'.groups.trans h''.groups.symm) hrows
  have hi : t'.index = t''.index := h'.index.trans h''.index.symm
  have hb : t'.buttons = t''.buttons := h'.buttons.trans h''.buttons.symm
  cases t'
  cases t''
  simp_all

theorem row?_selectEach (is : List Nat) (w : Nat → Bool) (h : t.Indexed) (j : Nat) :
    (is.foldl (fun t i => t.setSelected i (w i)) t).row? j =
      (t.row? j).map fun r => if j ∈ is then { r with selected := w j } else r := by
  induction is generalizing t with
  | nil => simp
  | cons i is ih =>
    rw [List.foldl_cons, ih (indexed_setSelected h i (w i)), setSelected, row?_modifyRow h]
    by_cases hj : i = j
    · subst hj
      cases t.row? i <;> simp
    · simp [hj, Ne.symm hj]

/-- One flag for all rows from one to another. -/
def flagBetween (t : Table) (a b : UInt64) (v : Bool) : Table :=
  t.selectBetween (min a b).toNat (max a b).toNat fun _ => v

theorem row?_selectBetween (h : t.Indexed) (a b : UInt64) (w : Nat → Bool) (j : Nat) :
    (t.selectBetween (min a b).toNat (max a b).toNat w).row? j =
      (t.row? j).map fun r => if Between a b j then { r with selected := w j } else r := by
  have hm : j ∈ List.range' (min a b).toNat ((max a b).toNat + 1 - (min a b).toNat) ↔
      Between a b j := by
    rw [List.mem_range'_1, toNat_min, toNat_max, Between]
    omega
  rw [selectBetween, row?_selectEach _ w h]
  simp only [hm]

theorem row?_flagBetween (h : t.Indexed) (a b : UInt64) (v : Bool) (j : Nat) :
    (t.flagBetween a b v).row? j =
      (t.row? j).map fun r => if Between a b j then { r with selected := v } else r :=
  row?_selectBetween h a b _ j

theorem reflagged_flagBetween (t : Table) (a b : UInt64) (v : Bool) :
    t.Reflagged (t.flagBetween a b v) :=
  t.reflagged_selectBetween _ _ _

theorem mem_selectedRows_flagBetween (h : t.Indexed) (a b : UInt64) (v : Bool) (i : Nat) :
    i ∈ (t.flagBetween a b v).selectedRows ↔
      if Between a b i then v = true ∧ t.hasRow i = true else i ∈ t.selectedRows := by
  rw [flagBetween, mem_selectedRows_selectBetween h, toNat_min, toNat_max]
  rfl

theorem selected_of_mem {i : Nat} {r : Row} (h : i ∈ t.selectedRows) (hr : t.row? i = some r) :
    r.selected = true := by
  simpa [mem_selectedRows, hr] using h

theorem hasRow_of_mem_selectedRows {i : Nat} (h : i ∈ t.selectedRows) : t.hasRow i = true := by
  rw [mem_selectedRows] at h
  cases hr : t.row? i <;> simp_all [hasRow]

end Table

namespace Drag

variable {d : Drag} {t t' : Table} {row : UInt64} {i : Nat}

/-- All rows of a drag are selected. -/
def Covers (d : Drag) (t : Table) : Prop :=
  ∀ i, Between d.anchor d.lastSeen i → i ∈ t.selectedRows

theorem Covers.hasRow (h : d.Covers t) (hi : Between d.anchor d.lastSeen i) :
    t.hasRow i = true :=
  Table.hasRow_of_mem_selectedRows (h i hi)

theorem Covers.anchor (h : d.Covers t) : t.hasRow d.anchor.toNat = true :=
  h.hasRow ⟨Nat.min_le_left _ _, Nat.le_max_left _ _⟩

theorem Covers.lastSeen (h : d.Covers t) : t.hasRow d.lastSeen.toNat = true :=
  h.hasRow ⟨Nat.min_le_right _ _, Nat.le_max_right _ _⟩

/-- The flags after a move are those of a drag that is selected anew. What changes is between the
row last seen and the new one; a row beyond either of them keeps the flag that it had. -/
theorem extend_eq_flagBetween (h : t.Indexed) (hd : d.Covers t) (hr : t.hasRow row.toNat = true) :
    (d.extend t row).2 =
      (t.flagBetween d.anchor d.lastSeen false).flagBetween d.anchor row true := by
  obtain ⟨anchorLine, line, -, -, he⟩ := extend_of_hasRow hd.anchor hr
  have hone := t.reflagged_flagBetween d.anchor d.lastSeen false
  have hboth := hone.trans (Table.reflagged_flagBetween _ d.anchor row true)
  apply (d.reflagged_extend t row).ext_row? h hboth
  intro i
  rw [he, Table.row?_selectBetween h, Table.row?_flagBetween (hone.indexed h),
    Table.row?_flagBetween h]
  cases hi : t.row? i with
  | none => rfl
  | some r =>
    have hnew : (decide ((min d.anchor row).toNat ≤ i) && decide (i ≤ (max d.anchor row).toNat)) =
        decide (Between d.anchor row i) := by
      rw [toNat_min, toNat_max, ← Bool.decide_and]
      rfl
    simp only [Option.map_some, hnew]
    -- of three rows, the anchor, the one last seen and the new one, two are around this row or none
    by_cases hseen : Between d.lastSeen row i <;> by_cases hrow : Between d.anchor row i
    · by_cases hold : Between d.anchor d.lastSeen i <;> simp [hseen, hrow, hold]
    · have hold : Between d.anchor d.lastSeen i := by
        obtain hb | hb := hseen.through d.anchor
        · exact hb.symm
        · exact absurd hb hrow
      simp [hseen, hrow, hold]
    · have hold : Between d.anchor d.lastSeen i := by
        obtain hb | hb := hrow.through d.lastSeen
        · exact hb
        · exact absurd hb hseen
      have hflag := Table.selected_of_mem (hd i hold) hi
      cases r
      simp_all
    · have hold : ¬ Between d.anchor d.lastSeen i := by
        intro hb
        obtain hb | hb := hb.through row
        · exact hrow hb
        · exact hseen hb.symm
      simp [hseen, hrow, hold]

/-- After a move the rows from the anchor to the new row are selected. Of the others, those that the
drag had left are not, and the rest is as before. -/
theorem mem_selectedRows_extend_covered (h : t.Indexed) (hd : d.Covers t)
    (hr : t.hasRow row.toNat = true) (i : Nat) :
    i ∈ (d.extend t row).2.selectedRows ↔
      Between d.anchor row i ∨ ¬ Between d.anchor d.lastSeen i ∧ i ∈ t.selectedRows := by
  have hone := t.reflagged_flagBetween d.anchor d.lastSeen false
  rw [extend_eq_flagBetween h hd hr, Table.mem_selectedRows_flagBetween (hone.indexed h),
    Table.mem_selectedRows_flagBetween h, hone.hasRow h]
  by_cases hrow : Between d.anchor row i
  · have hi : t.hasRow i = true := by
      rcases Nat.le_total d.anchor.toNat row.toNat with hle | hle
      · exact Table.hasRow_of_le h hr (by unfold Between at hrow; omega)
      · exact Table.hasRow_of_le h hd.anchor (by unfold Between at hrow; omega)
    simp [hrow, hi]
  · by_cases hold : Between d.anchor d.lastSeen i <;> simp [hrow, hold]

/-- A move leaves a drag whose rows are all selected. -/
theorem Covers.extend (hd : d.Covers t) (h : t.Indexed) (row : UInt64) :
    (d.extend t row).1.Covers (d.extend t row).2 := by
  cases hr : t.hasRow row.toNat with
  | false =>
    rw [extend_of_not_hasRow hr]
    exact hd
  | true =>
    intro i hi
    rw [mem_selectedRows_extend_covered h hd hr]
    left
    obtain ⟨anchorLine, line, -, -, he⟩ := extend_of_hasRow hd.anchor hr
    rw [he] at hi
    exact hi

/-- A drag over rows that the table has, all of which are selected. -/
structure Drawn (d : Drag) (t : Table) : Prop where
  within : d.Within t
  covers : d.Covers t

theorem Drawn.extend (hd : d.Drawn t) (h : t.Indexed) (row : UInt64) :
    (d.extend t row).1.Drawn (d.extend t row).2 :=
  ⟨hd.within.extend h row, hd.covers.extend h row⟩

/-- Flags of comments have no part in it. -/
theorem Drawn.reflagged (hd : d.Drawn t) (h : t.Indexed) (hr : t.Reflagged t')
    (hsel : ∀ i, i ∈ t'.selectedRows ↔ i ∈ t.selectedRows) : d.Drawn t' := by
  obtain ⟨hw, hx⟩ := hd
  refine ⟨⟨(hr.hasRow h _).trans hw.anchor, (hr.hasRow h _).trans hw.lastSeen, hw.first, hw.last⟩,
    fun i hi => ?_⟩
  exact (hsel i).mpr (hx i hi)

theorem drawn_start {line : UInt32} {side : Side} (h : t.Indexed)
    (hr : t.hasRow row.toNat = true) :
    (start row line side).Drawn (t.setSelected row.toNat true) := by
  have hr' := (Table.hasRow_setSelected h row.toNat true row.toNat).trans hr
  refine ⟨⟨hr', hr', (ite_self _).symm, (ite_self _).symm⟩, ?_⟩
  intro i hi
  change Between row row i at hi
  obtain rfl : i = row.toNat := by
    unfold Between at hi
    omega
  rw [Table.mem_selectedRows_setSelected h, if_pos rfl]
  exact ⟨rfl, hr⟩

end Drag

/-- During a drag, the pointer comes to a row in a line-number column. The drag is then from its
anchor to that row, over the lines that the table has there, and the table is the one in which all
rows of the drag before lose their flag and those of the new one get it: whether the drag grows,
shrinks, turns round at its anchor or passes over rows, no other flag changes. -/
theorem Selector.enter_recomputed {s : Selector} {t : Table} {d : Drag} {c : Cell}
    (h : t.Indexed) (hd : s.drag = some d) (hx : d.Covers t) (hc : c.inNumberColumn = true)
    (hr : t.hasRow c.row.toNat = true) :
    ∃ a b, t.line? d.anchor.toNat = some a ∧ t.line? c.row.toNat = some b ∧
      s.enter t c =
        ({ s with
            drag := some { d with
              first := min d.anchor c.row, last := max d.anchor c.row,
              firstLine := min a b, lastLine := max a b, lastSeen := c.row } },
          (t.flagBetween d.anchor d.lastSeen false).flagBetween d.anchor c.row true) ∧
      ∀ i, i ∈ (s.enter t c).2.selectedRows ↔
        Between d.anchor c.row i ∨ ¬ Between d.anchor d.lastSeen i ∧ i ∈ t.selectedRows := by
  have he := Selector.enter_of_inColumn hd t hc
  obtain ⟨a, b, ha, hb, hmove⟩ := Drag.extend_of_hasRow hx.anchor hr
  refine ⟨a, b, ha, hb, ?_, ?_⟩
  · rw [he, Drag.extend_eq_flagBetween h hx hr, hmove]
  · intro i
    rw [he]
    exact Drag.mem_selectedRows_extend_covered h hx hr i

namespace Session

variable {s : Session}

/-- The drag that goes on, if any, has all its rows selected. -/
def Drawn (s : Session) : Prop := ∀ d, s.selector.drag = some d → d.Drawn s.table

theorem drawn_perform (hi : s.table.Indexed) (h : s.Drawn) (op : Operation) :
    (s.perform op).Drawn := by
  intro d hd
  cases dragStep_perform hi hd with
  | @begun c line hc =>
    obtain ⟨line', -, he⟩ := s.selector.press_of_takes hc
    have hre := s.selector.reflagged_leaveHover s.table
    have ht : (s.perform (.act (.pointerDown c))).table = _ := congrArg Prod.snd he
    rw [ht]
    exact Drag.drawn_start (hre.indexed hi) ((hre.hasRow hi _).trans hc.2)
  | @moved op d' row hd' ht =>
    rw [ht]
    exact (h d' hd').extend hi row
  | kept hd' hre hsel => exact (h d hd').reflagged hi hre hsel

/-- Whatever happens, no row of a drag loses its flag while the drag goes on. -/
theorem drawn_run (hs : s.selector.drag = none) (hi : s.table.Indexed) (ops : List Operation) :
    (s.run ops).Drawn := by
  apply run_keeps_of_indexed (fun s op hi h => drawn_perform hi h op) hi
  intro d hd
  simp [hs] at hd

/-- A drag down from a row and then past it upwards. The release of an earlier drag went unseen, and
the row of that one stays selected. -/
theorem enter_recomputed_past_anchor :
    let s := (Session.new (.new 0 0 0) (.ofGroups [.equalRun 0 1 10])).run
      [.act (.pointerDown ⟨0, .right, .lineNumber⟩), .act (.pointerDown ⟨5, .right, .lineNumber⟩),
        .act (.pointerEnter ⟨8, .right, .lineNumber⟩)]
    let d : Drag := ⟨5, 5, 8, 6, 9, 8, .right⟩
    let c : Cell := ⟨2, .left, .commentFlag⟩
    s.table.Indexed ∧ s.selector.drag = some d ∧ d.Covers s.table ∧ c.inNumberColumn = true ∧
      s.table.hasRow c.row.toNat = true ∧ s.table.selectedRows = [0, 5, 6, 7, 8] ∧
      s.selector.enter s.table c =
        (⟨some ⟨5, 2, 5, 3, 6, 2, .right⟩, none, none⟩,
          (s.table.flagBetween 5 8 false).flagBetween 5 2 true) := by
  intro s d c
  have hi : s.table.Indexed := rfl
  have hd : s.selector.drag = some d := by decide
  have hx : d.Covers s.table := (drawn_run rfl (Table.indexed_ofGroups _) _ d hd).covers
  have hr : s.table.hasRow c.row.toNat = true := by decide
  obtain ⟨a, b, ha, hb, he, -⟩ := Selector.enter_recomputed hi hd hx rfl hr
  obtain rfl : 6 = a := Option.some.inj (ha.symm.trans (by decide)).symm
  obtain rfl : 3 = b := Option.some.inj (hb.symm.trans (by decide)).symm
  exact ⟨hi, hd, hx, rfl, hr, by decide, he.trans (by decide)⟩

end Session

end Marginalia.Diff
