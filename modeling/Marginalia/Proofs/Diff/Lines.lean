import Mathlib.Algebra.GroupWithZero.Nat
import Marginalia.Proofs.Diff.Block

/-! The lines of a gap. Fragments for its chunk render all of them anew, and what was shown of them
before gives way, so that each line stays shown or hidden once. Lines are lost where an answer for
another chunk comes directly beside them: it takes loaded rows of any chunk away. -/

namespace Marginalia.Diff

variable {c : UInt64} {n : Nat} {gs M A N C : List Group} {g t : Group} {r : Request}

/-- The lines that a group stands for: its rows, and those that it hides. -/
def Group.lines (g : Group) : Nat := g.rows.length + g.hiddenLines.toNat

/-- The lines that the groups of a chunk stand for. -/
def chunkLines (c : UInt64) (gs : List Group) : Nat :=
  ((gs.filter fun g => g.chunk == c).map Group.lines).sum

def chunkPlaceholders (c : UInt64) (gs : List Group) : Nat :=
  gs.countP fun g => g.chunk == c && g.isPlaceholder

/-- The groups that give way to an answer between `before` and `after`. -/
def absorbed (before after : List Group) : List Group :=
  before.rtakeWhile Group.isMergeable ++ after.takeWhile Group.isMergeable

/-- All lines of a chunk are shown or hidden once, the hidden ones in one placeholder. -/
structure Shows (c : UInt64) (n : Nat) (gs : List Group) : Prop where
  placeholders : chunkPlaceholders c gs ≤ 1
  lines : chunkLines c gs = n

/-- What is asked of the groups that answer a request, as regards a chunk of `n` lines. -/
structure Request.Renders (c : UInt64) (n : Nat) (r : Request) (gs : List Group) : Prop where
  chunk : ∀ g ∈ gs, g.chunk = c ↔ r.chunk = c
  kinds : r.chunk = c → ∀ g ∈ gs, g.isMergeable = true ∨ g.isPlaceholder = true
  placeholders : r.chunk = c → gs.countP Group.isPlaceholder ≤ 1
  lines : r.chunk = c → (gs.map Group.lines).sum = n

theorem chunkLines_append (c : UInt64) (gs hs : List Group) :
    chunkLines c (gs ++ hs) = chunkLines c gs + chunkLines c hs := by
  simp [chunkLines]

theorem lines_blank (g : Group) : g.blank.lines = g.lines := by simp [Group.lines, Group.blank]

theorem chunkLines_blank (c : UInt64) (gs : List Group) :
    chunkLines c (gs.map Group.blank) = chunkLines c gs := by
  have hl : Group.lines ∘ Group.blank = Group.lines := by
    funext g
    exact lines_blank g
  rw [chunkLines, List.filter_map, List.map_map, hl]
  rfl

theorem chunkLines_eq_zero (h : ∀ g ∈ gs, g.chunk ≠ c) : chunkLines c gs = 0 := by
  rw [chunkLines, List.filter_eq_nil_iff.mpr fun g hg => by simpa using h g hg]
  rfl

theorem chunkLines_block (h : Block c gs M) : chunkLines c gs = (M.map Group.lines).sum := by
  rw [chunkLines, h.filter]

theorem chunkPlaceholders_block (h : Block c gs M) :
    chunkPlaceholders c gs = M.countP Group.isPlaceholder := by
  rw [← h.filter, List.countP_filter, chunkPlaceholders]
  simp only [Bool.and_comm]

theorem chunkPlaceholders_blank (c : UInt64) (gs : List Group) :
    chunkPlaceholders c (gs.map Group.blank) = chunkPlaceholders c gs := by
  rw [chunkPlaceholders, List.countP_map]
  rfl

theorem shows_unflagged {t : Table} : Shows c n t.unflagged ↔ Shows c n t.groups := by
  constructor
  · rintro ⟨hp, hl⟩
    exact ⟨chunkPlaceholders_blank c _ ▸ hp, chunkLines_blank c _ ▸ hl⟩
  · rintro ⟨hp, hl⟩
    exact ⟨(chunkPlaceholders_blank c _).trans_le hp, (chunkLines_blank c _).trans hl⟩

theorem absorbed_blank (A C : List Group) :
    absorbed (A.map Group.blank) (C.map Group.blank) = (absorbed A C).map Group.blank := by
  have hm : Group.isMergeable ∘ Group.blank = Group.isMergeable := rfl
  simp [absorbed, List.rtakeWhile, ← List.map_reverse, List.takeWhile_map, hm]

theorem Request.Renders.settled (h : r.Renders c n gs) (e : Extent) :
    r.Renders c n (settled e (gs.map Group.blank)) := by
  have hlines := map_settled_blank (f := Group.lines) (fun _ _ => rfl) (fun _ _ => rfl)
    lines_blank e gs
  refine ⟨fun g hg => ?_, fun hr g hg => ?_,
    fun hr => (countP_settled_blank e gs).trans_le (h.placeholders hr),
    fun hr => by rw [hlines, h.lines hr]⟩
  · obtain ⟨k, hk, v, x, rfl, -⟩ := mem_settled_blank hg
    exact h.chunk k hk
  · obtain ⟨k, hk, v, x, rfl, -⟩ := mem_settled_blank hg
    exact h.kinds hr k hk

/-- What is left and what gave way make up what was there and what came. -/
theorem chunkLines_replaced (c : UInt64) (A N C : List Group) :
    chunkLines c (replaced A N C) + chunkLines c (absorbed A C) =
      chunkLines c A + chunkLines c N + chunkLines c C := by
  have hA := congrArg (chunkLines c)
    (List.rdropWhile_append_rtakeWhile (p := Group.isMergeable) (l := A))
  have hC := congrArg (chunkLines c)
    (List.takeWhile_append_dropWhile (p := Group.isMergeable) (l := C))
  simp only [replaced, absorbed, chunkLines_append] at *
  omega

theorem chunkLines_answer_other (ht : TargetAt r gs A t C) (hr : r.chunk ≠ c)
    (hN : ∀ g ∈ N, g.chunk ≠ c) :
    chunkLines c (replaced A N C) + chunkLines c (absorbed A C) = chunkLines c gs := by
  have htc : chunkLines c [t] = 0 := by
    apply chunkLines_eq_zero
    rintro g hg rfl
    rw [List.mem_singleton.mp hg, Request.chunk_of_fits ht.fits] at hr
    exact hr rfl
  rw [chunkLines_replaced, chunkLines_eq_zero hN, ht.split, ← List.singleton_append,
    chunkLines_append, chunkLines_append, htc]
  omega

/-- The groups of a chunk are those that answers brought, or its first placeholder. -/
def Rendered (c : UInt64) (gs : List Group) : Prop :=
  ∃ M, Block c gs M ∧ ∀ g ∈ M, g.isMergeable = true ∨ g.isPlaceholder = true

/-- Beside the target of an answer, no placeholder of the chunk is left. -/
theorem countP_beside {A' C' : List Group} (h : chunkPlaceholders r.chunk gs ≤ 1)
    (hb : Block r.chunk gs M) (ht : TargetAt r gs A t C) (ht' : TargetAt r M A' t C')
    (hh : r.isCollapse = true → chunkPlaceholders r.chunk (A ++ C) = 0) :
    A'.countP Group.isPlaceholder = 0 ∧ C'.countP Group.isPlaceholder = 0 := by
  have hM := chunkPlaceholders_block hb
  rw [ht'.split, List.countP_append, List.countP_cons] at hM
  cases hr : r.isCollapse with
  | true =>
    have hAC := hh hr
    rw [ht.split] at hM
    simp only [chunkPlaceholders, List.countP_append, List.countP_cons,
      Request.chunk_of_fits ht.fits, beq_self_eq_true, Bool.true_and] at hM hAC
    omega
  | false =>
    rw [if_pos (Request.placeholder_of_fits ht.fits hr)] at hM
    omega

namespace Shows

/-- A fragment takes the place of the whole chunk, unless a placeholder is left beside the
target. -/
theorem answer (h : Shows r.chunk n gs) (hb : Rendered r.chunk gs) (ht : TargetAt r gs A t C)
    (hN : r.Renders r.chunk n N)
    (hh : r.isCollapse = true → chunkPlaceholders r.chunk (A ++ C) = 0) :
    Shows r.chunk n (replaced A N C) := by
  obtain ⟨M, hb, hk⟩ := hb
  obtain ⟨A', C', ht', hb'⟩ := hb.answer ht fun g hg => (hN.chunk g hg).mpr rfl
  obtain ⟨hA, hC⟩ := countP_beside h.placeholders hb ht ht' hh
  rw [List.countP_eq_zero] at hA hC
  have hkA : A'.rdropWhile Group.isMergeable = [] := by
    rw [List.rdropWhile_eq_nil_iff]
    intro g hg
    exact (hk g (by simp [ht'.split, hg])).resolve_right (hA g hg)
  have hkC : C'.dropWhile Group.isMergeable = [] := by
    rw [List.dropWhile_eq_nil_iff]
    intro g hg
    exact (hk g (by simp [ht'.split, hg])).resolve_right (hC g hg)
  have hblock : replaced A' N C' = N := by
    rw [replaced, hkA, hkC, List.nil_append, List.append_nil]
  rw [hblock] at hb'
  exact ⟨(chunkPlaceholders_block hb').trans_le (hN.placeholders rfl),
    (chunkLines_block hb').trans (hN.lines rfl)⟩

theorem answer_other (h : Shows c n gs) (hb : Rendered c gs) (ht : TargetAt r gs A t C)
    (hr : r.chunk ≠ c) (hN : ∀ g ∈ N, g.chunk ≠ c) (ha : chunkLines c (absorbed A C) = 0) :
    Shows c n (replaced A N C) := by
  obtain ⟨M, hb, -⟩ := hb
  obtain ⟨M', hs, hb'⟩ := hb.answer_other ht hr hN
  have hlines := chunkLines_answer_other ht hr hN
  refine ⟨?_, ?_⟩
  · rw [chunkPlaceholders_block hb']
    exact hs.countP_le.trans (chunkPlaceholders_block hb ▸ h.placeholders)
  · rw [← h.lines]
    omega

end Shows

namespace Session

variable {s : Session} {op : Operation}

/-- An answer that hides the chunk while a placeholder of it stands beside the target. -/
def HidesBeside (s : Session) (c : UInt64) (op : Operation) : Prop :=
  ∃ r f A t C, op = .answer r (.ok f) ∧ f.groups ≠ [] ∧ r.chunk = c ∧ r.isCollapse = true ∧
    TargetAt r s.table.groups A t C ∧ 0 < chunkPlaceholders c (A ++ C)

/-- An answer for another chunk that takes lines of the chunk away. -/
def TakesLines (s : Session) (c : UInt64) (op : Operation) : Prop :=
  ∃ r f A t C, op = .answer r (.ok f) ∧ f.groups ≠ [] ∧ r.chunk ≠ c ∧
    TargetAt r s.table.groups A t C ∧ 0 < chunkLines c (absorbed A C)

theorem rendered_perform (h : Rendered c s.table.unflagged)
    (hf : ∀ r f, op = .answer r (.ok f) → r.Renders c n f.groups) :
    Rendered c (s.perform op).table.unflagged := by
  obtain ⟨M, hb, hk⟩ := h
  obtain he | ⟨r, f, A, t, C, hop, hr, ht, hb'⟩ | ⟨r, f, M', -, -, hs, hb'⟩ :=
    hb.perform fun r f hop => (hf r f hop).chunk
  · exact ⟨M, he ▸ hb, hk⟩
  · refine ⟨_, hb', fun g hg => ?_⟩
    rcases mem_replaced hg with hg | hg | hg
    · exact hk g (by simp [ht.split, hg])
    · exact ((hf r f hop).settled _).kinds hr g hg
    · exact hk g (by simp [ht.split, hg])
  · exact ⟨M', hb', fun g hg => hk g (hs.subset hg)⟩

theorem shows_perform (hs : Shows c n s.table.groups) (hb : Rendered c s.table.unflagged)
    (hf : ∀ r f, op = .answer r (.ok f) → r.Renders c n f.groups) (hh : ¬ s.HidesBeside c op)
    (ht : ¬ s.TakesLines c op) : Shows c n (s.perform op).table.groups := by
  rw [← shows_unflagged] at hs ⊢
  obtain he | ⟨r, f, A, t, C, rfl, hne, hat, he⟩ := s.unflagged_perform op
  · rwa [he]
  · have hN := (hf r f rfl).settled r.extent
    rw [he]
    by_cases hr : r.chunk = c
    · subst hr
      refine hs.answer hb (hat.map fun _ => rfl) hN fun hcol => ?_
      rw [← List.map_append, chunkPlaceholders_blank]
      by_contra hpos
      exact hh ⟨r, f, A, t, C, rfl, hne, rfl, hcol, hat, Nat.pos_of_ne_zero hpos⟩
    · refine hs.answer_other hb (hat.map fun _ => rfl) hr
        (fun g hg => (hN.chunk g hg).not.mpr hr) ?_
      rw [absorbed_blank, chunkLines_blank]
      by_contra hpos
      exact ht ⟨r, f, A, t, C, rfl, hne, hr, hat, Nat.pos_of_ne_zero hpos⟩

/-- Lines that an answer takes away are not shown again. -/
theorem not_shows_of_takesLines (hs : Shows c n s.table.groups)
    (hf : ∀ r f, op = .answer r (.ok f) → r.Renders c n f.groups) (ht : s.TakesLines c op) :
    ¬ Shows c n (s.perform op).table.groups := by
  intro hs'
  rw [← shows_unflagged] at hs hs'
  obtain ⟨r, f, A, t, C, rfl, hne, hr, hat, hpos⟩ := ht
  have hN := (hf r f rfl).settled r.extent
  have hlines := chunkLines_answer_other (hat.map (f := Group.blank) fun _ => rfl) hr
    (fun g hg => (hN.chunk g hg).not.mpr hr)
  rw [perform_answer hat hne, unflagged_answered] at hs'
  rw [absorbed_blank, chunkLines_blank c (absorbed A C), hs'.lines] at hlines
  have hbefore := hs.lines
  rw [Table.unflagged] at hbefore
  omega

theorem shows_new {t : Table} (ht : t.Parsed) (file : File) (hg : g ∈ t.groups)
    (hp : g.isPlaceholder = true) :
    Shows g.chunk g.hiddenLines.toNat (new file t).table.groups ∧
      Rendered g.chunk (new file t).table.unflagged := by
  obtain ⟨gs, rfl, hu⟩ := ht.untouched
  have hfilter : g.blank ∈ (gs.map Group.blank).filter fun k => k.chunk == g.chunk := by
    rw [List.mem_filter]
    exact ⟨List.mem_map_of_mem hg, beq_self_eq_true g.chunk⟩
  have hlines : g.blank.lines = g.hiddenLines.toNat := by
    rw [lines_blank, Group.lines, (hu.groups g hg).rows hp]
    exact Nat.zero_add _
  rw [← shows_unflagged]
  obtain hb | ⟨k, -, -, hb⟩ := hu.blank.block g.chunk
  · simp [hb.filter] at hfilter
  · obtain rfl : g.blank = k := by simpa [hb.filter] using hfilter
    refine ⟨⟨?_, ?_⟩, [g.blank], hb, fun k hk => ?_⟩
    · exact (chunkPlaceholders_block hb).trans_le List.countP_le_length
    · rw [← hlines]
      exact (chunkLines_block hb).trans (by simp)
    · rw [List.mem_singleton.mp hk]
      exact Or.inr hp

/-- While no answer hides a gap beside a placeholder that is left of it, all its lines are shown or
hidden once in all states of a run if and only if no answer for another chunk takes lines of it
away. -/
theorem shows_run_iff {t : Table} (ht : t.Parsed) (file : File) (hg : g ∈ t.groups)
    (hp : g.isPlaceholder = true) (ops : List Operation)
    (hf : ∀ r f, .answer r (.ok f) ∈ ops → r.Renders g.chunk g.hiddenLines.toNat f.groups)
    (hh : ∀ pre op, pre ++ [op] <+: ops → ¬ ((new file t).run pre).HidesBeside g.chunk op) :
    (∀ pre, pre <+: ops →
        Shows g.chunk g.hiddenLines.toNat ((new file t).run pre).table.groups) ↔
      ∀ pre op, pre ++ [op] <+: ops → ¬ ((new file t).run pre).TakesLines g.chunk op := by
  obtain ⟨hs, hr⟩ := shows_new ht file hg hp
  have hfpre : ∀ pre, pre <+: ops → ∀ r f, .answer r (.ok f) ∈ pre →
      r.Renders g.chunk g.hiddenLines.toNat f.groups := by
    intro pre hpre r f hm
    exact hf r f (hpre.subset hm)
  have hfop : ∀ pre op, pre ++ [op] <+: ops → ∀ r f, op = .answer r (.ok f) →
      r.Renders g.chunk g.hiddenLines.toNat f.groups := by
    rintro pre op hpre r f rfl
    exact hfpre _ hpre r f (by simp)
  constructor
  · intro h pre op hpre htake
    have hbefore := h pre ((List.prefix_append _ _).trans hpre)
    have hafter := h _ hpre
    rw [run_concat] at hafter
    exact not_shows_of_takesLines hbefore (hfop pre op hpre) htake hafter
  · intro h pre hpre
    -- from the last operation backwards, so that the state before it is one of the run
    induction pre using List.reverseRecOn with
    | nil => exact hs
    | append_singleton pre op ih =>
      have hpre' := (List.prefix_append _ _).trans hpre
      rw [run_concat]
      have hb := run_keeps (I := fun s => Rendered g.chunk s.table.unflagged)
        (fun _ _ => rendered_perform) hr (hfpre pre hpre')
      exact shows_perform (ih hpre') hb (hfop pre op hpre) (hh pre op hpre) (h pre op hpre)

/-- Two gaps with a change between them: both are shown, and the first is hidden again. -/
theorem shows_run_two_gaps :
    let g := Group.placeholder 0 2 [.above 1, .whole, .below 1]
    let t := Table.ofGroups
      [g, .new 1 .delete [⟨3, some 3, none, some "x", none, .none, false⟩],
        .placeholder 2 2 [.above 1, .whole, .below 1],
        .new 3 .delete [⟨6, some 6, none, some "y", none, .none, false⟩]]
    let ops : List Operation :=
      [.answer ⟨1, 0, .whole⟩ (.ok ⟨[.shown 0 [.bare 1, .bare 2]]⟩),
        .answer ⟨2, 2, .whole⟩ (.ok ⟨[.shown 2 [.bare 4, .bare 5]]⟩),
        .answer ⟨3, 0, .hidden⟩ (.ok ⟨[.placeholder 0 2 [.whole]]⟩)]
    t.Parsed ∧ g ∈ t.groups ∧ g.isPlaceholder = true ∧
      (∀ r f, .answer r (.ok f) ∈ ops → r.Renders g.chunk g.hiddenLines.toNat f.groups) ∧
      (∀ pre op, pre ++ [op] <+: ops → ¬ ((new (.new 0 0 0) t).run pre).HidesBeside g.chunk op) ∧
      ∀ pre, pre <+: ops →
        Shows g.chunk g.hiddenLines.toNat ((new (.new 0 0 0) t).run pre).table.groups := by
  intro g t ops
  have ht : t.Parsed := by
    refine ⟨"--- a/f\n+++ b/f\n@@ -3 +3,0 @@\n-x\n@@ -6 +5,0 @@\n-y\n", 1, [⟨"f", none, t⟩], _, ?_,
      List.mem_singleton_self _, rfl⟩
    decide +kernel
  have hf : ∀ r f, .answer r (.ok f) ∈ ops →
      r.Renders g.chunk g.hiddenLines.toNat f.groups := by
    intro r f hm
    simp only [ops, List.mem_cons, Operation.answer.injEq, Except.ok.injEq, List.not_mem_nil,
      or_false] at hm
    rcases hm with ⟨rfl, rfl⟩ | ⟨rfl, rfl⟩ | ⟨rfl, rfl⟩ <;>
      exact ⟨by decide, by decide, by decide, by decide⟩
  have hstep : ∀ pre op, pre ++ [op] <+: ops →
      ¬ ((new (.new 0 0 0) t).run pre).HidesBeside g.chunk op ∧
        ¬ ((new (.new 0 0 0) t).run pre).TakesLines g.chunk op := by
    intro pre op hpre
    rcases pre with _ | ⟨a, _ | ⟨b, _ | ⟨d, pre⟩⟩⟩
    · obtain rfl : op = _ := by simpa [ops] using hpre
      constructor
      · rintro ⟨r, f, A, k, C, hop, -, -, hcol, -, -⟩
        obtain ⟨rfl, -⟩ := Operation.answer.inj hop
        exact absurd hcol (by decide)
      · rintro ⟨r, f, A, k, C, hop, -, hne, -, -⟩
        obtain ⟨rfl, -⟩ := Operation.answer.inj hop
        exact hne rfl
    · obtain ⟨rfl, rfl⟩ : a = _ ∧ op = _ := by simpa [ops] using hpre
      constructor
      · rintro ⟨r, f, A, k, C, hop, -, -, hcol, -, -⟩
        obtain ⟨rfl, -⟩ := Operation.answer.inj hop
        exact absurd hcol (by decide)
      · rintro ⟨r, f, A, k, C, hop, -, -, hat, hpos⟩
        obtain ⟨rfl, -⟩ := Operation.answer.inj hop
        rw [hat.before_eq, hat.after_eq] at hpos
        exact absurd hpos (by decide)
    · obtain ⟨rfl, rfl, rfl⟩ : a = _ ∧ b = _ ∧ op = _ := by simpa [ops] using hpre
      constructor
      · rintro ⟨r, f, A, k, C, hop, -, -, -, hat, hpos⟩
        obtain ⟨rfl, -⟩ := Operation.answer.inj hop
        rw [hat.before_eq, hat.after_eq] at hpos
        exact absurd hpos (by decide)
      · rintro ⟨r, f, A, k, C, hop, -, hne, -, -⟩
        obtain ⟨rfl, -⟩ := Operation.answer.inj hop
        exact hne rfl
    · have hlen := hpre.length_le
      simp only [ops, List.length_append, List.length_cons, List.length_nil] at hlen
      omega
  refine ⟨ht, List.mem_cons_self, rfl, hf, fun pre op hpre => (hstep pre op hpre).1, ?_⟩
  exact (shows_run_iff ht (.new 0 0 0) List.mem_cons_self rfl ops hf
    fun pre op hpre => (hstep pre op hpre).1).mpr fun pre op hpre => (hstep pre op hpre).2

/-- A gap of two lines right above another one. Hidden again after one line was shown, it has two
placeholders; shown in whole, it goes when the other gap is shown. -/
theorem not_shows_beside :
    let g := Group.placeholder 0 2 [.above 1, .whole, .below 1]
    let t := Table.ofGroups
      [g, .placeholder 1 2 [.above 1, .whole, .below 1],
        .new 2 .delete [⟨5, some 5, none, some "x", none, .none, false⟩]]
    let s := new (.new 0 0 0) t
    let hidden : List Operation :=
      [.answer ⟨1, 0, .ends 1 0⟩ (.ok ⟨[.shown 0 [.bare 1], .placeholder 0 1 [.whole]]⟩),
        .answer ⟨2, 0, .hidden⟩ (.ok ⟨[.placeholder 0 2 [.whole]]⟩)]
    let shown : List Operation :=
      [.answer ⟨1, 0, .whole⟩ (.ok ⟨[.shown 0 [.bare 1, .bare 2]]⟩),
        .answer ⟨2, 1, .whole⟩ (.ok ⟨[.shown 1 [.bare 3, .bare 4]]⟩)]
    t.Parsed ∧ g ∈ t.groups ∧ g.isPlaceholder = true ∧
      (∀ r f, .answer r (.ok f) ∈ hidden ++ shown →
        r.Renders g.chunk g.hiddenLines.toNat f.groups) ∧
      ¬ Shows g.chunk g.hiddenLines.toNat (s.run hidden).table.groups ∧
      ¬ Shows g.chunk g.hiddenLines.toNat (s.run shown).table.groups := by
  intro g t s hidden shown
  refine ⟨?_, List.mem_cons_self, rfl, ?_, ?_, ?_⟩
  · refine ⟨"--- a/f\n+++ b/f\n@@ -3,0 +3,0 @@\n\\ No newline at end of file\n@@ -5 +5,0 @@\n-x\n",
      1, [⟨"f", none, t⟩], _, ?_, List.mem_singleton_self _, rfl⟩
    decide +kernel
  · intro r f hm
    simp only [hidden, shown, List.cons_append, List.nil_append, List.mem_cons,
      Operation.answer.injEq, Except.ok.injEq, List.not_mem_nil, or_false] at hm
    rcases hm with ⟨rfl, rfl⟩ | ⟨rfl, rfl⟩ | ⟨rfl, rfl⟩ | ⟨rfl, rfl⟩ <;>
      exact ⟨by decide, by decide, by decide, by decide⟩
  · intro h
    exact absurd h.placeholders (by decide)
  · intro h
    exact absurd h.lines (by decide)

end Session

end Marginalia.Diff
