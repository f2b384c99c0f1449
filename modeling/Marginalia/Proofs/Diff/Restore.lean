import Marginalia.Proofs.Diff.Answer

/-! Hiding a chunk that was shown in whole. The answer that shows it puts loaded groups in the place
of its placeholder, and one of them keeps the control. The answer that hides it goes to that one,
and the others give way with it on both sides, as far as the groups that stood there before. -/

namespace Marginalia.Diff

variable {A C N N₁ N₂ gs : List Group} {P g : Group} {r : Request} {c : UInt64} {p : Nat}

/-- Of the groups that have the control, one keeps it. -/
theorem exists_collapsible_keepFirst (h : ∃ g ∈ gs, g.collapsible = true) :
    ∃ g ∈ keepFirst false gs, g.collapsible = true := by
  obtain ⟨g, hg, hc⟩ := h
  induction gs with
  | nil => exact absurd hg List.not_mem_nil
  | cons k gs ih =>
    by_cases hk : k.collapsible = true
    · refine ⟨{ k with collapsible := true }, ?_, rfl⟩
      simp [keepFirst, hk]
    · rcases List.mem_cons.mp hg with rfl | hg
      · exact absurd hc hk
      · obtain ⟨g', hg', hc'⟩ := ih hg
        refine ⟨g', ?_, hc'⟩
        simp [keepFirst, hk, hg']

theorem exists_targetAt_of_mem (hg : g ∈ gs) (hr : r.fits g = true) :
    ∃ A k C, TargetAt r gs A k C := by
  cases hp : gs.findIdx? r.fits with
  | none =>
    have hnone := List.findIdx?_eq_none_iff.mp hp g hg
    simp [hr] at hnone
  | some p =>
    obtain ⟨A, k, C, h, -⟩ := exists_targetAt hp
    exact ⟨A, k, C, h⟩

/-- A target among groups that stand behind others is theirs, if none of the others fits. -/
theorem TargetAt.within (h : TargetAt r N N₁ g N₂) (hA : ∀ k ∈ A, r.fits k = false)
    (C : List Group) : TargetAt r (A ++ N ++ C) (A ++ N₁) g (N₂ ++ C) := by
  refine ⟨by simp [h.split], h.fits, ?_⟩
  intro k hk
  rcases List.mem_append.mp hk with hk | hk
  · exact hA k hk
  · exact h.first k hk

/-- The groups next to a position do not give way to what is inserted there. -/
def FirmAround (gs : List Group) (p : Nat) : Prop :=
  ∀ q g, q + 1 = p ∨ q = p + 1 → gs[q]? = some g → g.isMergeable = false

theorem FirmAround.before (h : FirmAround (A ++ P :: C) A.length) :
    A.rdropWhile Group.isMergeable = A := by
  rcases List.eq_nil_or_concat A with rfl | ⟨A, a, rfl⟩
  · rfl
  · have ha : a.isMergeable = false := by
      apply h A.length a
      · simp
      · simp
    simp [List.concat_eq_append, ha]

theorem FirmAround.after (h : FirmAround (A ++ P :: C) A.length) :
    C.dropWhile Group.isMergeable = C := by
  cases C with
  | nil => rfl
  | cons k C =>
    have hk : k.isMergeable = false := by
      apply h (A.length + 1) k
      · simp
      · simp
    simp [hk]

/-- Groups that all give way leave what stands firm before them. -/
theorem rdropWhile_yielding (hA : A.rdropWhile Group.isMergeable = A)
    (hN : ∀ g ∈ N, g.isMergeable = true) : (A ++ N).rdropWhile Group.isMergeable = A := by
  rw [rdropWhile_append, if_pos (List.all_eq_true.mpr hN), hA]

/-- Of groups that all give way nothing is left around their target. -/
theorem replaced_yielding (hA : A.rdropWhile Group.isMergeable = A)
    (hC : C.dropWhile Group.isMergeable = C) (h₁ : ∀ g ∈ N₁, g.isMergeable = true)
    (h₂ : ∀ g ∈ N₂, g.isMergeable = true) (N : List Group) :
    replaced (A ++ N₁) N (N₂ ++ C) = A ++ N ++ C := by
  rw [replaced, rdropWhile_yielding hA h₁, List.dropWhile_append_of_pos h₂, hC]

/-- What is asked of the answer that shows a chunk in whole: loaded rows of equal lines, in one
group or in several, and the control that hides them. -/
structure Fragment.ShowsAll (f : Fragment) (c : UInt64) : Prop where
  mergeable : ∀ g ∈ f.groups, g.isMergeable = true
  chunk : ∀ g ∈ f.groups, g.chunk = c
  collapsible : ∃ g ∈ f.groups, g.collapsible = true

namespace Fragment.ShowsAll

variable {f : Fragment}

theorem ne_nil (h : f.ShowsAll c) : f.groups ≠ [] := by
  obtain ⟨g, hg, -⟩ := h.collapsible
  intro hnil
  simp [hnil] at hg

/-- The groups as they stand in the table give way as well. -/
theorem settled (h : f.ShowsAll c) :
    ∀ g ∈ settled .whole f.groups, g.isMergeable = true ∧ g.chunk = c := by
  intro g hg
  obtain ⟨k, hk, v, x, rfl, -⟩ := mem_settled hg
  exact ⟨h.mergeable k hk, h.chunk k hk⟩

/-- A request to hide the chunk finds its target among the groups that came. -/
theorem exists_targetAt (h : f.ShowsAll c) (hr : r.chunk = c) (hx : r.extent = .hidden) :
    ∃ N₁ k N₂, TargetAt r (Diff.settled .whole f.groups) N₁ k N₂ := by
  obtain ⟨k, hk, hc⟩ := exists_collapsible_keepFirst h.collapsible
  apply exists_targetAt_of_mem hk
  have hchunk := (h.settled k hk).2
  simp [Request.fits, Request.isCollapse, hx, hr, hc, hchunk]

end Fragment.ShowsAll

namespace Table

variable {t : Table} {f : Fragment}

/-- The table in which the groups of a fragment stand in the place of one group, which they show in
whole. -/
def shownWhole (t : Table) (p : Nat) (f : Fragment) : Table :=
  .ofGroups (t.groups.take p ++ settled .whole f.groups ++ t.groups.drop (p + 1))

/-- A chunk that was shown in whole and is hidden again leaves no trace. While it is shown its groups
stand in the place of its placeholder, and then out comes the table of the groups that there were
before, which is the same one unless its index or its buttons were out of date. The control may be in
any of the groups that came, and of several the first one keeps it. -/
theorem collapse_undoes_expand (hp : t.placeholder? c = some p) (hP : t.groups[p]? = some P)
    (hc : ∀ g ∈ t.groups, g.chunk = c → g.collapsible = false) (hn : FirmAround t.groups p)
    (hf : f.ShowsAll c) (i j : UInt64) :
    t.applyFragment ⟨i, c, .whole⟩ (.ok f) =
        .ok (t.shownWhole p f, ⟨p, p + f.groups.length⟩) ∧
      (t.shownWhole p f).applyFragment ⟨j, c, .hidden⟩ (.ok ⟨[P]⟩) =
        .ok (.ofGroups t.groups, ⟨p, p + 1⟩) ∧
      (t.Indexed → t.buttons = collapsibleChunks t.groups → ofGroups t.groups = t) := by
  have htarget : t.target? ⟨i, c, .whole⟩ = some p := hp
  rw [target?_eq] at htarget
  obtain ⟨A, g, C, hat, rfl⟩ := exists_targetAt htarget
  obtain rfl : g = P := by simpa [hat.split] using hP
  have hA : ∀ k ∈ A, Request.fits ⟨j, c, .hidden⟩ k = false := by
    intro k hk
    by_cases hkc : k.chunk = c
    · have hcol := hc k (by simp [hat.split, hk]) hkc
      simp [Request.fits, Request.isCollapse, hcol]
    · simp [Request.fits, hkc]
  obtain ⟨N₁, k, N₂, hfirst⟩ := hf.exists_targetAt (r := ⟨j, c, .hidden⟩) rfl rfl
  have hback := hfirst.within hA C
  rw [hat.split] at hn
  have hshown : t.shownWhole A.length f = .ofGroups (A ++ settled .whole f.groups ++ C) := by
    simp [shownWhole, hat.split]
  rw [hshown]
  refine ⟨?_, ?_, ?_⟩
  · rw [applyFragment_ok hat hf.ne_nil]
    simp only [replaced, hn.before, hn.after]
  · have hN : ∀ k ∈ N₁ ++ N₂, k.isMergeable = true := by
      intro k hk
      refine (hf.settled k ?_).1
      rw [hfirst.split]
      rcases List.mem_append.mp hk with hk | hk <;> simp [hk]
    have h₁ : ∀ k ∈ N₁, k.isMergeable = true := fun k hk => hN k (by simp [hk])
    have h₂ : ∀ k ∈ N₂, k.isMergeable = true := fun k hk => hN k (by simp [hk])
    have hgap : settled .hidden [g] = [g] := by
      have hcol := hc g (by simp [hat.split]) (Request.chunk_of_fits hat.fits)
      simp [settled, keepFirst, hcol]
    have hstart := rdropWhile_yielding hn.before h₁
    have hgroups := replaced_yielding hn.before hn.after h₁ h₂ [g]
    rw [applyFragment_ok (t := .ofGroups _) hback (by simp)]
    simp only [hgap, hgroups, hstart, hat.split, List.append_assoc, List.singleton_append,
      List.length_singleton]
  · intro hi hb
    rw [ofGroups, ← hi, ← hb]

/-- Of three groups the last two come with the control. Rows that give way stand close to the gap,
but not beside it. -/
theorem collapse_undoes_expand_three_groups :
    let above : Group := .shown 0 [{ Row.bare 1 with selected := true }]
    let gap : Group := .placeholder 4 3 [.whole]
    let t : Table := .ofGroups
      [above, .new 2 .insert [.bare 2], gap, .new 5 .delete [.bare 6], .shown 7 [.bare 7]]
    let f : Fragment := ⟨[{ Group.shown 4 [.bare 3] with collapsible := false },
      .shown 4 [.bare 4], .shown 4 [.bare 5]]⟩
    t.placeholder? 4 = some 2 ∧ t.groups[2]? = some gap ∧
      (∀ g ∈ t.groups, g.chunk = 4 → g.collapsible = false) ∧ FirmAround t.groups 2 ∧
      f.ShowsAll 4 ∧
      t.applyFragment ⟨1, 4, .whole⟩ (.ok f) = .ok (t.shownWhole 2 f, ⟨2, 5⟩) ∧
        (t.shownWhole 2 f).applyFragment ⟨2, 4, .hidden⟩ (.ok ⟨[gap]⟩) = .ok (t, ⟨2, 3⟩) := by
  intro above gap t f
  have hp : t.placeholder? 4 = some 2 := by decide
  have hP : t.groups[2]? = some gap := rfl
  have hc : ∀ g ∈ t.groups, g.chunk = 4 → g.collapsible = false := by decide
  have hn : FirmAround t.groups 2 := by
    rintro q g (hq | rfl) hg
    · obtain rfl : q = 1 := by omega
      obtain rfl := Option.some.inj hg
      rfl
    · obtain rfl := Option.some.inj hg
      rfl
  have hf : f.ShowsAll 4 := ⟨by decide, by decide, by decide⟩
  obtain ⟨hshow, hhide, -⟩ := collapse_undoes_expand hp hP hc hn hf 1 2
  exact ⟨hp, hP, hc, hn, hf, hshow, hhide⟩

end Table

end Marginalia.Diff
