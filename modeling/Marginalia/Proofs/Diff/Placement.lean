import Marginalia.Proofs.Diff.Answer

/-! Where the groups of an answer come to stand. What becomes of each of them is told by the groups
in front of it in the fragment: it keeps the control that hides the chunk only if none of them has
one. Around the fragment the table loses its loaded groups of equal lines, and nothing else. -/

namespace Marginalia.Diff

/-- Whether only some lines of a gap are asked for. -/
def Extent.isPartial : Extent → Bool
  | .ends _ _ => true
  | .whole | .hidden => false

/-- A group of a fragment as it stands in the table, with the groups in front of it. -/
def Extent.place (e : Extent) (before : List Group) (g : Group) : Group :=
  { g with
    collapsible := g.collapsible && !before.any Group.collapsible
    expansion := if e.isPartial && g.isPlaceholder then .partly else g.expansion }

/-- The groups of a fragment as they stand in the table. -/
def Extent.placed (e : Extent) (gs : List Group) : List Group :=
  gs.mapIdx fun i g => e.place (gs.take i) g

theorem Extent.length_placed (e : Extent) (gs : List Group) : (e.placed gs).length = gs.length :=
  List.length_mapIdx

/-- Of the groups that have the control, the first one keeps it if none was seen before. -/
theorem keepFirst_eq (seen : Bool) (gs : List Group) :
    keepFirst seen gs = gs.mapIdx fun i g =>
      { g with collapsible := g.collapsible && !(seen || (gs.take i).any Group.collapsible) } := by
  -- What `seen` tells the rest is whether a group further in front has had the control.
  induction gs generalizing seen with
  | nil => rfl
  | cons g gs ih =>
    rw [keepFirst, List.mapIdx_cons, ih]
    congr 1
    · by_cases hg : g.collapsible = true <;> simp [hg]
      cases g
      simp_all
    · congr 1
      funext i k
      simp only [List.take_succ_cons, List.any_cons, Bool.or_assoc]

theorem settled_eq (e : Extent) (gs : List Group) : settled e gs = e.placed gs := by
  have hkept : keepFirst false gs = gs.mapIdx fun i g =>
      { g with collapsible := g.collapsible && !(gs.take i).any Group.collapsible } := by
    simpa using keepFirst_eq false gs
  cases e with
  | ends above below =>
    rw [settled, hkept]
    apply List.ext_getElem?
    intro i
    simp only [Extent.placed, List.getElem?_map, List.getElem?_mapIdx, Option.map_map]
    congr 1
    funext g
    have hkind (v : Bool) : ({ g with collapsible := v } : Group).isPlaceholder = g.isPlaceholder :=
      rfl
    rw [Function.comp_apply, Group.markPartly, hkind]
    by_cases hg : g.isPlaceholder = true <;> simp [hg, Extent.place, Extent.isPartial]
  | whole => exact hkept
  | hidden => exact hkept

namespace Table

variable {t : Table} {r : Request} {f : Fragment} {p : Nat}

/-- The target of a request is a group of the table, between those before and those after it. -/
theorem groups_of_target? (h : t.target? r = some p) :
    ∃ g, t.groups = t.groups.take p ++ g :: t.groups.drop (p + 1) ∧
      (t.groups.take p).length = p := by
  rw [target?_eq] at h
  obtain ⟨A, g, C, hat, rfl⟩ := exists_targetAt h
  refine ⟨g, ?_, ?_⟩
  · simp [hat.split]
  · simp [hat.split]

/-- The groups of the fragment stand where the target stood, between what is left of the groups on
either side once the loaded groups of equal lines next to the target are gone, and the positions
that are told are theirs. -/
theorem applyFragment_placed (hp : t.target? r = some p) (hf : f.groups ≠ []) :
    let before := (t.groups.take p).rdropWhile Group.isMergeable
    let after := (t.groups.drop (p + 1)).dropWhile Group.isMergeable
    t.applyFragment r (.ok f) =
      .ok (.ofGroups (before ++ r.extent.placed f.groups ++ after),
        ⟨before.length, (before ++ r.extent.placed f.groups).length⟩) := by
  intro before after
  obtain ⟨g, hsplit, hlen⟩ := groups_of_target? hp
  have hins := insertFragment_eq (b := t.buttons) (t.groups.take p) (t.groups.drop (p + 1)) g
    t.index r.extent f
  rw [← hsplit, hlen, settled_eq] at hins
  rw [applyFragment, hp]
  simp only [if_neg hf, hins, replaced, List.length_append, Extent.length_placed, before, after]

/-- A gap between two runs of loaded groups, in answer to which two groups with a control and a
placeholder come. -/
theorem applyFragment_placed_within_runs :
    let left : Group := .new 0 .equal [.bare 1]
    let gap : Group := .placeholder 4 9 [.whole]
    let right : Group := .new 7 .delete [.bare 20]
    let t : Table :=
      .ofGroups [left, .shown 1 [.bare 2], .shown 2 [], gap, .shown 5 [.bare 12], right]
    let r : Request := ⟨1, 4, .ends 2 0⟩
    let f : Fragment := ⟨[.shown 4 [.bare 3], .shown 4 [.bare 4], .placeholder 4 7 [.whole]]⟩
    t.target? r = some 3 ∧ f.groups ≠ [] ∧
      t.applyFragment r (.ok f) =
        .ok (.ofGroups [left, .shown 4 [.bare 3],
          { Group.shown 4 [.bare 4] with collapsible := false },
          { Group.placeholder 4 7 [.whole] with expansion := .partly }, right], ⟨1, 4⟩) := by
  intro left gap right t r f
  have hp : t.target? r = some 3 := by decide
  have hf : f.groups ≠ [] := by decide
  exact ⟨hp, hf, (applyFragment_placed hp hf).trans (by decide)⟩

end Table

end Marginalia.Diff
