import Mathlib.Data.List.Forall2
import Marginalia.Diff.Patch.Table
import Marginalia.Proofs.Diff.Rows

/-! One diff read with two amounts of context. Reading fails for both with the same error or gives
both the same tables, save for the controls that the gaps offer. -/

namespace Marginalia.Diff

open List (Forall₂)

/-! ### Two runs -/

/-- Two runs end alike: both fail with one error, or both succeed with results that are related. -/
inductive SameOutcome {ε α β : Type} (R : α → β → Prop) : Except ε α → Except ε β → Prop where
  | error (e : ε) : SameOutcome R (.error e) (.error e)
  | ok {a : α} {b : β} (h : R a b) : SameOutcome R (.ok a) (.ok b)

namespace SameOutcome

variable {ε α α' β β' γ : Type} {R : α → β → Prop} {S : α' → β' → Prop}

theorem refl {T : α → α → Prop} (hT : ∀ a, T a a) (x : Except ε α) : SameOutcome T x x := by
  cases x with
  | error e => exact .error e
  | ok a => exact .ok (hT a)

theorem bind {x : Except ε α} {y : Except ε β} {f : α → Except ε α'} {g : β → Except ε β'}
    (h : SameOutcome R x y) (hf : ∀ a b, R a b → SameOutcome S (f a) (g b)) :
    SameOutcome S (x >>= f) (y >>= g) := by
  cases h with
  | error e => exact .error e
  | ok h => exact hf _ _ h

/-- Steps that keep a relation keep it through a fold. -/
theorem foldlM {f : α → γ → Except ε α} {g : β → γ → Except ε β}
    (hf : ∀ a b c, R a b → SameOutcome R (f a c) (g b c)) {a : α} {b : β} (h : R a b)
    (l : List γ) : SameOutcome R (l.foldlM f a) (l.foldlM g b) := by
  induction l generalizing a b with
  | nil => exact .ok h
  | cons c l ih =>
    rw [List.foldlM_cons, List.foldlM_cons]
    exact (hf a b c h).bind fun _ _ h => ih h

theorem mapM {f : γ → Except ε α} {g : γ → Except ε β} (hf : ∀ c, SameOutcome R (f c) (g c))
    (l : List γ) : SameOutcome (Forall₂ R) (l.mapM f) (l.mapM g) := by
  induction l with
  | nil => exact .ok .nil
  | cons c l ih =>
    rw [List.mapM_cons, List.mapM_cons]
    exact (hf c).bind fun _ _ h => ih.bind fun _ _ hs => .ok (.cons h hs)

end SameOutcome

/-! ### Tables that differ in controls -/

variable {g h : Group} {gs hs : List Group}

/-- The same group; if it is a placeholder, it may have other controls. -/
structure Group.SameButReveals (g h : Group) : Prop where
  rest : { g with reveals := h.reveals } = h
  shown : g.isPlaceholder = false → g = h

theorem Group.SameButReveals.refl (g : Group) : g.SameButReveals g := ⟨rfl, fun _ => rfl⟩

/-- The controls apart, nothing of a group is told apart. -/
theorem Group.SameButReveals.map_eq {α : Type} {f : Group → α} (h : Forall₂ SameButReveals gs hs)
    (hf : ∀ g rs, f { g with reveals := rs } = f g) : gs.map f = hs.map f := by
  induction h with
  | nil => rfl
  | cons hg _ ih =>
    rw [List.map_cons, List.map_cons, ih, ← hg.rest]
    exact congrArg (· :: _) (hf _ _).symm

/-- The same table, with other controls at its placeholders. -/
structure Table.SameButReveals (t u : Table) : Prop where
  groups : Forall₂ Group.SameButReveals t.groups u.groups
  index : t.index = u.index
  buttons : t.buttons = u.buttons

theorem Table.sameButReveals_ofGroups (h : Forall₂ Group.SameButReveals gs hs) :
    (Table.ofGroups gs).SameButReveals (Table.ofGroups hs) where
  groups := h
  index := rowIndex_congr (Group.SameButReveals.map_eq h fun _ _ => rfl)
  buttons := by
    have hchunks (gs : List Group) : collapsibleChunks gs =
        ((gs.map fun g => (g.collapsible, g.chunk)).filter Prod.fst).map Prod.snd := by
      simp [collapsibleChunks, List.filter_map, Function.comp_def]
    have hmap := Group.SameButReveals.map_eq (f := fun g => (g.collapsible, g.chunk)) h
      fun _ _ => rfl
    change collapsibleChunks gs = collapsibleChunks hs
    rw [hchunks, hchunks, hmap]

/-- The same file with the same table, with other controls at its placeholders. -/
structure FileTable.SameButReveals (f f' : FileTable) : Prop where
  path : f.path = f'.path
  oldPath : f.oldPath = f'.oldPath
  table : f.table.SameButReveals f'.table

namespace Patch

/-- Two tables in the making, alike but for the controls of their placeholders. -/
structure Builder.SameButReveals (b c : Builder) : Prop where
  groups : Forall₂ Group.SameButReveals b.groups c.groups
  nextLine : b.nextLine = c.nextLine
  nextOld : b.nextOld = c.nextOld

namespace Builder.SameButReveals

variable {b c : Builder} {make make' : UInt64 → Group}

theorem push (h : b.SameButReveals c) (hm : ∀ chunk, (make chunk).SameButReveals (make' chunk))
    (next : Nat) : (b.push make next).SameButReveals (c.push make' next) where
  groups := by
    have hlast := hm (UInt64.ofNat c.groups.length)
    simp only [Builder.push, h.groups.length_eq]
    exact List.rel_append h.groups (.cons hlast .nil)
  nextLine := rfl
  nextOld := h.nextOld

/-- A gap takes as many lines whatever the context is. -/
theorem pushGap (h : b.SameButReveals c) (context context' hidden : UInt32)
    (header : List Char) :
    SameOutcome SameButReveals (b.pushGap context hidden header)
      (c.pushGap context' hidden header) := by
  unfold Builder.pushGap
  rw [h.nextLine]
  refine (SameOutcome.refl (T := Eq) (fun _ => rfl) _).bind fun next _ hn => .ok ?_
  subst hn
  refine h.push (fun chunk => ?_) next
  split
  · exact ⟨rfl, fun hp => by simp [Group.placeholder, Group.isPlaceholder, Group.new] at hp⟩
  · exact ⟨rfl, fun hp => by
      simp [Group.placeholder, Group.isPlaceholder, Group.new, Group.withHeader] at hp⟩

theorem pushSegment (h : b.SameButReveals c) (s : Segment) :
    SameOutcome SameButReveals (b.pushSegment s) (c.pushSegment s) := by
  unfold Builder.pushSegment
  rw [h.nextLine]
  refine (SameOutcome.refl (T := Eq) (fun _ => rfl) _).bind fun r _ hr => .ok ?_
  subst hr
  exact h.push (fun _ => .refl _) r.2

/-- The lines of a hunk behind its gap are worked in alike. -/
theorem pushLines (h : b.SameButReveals c) (start : Nat) (k : Hunk) :
    SameOutcome SameButReveals
      (line k.oldLength >>= fun length =>
        if start + length.toNat < lineLimit then
          k.segments.foldlM Builder.pushSegment { b with nextOld := start + length.toNat }
        else .error (.hunkOverflow k.oldStart k.oldLength))
      (line k.oldLength >>= fun length =>
        if start + length.toNat < lineLimit then
          k.segments.foldlM Builder.pushSegment { c with nextOld := start + length.toNat }
        else .error (.hunkOverflow k.oldStart k.oldLength)) := by
  refine (SameOutcome.refl (T := Eq) (fun _ => rfl) _).bind fun length _ hl => ?_
  subst hl
  split
  · exact SameOutcome.foldlM (fun _ _ s h => h.pushSegment s) ⟨h.groups, h.nextLine, rfl⟩ _
  · exact .error _

theorem pushHunk (h : b.SameButReveals c) (context context' : UInt32) (k : Hunk) :
    SameOutcome SameButReveals (Builder.pushHunk context b k) (Builder.pushHunk context' c k) := by
  unfold Builder.pushHunk
  rw [h.nextOld]
  refine (SameOutcome.refl (T := Eq) (fun _ => rfl) _).bind fun start _ hs => ?_
  subst hs
  dsimp only
  split
  · exact (h.pushGap context context' _ _).bind fun _ _ h => h.pushLines _ k
  · exact h.pushLines _ k

end Builder.SameButReveals

theorem sameOutcome_fileTable (context context' : UInt32) (f : FilePatch) :
    SameOutcome FileTable.SameButReveals (fileTable context f) (fileTable context' f) := by
  have hstart : Builder.start.SameButReveals Builder.start := ⟨.nil, rfl, rfl⟩
  have hfold := SameOutcome.foldlM (fun _ _ k h => h.pushHunk context context' k) hstart f.hunks
  unfold fileTable
  revert hfold
  generalize f.hunks.foldlM (Builder.pushHunk context) Builder.start = x
  generalize f.hunks.foldlM (Builder.pushHunk context') Builder.start = y
  rintro (e | h)
  · exact .error _
  · exact .ok ⟨rfl, rfl, Table.sameButReveals_ofGroups h.groups⟩

/-- Whatever a diff is, and whichever two amounts of context are chosen, reading the diff fails for
both with the same error, which may be to give up without a report, or succeeds for both with the
same files and paths and with tables that are the same, save for the controls of the
placeholders. -/
theorem sameOutcome_tables (text : String) (context context' : UInt32) :
    SameOutcome (Forall₂ FileTable.SameButReveals) (tables text context) (tables text context') := by
  unfold tables
  split
  · exact SameOutcome.mapM (sameOutcome_fileTable context context') _
  · exact .error _

end Patch

end Marginalia.Diff
