import Marginalia.Proofs.Diff.Parsed
import Marginalia.Proofs.Diff.Run

/-! The groups of a chunk stand together, in a block. An answer about the chunk changes its block as
it would change a table of that block alone; an answer about another chunk can take groups away
from one end of it. -/

namespace Marginalia.Diff

variable {c : UInt64} {gs M M' L R A N C : List Group} {g t : Group} {r : Request}

/-- The groups of a chunk, with no group of another chunk between them. -/
structure Block (c : UInt64) (gs M : List Group) : Prop where
  split : ∃ L R, gs = L ++ M ++ R ∧ ∀ g ∈ L ++ R, g.chunk ≠ c
  chunk : ∀ g ∈ M, g.chunk = c

theorem Block.filter (h : Block c gs M) : gs.filter (fun g => g.chunk == c) = M := by
  obtain ⟨L, R, rfl, hLR⟩ := h.split
  have hL : L.filter (fun g => g.chunk == c) = [] := by
    simpa using fun g hg => hLR g (List.mem_append_left R hg)
  have hR : R.filter (fun g => g.chunk == c) = [] := by
    simpa using fun g hg => hLR g (List.mem_append_right L hg)
  have hM : M.filter (fun g => g.chunk == c) = M := by
    simpa using h.chunk
  rw [List.filter_append, List.filter_append, hL, hM, hR, List.nil_append, List.append_nil]

theorem Untouched.blank (h : Untouched gs) : Untouched (gs.map Group.blank) := by
  refine ⟨by simpa [Function.comp_def, Group.blank] using h.chunks, fun g hg => ?_⟩
  obtain ⟨k, hk, rfl⟩ := List.mem_map.mp hg
  obtain ⟨hl, hc, hr⟩ := h.groups k hk
  exact ⟨hl, hc, fun hp => by simp [Group.blank, hr hp]⟩

theorem Untouched.block (h : Untouched gs) (c : UInt64) :
    Block c gs [] ∨ ∃ g ∈ gs, g.chunk = c ∧ Block c gs [g] := by
  by_cases hc : c ∈ gs.map Group.chunk
  · right
    obtain ⟨g, hg, rfl⟩ := List.mem_map.mp hc
    obtain ⟨L, R, rfl⟩ := List.append_of_mem hg
    refine ⟨g, hg, rfl, ⟨L, R, by simp, fun k hk hkg => ?_⟩, by simp⟩
    have hn := h.chunks
    rw [List.map_append, List.map_cons, List.nodup_middle, List.nodup_cons, ← List.map_append] at hn
    exact hn.1 (hkg ▸ List.mem_map_of_mem hk)
  · left
    refine ⟨⟨gs, [], by simp, fun k hk hkc => hc ?_⟩, by simp⟩
    rw [← hkc]
    exact List.mem_map_of_mem (by simpa using hk)

/-- An answer about the chunk of a block finds its target in the block. -/
theorem Block.answer (h : Block r.chunk gs M) (ht : TargetAt r gs A t C)
    (hN : ∀ g ∈ N, g.chunk = r.chunk) :
    ∃ A' C', TargetAt r M A' t C' ∧ Block r.chunk (replaced A N C) (replaced A' N C') := by
  obtain ⟨L, R, hgs, hLR⟩ := h.split
  have htc := Request.chunk_of_fits ht.fits
  have heq : L ++ (M ++ R) = A ++ t :: C := by rw [← List.append_assoc, ← hgs, ht.split]
  obtain ⟨A', rfl, hMR⟩ | ⟨C', -, hL⟩ := split_cases heq
  · obtain ⟨R', rfl, hR⟩ | ⟨C', rfl, hM⟩ := split_cases hMR
    · exact absurd htc (hLR t (by simp [hR]))
    · refine ⟨A', C', ⟨hM, ht.fits, fun g hg => ht.first g (List.mem_append_right L hg)⟩, ?_, ?_⟩
      · obtain ⟨L', R', hL', hR', he⟩ := replaced_append_sublist L A' N C' R
        refine ⟨L', R', he, fun g hg => hLR g ?_⟩
        exact (hL'.append hR').subset hg
      · intro g hg
        rcases mem_replaced hg with hg | hg | hg
        · exact h.chunk g (by simp [hM, hg])
        · exact hN g hg
        · exact h.chunk g (by simp [hM, hg])
  · exact absurd htc (hLR t (by simp [hL]))

/-- An answer about another chunk can at most take groups of the block away. -/
theorem Block.answer_other (h : Block c gs M) (ht : TargetAt r gs A t C) (hr : r.chunk ≠ c)
    (hN : ∀ g ∈ N, g.chunk ≠ c) : ∃ M', M'.Sublist M ∧ Block c (replaced A N C) M' := by
  obtain ⟨L, R, hgs, hLR⟩ := h.split
  have htc : t.chunk ≠ c := Request.chunk_of_fits ht.fits ▸ hr
  have heq : L ++ (M ++ R) = A ++ t :: C := by rw [← List.append_assoc, ← hgs, ht.split]
  have hA := (List.rdropWhile_prefix Group.isMergeable A).sublist
  have hC := List.dropWhile_sublist Group.isMergeable (l := C)
  obtain ⟨A', rfl, hMR⟩ | ⟨C', rfl, hL⟩ := split_cases heq
  · obtain ⟨R', rfl, hR⟩ | ⟨C', rfl, hM⟩ := split_cases hMR
    · -- the target comes after the block
      obtain ⟨L', X, hA', hL', hX⟩ := List.sublist_append_iff.mp hA
      obtain ⟨M', R'', rfl, hM', hR'⟩ := List.sublist_append_iff.mp hX
      refine ⟨M', hM', ⟨L', R'' ++ N ++ C.dropWhile Group.isMergeable, ?_, ?_⟩,
        fun g hg => h.chunk g (hM'.subset hg)⟩
      · simp [replaced, hA']
      · simp only [List.mem_append]
        rintro g (hg | (hg | hg) | hg)
        · exact hLR g (List.mem_append_left R (hL'.subset hg))
        · exact hLR g (by simp [hR, hR'.subset hg])
        · exact hN g hg
        · exact hLR g (by simp [hR, hC.subset hg])
    · exact absurd (h.chunk t (by simp [hM])) htc
  · -- the target comes before the block
    obtain ⟨L', X, hC', hL', hX⟩ := List.sublist_append_iff.mp hC
    obtain ⟨M', R', rfl, hM', hR'⟩ := List.sublist_append_iff.mp hX
    refine ⟨M', hM', ⟨A.rdropWhile Group.isMergeable ++ N ++ L', R', ?_, ?_⟩,
      fun g hg => h.chunk g (hM'.subset hg)⟩
    · simp [replaced, hC']
    · simp only [List.mem_append]
      rintro g (((hg | hg) | hg) | hg)
      · exact hLR g (by simp [hL, hA.subset hg])
      · exact hN g hg
      · exact hLR g (by simp [hL, hL'.subset hg])
      · exact hLR g (List.mem_append_right L (hR'.subset hg))

/-- All that an operation can do to a block, where fragments about its chunk, and they alone, have
groups of the chunk. -/
theorem Block.perform {s : Session} {op : Operation} (h : Block c s.table.unflagged M)
    (hf : ∀ r f, op = .answer r (.ok f) → ∀ g ∈ f.groups, g.chunk = c ↔ r.chunk = c) :
    (s.perform op).table.unflagged = s.table.unflagged ∨
      (∃ r f A t C, op = .answer r (.ok f) ∧ r.chunk = c ∧ TargetAt r M A t C ∧
        Block c (s.perform op).table.unflagged
          (replaced A (settled r.extent (f.groups.map Group.blank)) C)) ∨
      ∃ r f M', op = .answer r (.ok f) ∧ r.chunk ≠ c ∧ M'.Sublist M ∧
        Block c (s.perform op).table.unflagged M' := by
  obtain he | ⟨r, f, A, t, C, hop, -, ht, he⟩ := s.unflagged_perform op
  · exact Or.inl he
  · have hN : ∀ g ∈ settled r.extent (f.groups.map Group.blank), g.chunk = c ↔ r.chunk = c := by
      intro g hg
      obtain ⟨k, hk, v, x, rfl, -⟩ := mem_settled_blank hg
      exact hf r f hop k hk
    right
    rw [he]
    by_cases hr : r.chunk = c
    · subst hr
      obtain ⟨A', C', ht', hb⟩ := h.answer (ht.map fun _ => rfl) fun g hg => (hN g hg).mpr rfl
      exact Or.inl ⟨r, f, A', t.blank, C', hop, rfl, ht', hb⟩
    · obtain ⟨M', hM', hb⟩ :=
        h.answer_other (ht.map fun _ => rfl) hr fun g hg => (hN g hg).not.mpr hr
      exact Or.inr ⟨r, f, M', hop, hr, hM', hb⟩

end Marginalia.Diff
