import Mathlib.Data.List.Count
import Marginalia.Proofs.Diff.Block

/-! The controls that hide chunks. Partial reveals leave a chunk in several groups, and answers come
in any order; still no chunk has two controls. An answer looks for further controls in its own
fragment alone: an old control is never behind the second placeholder of its chunk, so that it
always gives way with the rows around the first. -/

namespace Marginalia.Diff

variable {c : UInt64} {gs M M' A N C : List Group} {g t : Group} {r : Request}

/-- Loaded rows of equal lines, or a placeholder without the control that hides its chunk. -/
def Group.Loose (g : Group) : Prop :=
  g.isMergeable = true ∨ g.isPlaceholder = true ∧ g.collapsible = false

/-- What is asked of the groups that answer a request. -/
structure Request.Fetches (r : Request) (gs : List Group) : Prop where
  chunk : ∀ g ∈ gs, g.chunk = r.chunk
  loose : ∀ g ∈ gs, g.Loose
  placeholders : gs.countP Group.isPlaceholder ≤ 1
  hidden : r.isCollapse = true → ∀ g ∈ gs, g.collapsible = false

theorem Request.Fetches.settled (h : r.Fetches gs) (e : Extent) :
    r.Fetches (settled e (gs.map Group.blank)) := by
  refine ⟨fun g hg => ?_, fun g hg => ?_, (countP_settled_blank e gs).trans_le h.placeholders,
    fun hr g hg => ?_⟩
  · obtain ⟨k, hk, v, x, rfl, -⟩ := mem_settled_blank hg
    exact h.chunk k hk
  · obtain ⟨k, hk, v, x, rfl, hv⟩ := mem_settled_blank hg
    rcases h.loose k hk with hm | ⟨hp, hc⟩
    · exact Or.inl hm
    · exact Or.inr ⟨hp, by simpa [hc] using hv⟩
  · obtain ⟨k, hk, v, x, rfl, hv⟩ := mem_settled_blank hg
    simpa [h.hidden hr k hk] using hv

/-- A block with one control at most, which at most one placeholder comes before. -/
structure Controlled (M : List Group) : Prop where
  kinds : (∀ g ∈ M, g.Loose) ∨ ∀ g ∈ M, g.isPlaceholder = false ∧ g.collapsible = false
  one : M.countP Group.collapsible ≤ 1
  early : ∀ p q h, [p, q, h].Sublist M → p.isPlaceholder = true → q.isPlaceholder = true →
    h.collapsible = false

namespace Controlled

theorem sublist (h : Controlled M) (hs : M'.Sublist M) : Controlled M' :=
  ⟨h.kinds.imp (fun hk g hg => hk g (hs.subset hg)) fun hk g hg => hk g (hs.subset hg),
    hs.countP_le.trans h.one, fun p q k hpqk => h.early p q k (hpqk.trans hs)⟩

theorem of_untouched (hg : g.Untouched) : Controlled [g] := by
  refine ⟨?_, by simp [hg.collapsible], fun p q k hs => ?_⟩
  · cases hp : g.isPlaceholder with
    | true => simp [Group.Loose, hp, hg.collapsible]
    | false => simp [hp, hg.collapsible]
  · simpa using hs.length_le

/-- A block in which a request finds its target is one that answers made, or a placeholder. -/
theorem loose (h : Controlled M) (ht : TargetAt r M A t C) : ∀ g ∈ M, g.Loose := by
  rcases h.kinds with hk | hk
  · exact hk
  · obtain ⟨hp, hc⟩ := hk t (by simp [ht.split])
    have hfits := ht.fits
    simp [Request.fits, hp, hc] at hfits

theorem of_none (hl : ∀ g ∈ M, g.Loose) (hn : ∀ g ∈ M, g.collapsible = false) : Controlled M := by
  refine ⟨Or.inl hl, ?_, fun p q k hs _ _ => hn k (hs.subset (by simp))⟩
  rw [List.countP_eq_zero.mpr fun g hg => by simp [hn g hg]]
  exact Nat.zero_le 1

/-- Once a chunk is hidden, no control is left. -/
theorem collapse (h : Controlled M) (hM : ∀ g ∈ M, g.chunk = r.chunk) (ht : TargetAt r M A t C)
    (hN : r.Fetches N) (hr : r.isCollapse = true) : Controlled (replaced A N C) := by
  have hl := h.loose ht
  have hone := h.one
  rw [ht.split, List.countP_append, List.countP_cons,
    if_pos (Request.collapsible_of_fits ht.fits hr)] at hone
  have hC : C.countP Group.collapsible = 0 := by omega
  apply of_none
  · intro g hg
    rcases mem_replaced hg with hg | hg | hg
    · exact hl g (by simp [ht.split, hg])
    · exact hN.loose g hg
    · exact hl g (by simp [ht.split, hg])
  · intro g hg
    rcases mem_replaced hg with hg | hg | hg
    · have hf := ht.first g hg
      simpa [Request.fits, hr, hM g (by simp [ht.split, hg])] using hf
    · exact hN.hidden hr g hg
    · simpa using List.countP_eq_zero.mp hC g hg

/-- All that comes before a chunk's first placeholder gives way to an answer. -/
theorem rdropWhile_before (h : Controlled M) (hM : ∀ g ∈ M, g.chunk = r.chunk)
    (ht : TargetAt r M A t C) (hr : r.isCollapse = false) :
    A.rdropWhile Group.isMergeable = [] := by
  rw [List.rdropWhile_eq_nil_iff]
  intro g hg
  have hgM : g ∈ M := by simp [ht.split, hg]
  have hf := ht.first g hg
  have hp : g.isPlaceholder = false := by simpa [Request.fits, hr, hM g hgM] using hf
  rcases h.loose ht g hgM with hm | ⟨hp', -⟩
  · exact hm
  · simp [hp] at hp'

/-- What is left behind a chunk's first placeholder begins with a second one. -/
theorem collapsible_behind (h : Controlled M) (ht : TargetAt r M A t C)
    (hr : r.isCollapse = false) :
    ∀ k ∈ C.dropWhile Group.isMergeable, k.collapsible = false := by
  intro k hk
  have hs := List.dropWhile_sublist Group.isMergeable (l := C)
  cases hd : C.dropWhile Group.isMergeable with
  | nil => simp [hd] at hk
  | cons q X =>
    rw [hd] at hk hs
    have hq : q.isPlaceholder = true ∧ q.collapsible = false := by
      have hq' := List.head?_dropWhile_not Group.isMergeable C
      rcases h.loose ht q (by simp [ht.split, hs.subset List.mem_cons_self]) with hm | hp
      · simp [hd, hm] at hq'
      · exact hp
    rcases List.mem_cons.mp hk with rfl | hk
    · exact hq.2
    · refine h.early t q k ?_ (Request.placeholder_of_fits ht.fits hr) hq.1
      rw [ht.split]
      have hqk : [q, k].Sublist C := ((List.singleton_sublist.mpr hk).cons_cons q).trans hs
      exact (hqk.cons_cons t).trans (List.sublist_append_right A _)

/-- After a reveal, the one control is among the groups that came. -/
theorem expand (h : Controlled M) (hM : ∀ g ∈ M, g.chunk = r.chunk) (ht : TargetAt r M A t C)
    (hN : r.Fetches N) (hone : N.countP Group.collapsible ≤ 1) (hr : r.isCollapse = false) :
    Controlled (replaced A N C) := by
  have hC := h.collapsible_behind ht hr
  have hC0 : (C.dropWhile Group.isMergeable).countP Group.collapsible = 0 := by
    rw [List.countP_eq_zero]
    intro g hg
    simp [hC g hg]
  rw [replaced, h.rdropWhile_before hM ht hr, List.nil_append]
  refine ⟨Or.inl fun g hg => ?_, ?_, fun p q k hs hp hq => ?_⟩
  · rcases List.mem_append.mp hg with hg | hg
    · exact hN.loose g hg
    · exact h.loose ht g (by simp [ht.split, (List.dropWhile_sublist _).subset hg])
  · rw [List.countP_append, hC0]
    exact hone
  · obtain ⟨X, Y, hXY, hX, hY⟩ := List.sublist_append_iff.mp hs
    obtain ⟨Y', -, rfl⟩ | ⟨X', -, rfl⟩ := split_cases (A := [p, q]) hXY.symm
    · exact hC k (hY.subset (by simp))
    · -- a fragment has one placeholder at most
      have hcount := hX.countP_le.trans hN.placeholders
      simp [hp, hq] at hcount

theorem answer (h : Controlled M) (hM : ∀ g ∈ M, g.chunk = r.chunk) (ht : TargetAt r M A t C)
    (hN : r.Fetches N) (hone : N.countP Group.collapsible ≤ 1) : Controlled (replaced A N C) := by
  cases hr : r.isCollapse with
  | true => exact h.collapse hM ht hN hr
  | false => exact h.expand hM ht hN hone hr

end Controlled

/-- Where one member at most passes a test, the search finds that one wherever it is. -/
theorem findIdx?_eq_some_of_countP {α : Type} {p : α → Bool} {l : List α} (h : l.countP p ≤ 1)
    (i : Nat) : l.findIdx? p = some i ↔ ∃ a, l[i]? = some a ∧ p a = true := by
  induction l generalizing i with
  | nil => simp
  | cons b l ih =>
    rw [List.countP_cons] at h
    rw [List.findIdx?_cons]
    by_cases hb : p b = true
    · have hnone : ∀ a ∈ l, ¬ p a = true := List.countP_eq_zero.mp (by rw [if_pos hb] at h; omega)
      cases i with
      | zero => simp [hb]
      | succ i =>
        simp only [hb, List.getElem?_cons_succ]
        refine iff_of_false (by simp) ?_
        rintro ⟨a, ha, hp⟩
        exact hnone a (List.mem_of_getElem? ha) hp
    · cases i with
      | zero => simp [hb]
      | succ i => simp [hb, ih (by omega)]

theorem countP_unflagged {p : Group → Bool} (hp : ∀ g : Group, p g.blank = p g) (t : Table) :
    t.unflagged.countP p = t.groups.countP p := by
  rw [Table.unflagged, List.countP_map]
  exact List.countP_congr fun g _ => by simp [hp]

/-- Each chunk has one group at most with the control that hides it, which is the one found where
it is looked for, and has no second button. -/
structure Table.SingleControls (t : Table) : Prop where
  one : ∀ c, t.groups.countP (fun g => g.chunk == c && g.collapsible) ≤ 1
  found : ∀ c i, t.collapsible? c = some i ↔
    ∃ g, t.groups[i]? = some g ∧ g.chunk = c ∧ g.collapsible = true
  buttons : t.buttons.Nodup

namespace Session

variable {s : Session}

/-- The blocks of all chunks are controlled, and the buttons are those of the groups. -/
structure AllControlled (s : Session) : Prop where
  blocks : ∀ c, ∃ M, Block c s.table.unflagged M ∧ Controlled M
  buttons : s.table.buttons = collapsibleChunks s.table.unflagged

theorem allControlled_perform {op : Operation} (h : s.AllControlled)
    (hf : ∀ r f, op = .answer r (.ok f) → r.Fetches f.groups) : (s.perform op).AllControlled := by
  refine ⟨fun c => ?_, buttons_perform h.buttons op⟩
  obtain ⟨M, hb, hM⟩ := h.blocks c
  have hchunk : ∀ r f, op = .answer r (.ok f) → ∀ g ∈ f.groups, g.chunk = c ↔ r.chunk = c := by
    intro r f hop g hg
    rw [(hf r f hop).chunk g hg]
  obtain he | ⟨r, f, A, t, C, hop, rfl, ht, hb'⟩ | ⟨r, f, M', -, -, hs, hb'⟩ := hb.perform hchunk
  · exact ⟨M, he ▸ hb, hM⟩
  · exact ⟨_, hb', hM.answer hb.chunk ht ((hf r f hop).settled _) (countP_settled _ _)⟩
  · exact ⟨M', hb', hM.sublist hs⟩

theorem AllControlled.singleControls (h : s.AllControlled) : s.table.SingleControls := by
  have hone (c : UInt64) : s.table.groups.countP (fun g => g.chunk == c && g.collapsible) ≤ 1 := by
    obtain ⟨M, hb, hM⟩ := h.blocks c
    have hcount := hM.one
    rw [← hb.filter, List.countP_filter, countP_unflagged fun _ => rfl] at hcount
    simpa only [Bool.and_comm] using hcount
  refine ⟨hone, fun c i => ?_, ?_⟩
  · rw [Table.collapsible?, findIdx?_eq_some_of_countP (hone c)]
    simp
  · rw [h.buttons, Table.unflagged, collapsibleChunks_blank, List.nodup_iff_count_le_one]
    intro c
    rw [collapsibleChunks, List.count, List.countP_map, List.countP_filter]
    exact hone c

theorem allControlled_new {t : Table} (ht : t.Parsed) (file : File) :
    (Session.new file t).AllControlled := by
  obtain ⟨gs, rfl, hu⟩ := ht.untouched
  refine ⟨fun c => ?_, (collapsibleChunks_blank gs).symm⟩
  obtain hb | ⟨g, hg, -, hb⟩ := (Untouched.blank hu).block c
  · exact ⟨[], hb, ⟨Or.inl (by simp), by simp, by simp⟩⟩
  · exact ⟨[g], hb, .of_untouched ((Untouched.blank hu).groups g hg)⟩

/-- However requests are answered, late, in any order, more than once or not at all: no chunk of a
diff ever has two controls. -/
theorem singleControls_run {t : Table} (ht : t.Parsed) (file : File) (ops : List Operation)
    (hf : ∀ r f, .answer r (.ok f) ∈ ops → r.Fetches f.groups) :
    ((Session.new file t).run ops).table.SingleControls :=
  (run_keeps (fun _ _ => allControlled_perform) (allControlled_new ht file) hf).singleControls

/-- A gap that is revealed in part, in whole, and hidden by a late answer once more. -/
theorem singleControls_late_answer :
    let t := Table.ofGroups
      [.placeholder 0 2 [.above 1, .whole, .below 1],
        .new 1 .delete [⟨3, some 3, none, some "x", none, .none, false⟩]]
    let ops : List Operation :=
      [.answer ⟨1, 0, .ends 1 0⟩ (.ok ⟨[.shown 0 [.bare 1], .placeholder 0 1 [.whole]]⟩),
        .answer ⟨2, 0, .whole⟩ (.ok ⟨[.shown 0 [.bare 1], .shown 0 [.bare 2]]⟩),
        .answer ⟨3, 0, .hidden⟩ (.ok ⟨[.placeholder 0 2 [.whole]]⟩),
        .answer ⟨1, 0, .ends 1 0⟩ (.ok ⟨[.shown 0 [.bare 1], .placeholder 0 1 [.whole]]⟩)]
    t.Parsed ∧ (∀ r f, .answer r (.ok f) ∈ ops → r.Fetches f.groups) ∧
      ((new (.new 0 0 0) t).run ops).table.SingleControls := by
  intro t ops
  have ht : t.Parsed := by
    refine ⟨"--- a/f\n+++ b/f\n@@ -3 +3,0 @@\n-x\n", 1, [⟨"f", none, t⟩], _, ?_,
      List.mem_singleton_self _, rfl⟩
    decide +kernel
  have hf : ∀ r f, .answer r (.ok f) ∈ ops → r.Fetches f.groups := by
    intro r f hm
    simp only [ops, List.mem_cons, Operation.answer.injEq, Except.ok.injEq, List.not_mem_nil,
      or_false] at hm
    rcases hm with ⟨rfl, rfl⟩ | ⟨rfl, rfl⟩ | ⟨rfl, rfl⟩ | ⟨rfl, rfl⟩ <;>
      exact ⟨by decide, by unfold Group.Loose; decide, by decide, by decide⟩
  exact ⟨ht, hf, singleControls_run ht (.new 0 0 0) ops hf⟩

end Session

end Marginalia.Diff
