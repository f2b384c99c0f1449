import Marginalia.Proofs.Diff.Run

/-! Answers to different chunks, in whatever order they come. Between the targets of two answers
stands a wall, a group that does not give way. Neither answer reaches across it, so that the two
commute, and it still stands after any other answer. -/

namespace Marginalia.Diff

variable {a b r r' x : Request} {gs A B C L M N N' P Q : List Group} {g k t t' : Group}

/-- Groups of which not all give way. -/
def Wall (M : List Group) : Prop := ∃ g ∈ M, g.isMergeable = false

namespace Wall

theorem dropWhile_append (h : Wall M) (C : List Group) :
    (M ++ C).dropWhile Group.isMergeable = M.dropWhile Group.isMergeable ++ C := by
  obtain ⟨g, hg, hm⟩ := h
  rw [List.dropWhile_append, if_neg]
  rw [List.isEmpty_iff, List.dropWhile_eq_nil_iff]
  intro hall
  simp [hall g hg] at hm

theorem rdropWhile_append (h : Wall M) (A : List Group) :
    (A ++ M).rdropWhile Group.isMergeable = A ++ M.rdropWhile Group.isMergeable := by
  obtain ⟨g, hg, hm⟩ := h
  rw [Diff.rdropWhile_append, if_neg]
  rw [List.all_eq_true]
  intro hall
  simp [hall g hg] at hm

theorem rdropWhile_middle (h : Wall M) (A : List Group) (t : Group) :
    (A ++ t :: M).rdropWhile Group.isMergeable = A ++ t :: M.rdropWhile Group.isMergeable := by
  have hsplit := h.rdropWhile_append (A ++ [t])
  simpa using hsplit

theorem append_right (h : Wall M) (C : List Group) : Wall (M ++ C) := by
  obtain ⟨g, hg, hm⟩ := h
  exact ⟨g, List.mem_append_left C hg, hm⟩

theorem dropWhile (h : Wall M) : Wall (M.dropWhile Group.isMergeable) := by
  obtain ⟨g, hg, hm⟩ := h
  rw [← List.takeWhile_append_dropWhile (p := Group.isMergeable) (l := M)] at hg
  rcases List.mem_append.mp hg with hg | hg
  · simp [List.mem_takeWhile_imp hg] at hm
  · exact ⟨g, hg, hm⟩

theorem rdropWhile (h : Wall M) : Wall (M.rdropWhile Group.isMergeable) := by
  obtain ⟨g, hg, hm⟩ := h
  rw [← List.rdropWhile_append_rtakeWhile (p := Group.isMergeable) (l := M)] at hg
  rcases List.mem_append.mp hg with hg | hg
  · exact ⟨g, hg, hm⟩
  · simp [List.mem_rtakeWhile_imp hg] at hm

end Wall

theorem rdropWhile_dropWhile {α : Type} (p : α → Bool) (l : List α) :
    (l.dropWhile p).rdropWhile p = (l.rdropWhile p).dropWhile p := by
  induction l using List.reverseRecOn with
  | nil => rfl
  | append_singleton l y ih =>
    rw [List.dropWhile_append, List.rdropWhile_concat]
    by_cases hy : p y = true
    · rw [if_pos hy, ← ih]
      by_cases hl : l.dropWhile p = [] <;> simp [hl, hy]
    · by_cases hl : l.dropWhile p = [] <;> simp [hl, hy, List.dropWhile_append]

/-- The targets of two requests, with a wall between them. -/
structure WalledAt (r r' : Request) (gs A : List Group) (t : Group) (M : List Group) (t' : Group)
    (C : List Group) : Prop where
  left : TargetAt r gs A t (M ++ t' :: C)
  right : TargetAt r' gs (A ++ t :: M) t' C
  wall : Wall M

/-- The target of the first request comes before that of the second, and a wall between them. -/
def Walled (r r' : Request) (gs : List Group) : Prop := ∃ A t M t' C, WalledAt r r' gs A t M t' C

theorem WalledAt.answer_left (h : WalledAt r r' gs A t M t' C)
    (hN : ∀ g ∈ N, r'.fits g = false) :
    TargetAt r' (replaced A N (M ++ t' :: C))
      (A.rdropWhile Group.isMergeable ++ N ++ M.dropWhile Group.isMergeable) t' C := by
  refine ⟨?_, h.right.fits, fun g hg => ?_⟩
  · rw [replaced, h.wall.dropWhile_append]
    simp only [List.append_assoc]
  · simp only [List.mem_append] at hg
    rcases hg with (hg | hg) | hg
    · exact h.right.first g (List.mem_append_left _ ((List.rdropWhile_prefix _ A).subset hg))
    · exact hN g hg
    · exact h.right.first g (by simp [(List.dropWhile_sublist _).subset hg])

theorem WalledAt.answer_right (h : WalledAt r r' gs A t M t' C) (N : List Group) :
    TargetAt r (replaced (A ++ t :: M) N C) A t
      (M.rdropWhile Group.isMergeable ++ N ++ C.dropWhile Group.isMergeable) := by
  refine ⟨?_, h.left.fits, h.left.first⟩
  rw [replaced, h.wall.rdropWhile_middle]
  simp

/-- Neither of two answers reaches what the other does. -/
theorem WalledAt.replaced_comm (h : WalledAt r r' gs A t M t' C) (N N' : List Group) :
    replaced (A.rdropWhile Group.isMergeable ++ N ++ M.dropWhile Group.isMergeable) N' C =
      replaced A N
        (M.rdropWhile Group.isMergeable ++ N' ++ C.dropWhile Group.isMergeable) := by
  rw [replaced, replaced, h.wall.dropWhile.rdropWhile_append, List.append_assoc (M.rdropWhile _),
    h.wall.rdropWhile.dropWhile_append, rdropWhile_dropWhile]
  simp only [List.append_assoc]

/-- An answer further down leaves two targets and the wall between them where they are. -/
theorem Walled.answer_after (h : Walled a b gs) (hbx : Walled b x gs) (hx : TargetAt x gs P k Q)
    (N : List Group) : Walled a b (replaced P N Q) := by
  obtain ⟨A, t, M, t', C, hab⟩ := h
  obtain ⟨B, t₁, M', k', C', hbx⟩ := hbx
  obtain ⟨rfl, rfl, rfl⟩ := hab.right.unique hbx.left
  obtain ⟨rfl, rfl, rfl⟩ := hx.unique hbx.right
  obtain ⟨hs, hf, hfirst⟩ := hbx.answer_right N
  exact ⟨A, t, M, t', _, ⟨by simpa using hs, hab.left.fits, hab.left.first⟩, ⟨hs, hf, hfirst⟩,
    hab.wall⟩

/-- An answer further up moves two targets, and the wall between them with them. -/
theorem Walled.answer_before (h : Walled a b gs) (hxa : Walled x a gs) (hx : TargetAt x gs P k Q)
    (hNa : ∀ g ∈ N, a.fits g = false) (hNb : ∀ g ∈ N, b.fits g = false) :
    Walled a b (replaced P N Q) := by
  obtain ⟨A, t, M, t', C, hab⟩ := h
  obtain ⟨X, k', M', t₁, C', hxa⟩ := hxa
  obtain ⟨rfl, rfl, rfl⟩ := hab.left.unique hxa.right
  obtain ⟨rfl, rfl, rfl⟩ := hx.unique hxa.left
  obtain ⟨hs, hf, hfirst⟩ := hxa.answer_left hNa
  refine ⟨_, t, M, t', C, ⟨hs, hf, hfirst⟩, ⟨by simpa using hs, hab.right.fits, fun g hg => ?_⟩,
    hab.wall⟩
  simp only [List.mem_append, List.mem_cons] at hg
  rcases hg with ((hg | hg) | hg) | hg
  · exact hab.right.first g (by simp [(List.rdropWhile_prefix _ P).subset hg])
  · exact hNb g hg
  · exact hab.right.first g (by simp [(List.dropWhile_sublist _).subset hg])
  · exact hab.right.first g (by simp [hg])

/-- An answer between two targets leaves the walls on both sides of it. -/
theorem Walled.answer_between (hax : Walled a x gs) (hxb : Walled x b gs)
    (hx : TargetAt x gs P k Q) (hNb : ∀ g ∈ N, b.fits g = false) : Walled a b (replaced P N Q) := by
  obtain ⟨A, t, M, k', C, hax⟩ := hax
  obtain ⟨X, k₁, M', t', C', hxb⟩ := hxb
  obtain ⟨rfl, rfl, rfl⟩ := hax.right.unique hxb.left
  obtain ⟨rfl, rfl, rfl⟩ := hx.unique hax.right
  have hleft := hax.answer_right N
  have hright := hxb.answer_left hNb
  rw [hxb.wall.dropWhile_append] at hleft
  rw [hax.wall.rdropWhile_middle] at hright
  refine ⟨A, t, M.rdropWhile Group.isMergeable ++ N ++ M'.dropWhile Group.isMergeable, t', C',
    by simpa using hleft, by simpa using hright, ?_⟩
  exact (hax.wall.rdropWhile.append_right N).append_right _

/-- A wall stands after any answer whose target has walls on its sides. -/
theorem Walled.answer (h : Walled a b gs) (ha : Walled x a gs ∨ Walled a x gs)
    (hb : Walled x b gs ∨ Walled b x gs) (hx : TargetAt x gs P k Q)
    (hNa : ∀ g ∈ N, a.fits g = false) (hNb : ∀ g ∈ N, b.fits g = false) :
    Walled a b (replaced P N Q) := by
  rcases hb with hb | hb
  · rcases ha with ha | ha
    · exact h.answer_before ha hx hNa hNb
    · exact ha.answer_between hb hx hNb
  · exact h.answer_after hb hx N

theorem WalledAt.unselect (h : WalledAt r r' gs A t M t' C) :
    WalledAt r r' (gs.map Group.unselect) (A.map Group.unselect) t.unselect
      (M.map Group.unselect) t'.unselect (C.map Group.unselect) := by
  obtain ⟨g, hg, hm⟩ := h.wall
  refine ⟨?_, ?_, g.unselect, List.mem_map_of_mem hg, hm⟩
  · simpa using h.left.map (f := Group.unselect) fun _ => rfl
  · simpa using h.right.map (f := Group.unselect) fun _ => rfl

theorem Walled.unselect (h : Walled r r' gs) : Walled r r' (gs.map Group.unselect) := by
  obtain ⟨A, t, M, t', C, h⟩ := h
  exact ⟨_, _, _, _, _, h.unselect⟩

theorem Request.not_fits_of_chunk (h : g.chunk ≠ r.chunk) : r.fits g = false := by
  simp [Request.fits, h]

/-- Where all selections are taken back in the end, those around the new groups may go before. -/
theorem unselect_replaced (A N C : List Group) :
    (replaced (A.map Group.unselect) N (C.map Group.unselect)).map Group.unselect =
      (replaced A N C).map Group.unselect := by
  have hu : Group.unselect ∘ Group.unselect = Group.unselect := by
    funext g
    simp [Group.unselect, Function.comp_def]
  simp only [map_replaced (f := Group.unselect) fun _ => rfl, List.map_map, hu]

/-- A request and what was fetched for it. -/
abbrev Reply := Request × FetchResult

/-- Two replies with a wall between their targets, each without groups of the other's chunk. -/
structure Apart (gs : List Group) (p q : Reply) : Prop where
  walled : Walled p.1 q.1 gs ∨ Walled q.1 p.1 gs
  left : ∀ f, p.2 = .ok f → ∀ g ∈ f.groups, g.chunk ≠ q.1.chunk
  right : ∀ f, q.2 = .ok f → ∀ g ∈ f.groups, g.chunk ≠ p.1.chunk

theorem Apart.symm {p q : Reply} (h : Apart gs p q) : Apart gs q p :=
  ⟨h.walled.symm, h.right, h.left⟩

theorem not_fits_settled {f : Fragment} (e : Extent) (h : ∀ g ∈ f.groups, g.chunk ≠ r.chunk) :
    ∀ g ∈ settled e f.groups, r.fits g = false := by
  intro g hg
  obtain ⟨k, hk, v, y, rfl, -⟩ := mem_settled hg
  exact Request.not_fits_of_chunk (h k hk)

namespace Session

variable {s : Session} {p q u : Reply}

/-- The session after a reply. -/
def receive (s : Session) (p : Reply) : Session := s.perform (.answer p.1 p.2)

def receiveAll (s : Session) (ps : List Reply) : Session := ps.foldl receive s

/-- What comes of a reply: events, or the reason why it is refused. -/
def outcome (s : Session) (p : Reply) : Except ExpansionError (List Event) :=
  (s.applyFragment p.1 p.2).map Prod.snd

/-- What comes of each of several replies, one after another. -/
def outcomes (s : Session) : List Reply → List (Request × Except ExpansionError (List Event))
  | [] => []
  | p :: ps => (p.1, s.outcome p) :: (s.receive p).outcomes ps

/-- A reply whose target the table has. -/
def Awaits (s : Session) (p : Reply) : Prop := ∃ A t C, TargetAt p.1 s.table.groups A t C

/-- A reply with something to work in. -/
def Brings (p : Reply) (f : Fragment) : Prop := p.2 = .ok f ∧ f.groups ≠ []

theorem receive_brings {f : Fragment} (hf : Brings p f) (h : TargetAt p.1 s.table.groups A t C) :
    s.receive p = s.answered p.1 f A C := by
  rw [receive, hf.1]
  exact perform_answer h hf.2

theorem receive_refused (h : ∀ f, ¬ Brings p f) (s : Session) : s.receive p = s := by
  obtain he | ⟨f, A, g, C, hr, hf, -, -⟩ := s.perform_answer_cases p.1 p.2
  · exact he
  · exact absurd ⟨hr, hf⟩ (h f)

/-- What comes of a reply to which the table has a target, whatever else the table has. -/
def verdict (p : Reply) : Except ExpansionError (List Event) :=
  match p.2 with
  | .error cause => .error (.fetch p.1.chunk cause)
  | .ok f => if f.groups = [] then .error (.emptyFragment p.1.chunk) else .ok [.expansionChanged]

theorem outcome_eq_verdict (h : s.Awaits p) : s.outcome p = verdict p := by
  obtain ⟨A, t, C, ht⟩ := h
  obtain ⟨r, result⟩ := p
  cases result with
  | error cause => rfl
  | ok f =>
    by_cases hf : f.groups = []
    · rw [outcome, applyFragment_empty ht hf, verdict]
      simp [hf, Except.map]
    · rw [outcome, applyFragment_ok ht hf, verdict]
      simp [hf, Except.map]

/-- Two replies with a wall between them commute: where both are worked in, each still finds its
target after the other, and the groups between the targets are trimmed at both ends. -/
theorem receive_comm_of_walled (hw : Walled p.1 q.1 s.table.groups)
    (hp : ∀ f, p.2 = .ok f → ∀ g ∈ f.groups, g.chunk ≠ q.1.chunk) :
    (s.receive p).receive q = (s.receive q).receive p := by
  by_cases hbp : ∃ f, Brings p f
  · by_cases hbq : ∃ f, Brings q f
    · obtain ⟨f, hf⟩ := hbp
      obtain ⟨f', hf'⟩ := hbq
      obtain ⟨A, t, M, t', C, h⟩ := hw
      have hleft := h.answer_left (not_fits_settled p.1.extent (hp f hf.1))
      have hright := h.answer_right (settled q.1.extent f'.groups)
      rw [receive_brings hf h.left, receive_brings hf' h.right,
        receive_brings hf' (s := s.answered p.1 f A (M ++ t' :: C))
          (hleft.map (f := Group.unselect) fun _ => rfl),
        receive_brings hf (s := s.answered q.1 f' (A ++ t :: M) C)
          (hright.map (f := Group.unselect) fun _ => rfl)]
      simp only [answered, unselect_replaced, h.replaced_comm]
    · rw [not_exists] at hbq
      rw [receive_refused hbq, receive_refused hbq]
  · rw [not_exists] at hbp
    rw [receive_refused hbp, receive_refused hbp]

theorem receive_comm (h : Apart s.table.groups p q) :
    (s.receive p).receive q = (s.receive q).receive p := by
  rcases h.walled with hw | hw
  · exact receive_comm_of_walled hw h.left
  · exact (receive_comm_of_walled hw h.right).symm

/-- Replies whose targets the table has, with walls between any two of them. -/
structure AllApart (s : Session) (ps : List Reply) : Prop where
  awaits : ∀ p ∈ ps, s.Awaits p
  apart : ps.Pairwise (Apart s.table.groups)

/-- A target that an answer does not reach is found after it. -/
theorem awaits_receive (h : Apart s.table.groups u p) : (s.receive u).Awaits p := by
  by_cases hbu : ∃ f, Brings u f
  · obtain ⟨f, hf⟩ := hbu
    rcases h.walled with ⟨A, t, M, t', C, hw⟩ | ⟨A, t, M, t', C, hw⟩
    · rw [receive_brings hf hw.left]
      have hat := hw.answer_left (not_fits_settled u.1.extent (h.left f hf.1))
      exact ⟨_, _, _, hat.map (f := Group.unselect) fun _ => rfl⟩
    · rw [receive_brings hf hw.right]
      have hat := hw.answer_right (settled u.1.extent f.groups)
      exact ⟨_, _, _, hat.map (f := Group.unselect) fun _ => rfl⟩
  · rw [receive_refused (not_exists.mp hbu)]
    rcases h.walled with ⟨A, t, M, t', C, hw⟩ | ⟨A, t, M, t', C, hw⟩
    · exact ⟨_, _, _, hw.right⟩
    · exact ⟨_, _, _, hw.left⟩

theorem walled_receive (hu : s.Awaits u) (hp : Apart s.table.groups u p)
    (hq : Apart s.table.groups u q) (h : Walled p.1 q.1 s.table.groups) :
    Walled p.1 q.1 (s.receive u).table.groups := by
  by_cases hbu : ∃ f, Brings u f
  · obtain ⟨f, hf⟩ := hbu
    obtain ⟨A, t, C, ht⟩ := hu
    rw [receive_brings hf ht]
    have hw := h.answer hp.walled hq.walled ht
      (not_fits_settled u.1.extent (hp.left f hf.1)) (not_fits_settled u.1.extent (hq.left f hf.1))
    exact hw.unselect
  · rwa [receive_refused (not_exists.mp hbu)]

theorem apart_receive (hu : s.Awaits u) (hp : Apart s.table.groups u p)
    (hq : Apart s.table.groups u q) (h : Apart s.table.groups p q) :
    Apart (s.receive u).table.groups p q :=
  ⟨h.walled.imp (walled_receive hu hp hq) (walled_receive hu hq hp), h.left, h.right⟩

theorem allApart_receive {ps : List Reply} (h : s.AllApart (p :: ps)) :
    (s.receive p).AllApart ps := by
  obtain ⟨hp, hps⟩ := List.pairwise_cons.mp h.apart
  refine ⟨fun q hq => awaits_receive (hp q hq), hps.imp_of_mem fun {q u} hq hu hqu => ?_⟩
  exact apart_receive (h.awaits p List.mem_cons_self) (hp q hq) (hp u hu) hqu

theorem AllApart.perm {ps qs : List Reply} (h : s.AllApart ps) (hp : ps.Perm qs) :
    s.AllApart qs :=
  ⟨fun q hq => h.awaits q (hp.mem_iff.mpr hq),
    (hp.pairwise_iff fun hab => hab.symm).mp h.apart⟩

theorem receiveAll_perm {ps qs : List Reply} (h : s.AllApart ps) (hp : ps.Perm qs) :
    s.receiveAll ps = s.receiveAll qs := by
  induction hp generalizing s with
  | nil => rfl
  | cons p _ ih => exact ih (allApart_receive h)
  | swap p q ps =>
    have hpq := (List.pairwise_cons.mp h.apart).1 p List.mem_cons_self
    exact congrArg (fun s => s.receiveAll ps) (receive_comm hpq)
  | trans hp _ ih ih' => exact (ih h).trans (ih' (h.perm hp))

theorem outcomes_eq {ps : List Reply} (h : s.AllApart ps) :
    s.outcomes ps = ps.map fun p => (p.1, verdict p) := by
  induction ps generalizing s with
  | nil => rfl
  | cons p ps ih =>
    rw [outcomes, List.map_cons, outcome_eq_verdict (h.awaits p List.mem_cons_self),
      ih (allApart_receive h)]

/-- Replies to different chunks, each with a target, and between any two targets a group that does
not give way. No fragment has groups of a chunk that another reply is about. -/
structure Independent (s : Session) (ps : List Reply) : Prop where
  chunks : (ps.map fun p => p.1.chunk).Nodup
  targets : ∀ p ∈ ps, (s.table.target? p.1).isSome
  walls : ∀ p ∈ ps, ∀ q ∈ ps, ∀ i j, s.table.target? p.1 = some i → s.table.target? q.1 = some j →
    i < j → ∃ k g, i < k ∧ k < j ∧ s.table.groups[k]? = some g ∧ g.isMergeable = false
  fragments : ∀ p ∈ ps, ∀ q ∈ ps, p.1.chunk ≠ q.1.chunk → ∀ f, p.2 = .ok f →
    ∀ g ∈ f.groups, g.chunk ≠ q.1.chunk

theorem walled_of_between (ht : TargetAt r gs A t C) (ht' : TargetAt r' gs B t' L)
    {n : Nat} (hn : A.length < n) (hn' : n < B.length) (hg : gs[n]? = some g)
    (hm : g.isMergeable = false) : Walled r r' gs := by
  have heq : A ++ t :: C = B ++ t' :: L := ht.split.symm.trans ht'.split
  obtain ⟨Y, rfl, hY⟩ | ⟨Y, -, rfl⟩ := split_cases heq
  · cases Y with
    | nil => simp at hn'; omega
    | cons y M =>
      rw [List.cons_append] at hY
      obtain ⟨rfl, rfl⟩ := List.cons.inj hY
      refine ⟨A, t, M, t', L, ht, ht', g, ?_, hm⟩
      obtain ⟨i, rfl⟩ : ∃ i, n = A.length + (i + 1) := ⟨n - A.length - 1, by omega⟩
      have hi : i < M.length := by simp at hn'; omega
      rw [ht.split, List.getElem?_append_right (by omega), Nat.add_sub_cancel_left,
        List.getElem?_cons_succ, List.getElem?_append_left hi] at hg
      exact List.mem_of_getElem? hg
  · simp at hn
    omega

theorem Independent.awaits {ps : List Reply} (h : s.Independent ps) (hp : p ∈ ps) :
    ∃ i A t C, s.table.target? p.1 = some i ∧ TargetAt p.1 s.table.groups A t C ∧ A.length = i := by
  obtain ⟨i, hi⟩ := Option.isSome_iff_exists.mp (h.targets p hp)
  obtain ⟨A, t, C, ht, hl⟩ := exists_targetAt (s.table.target?_eq p.1 ▸ hi)
  exact ⟨i, A, t, C, hi, ht, hl⟩

theorem Independent.allApart {ps : List Reply} (h : s.Independent ps) : s.AllApart ps := by
  refine ⟨fun p hp => ?_, ?_⟩
  · obtain ⟨i, A, t, C, -, ht, -⟩ := h.awaits hp
    exact ⟨A, t, C, ht⟩
  · have hne := List.pairwise_map.mp h.chunks
    refine hne.imp_of_mem fun {p q} hp hq hpq => ⟨?_, h.fragments p hp q hq hpq,
      h.fragments q hq p hp hpq.symm⟩
    obtain ⟨i, A, t, C, hi, ht, rfl⟩ := h.awaits hp
    obtain ⟨j, B, t', L, hj, ht', rfl⟩ := h.awaits hq
    rcases Nat.lt_trichotomy A.length B.length with hlt | heq | hlt
    · obtain ⟨n, g, hn, hn', hg, hm⟩ := h.walls p hp q hq _ _ hi hj hlt
      exact Or.inl (walled_of_between ht ht' hn hn' hg hm)
    · -- one group cannot be of two chunks
      have hsame := (List.append_inj (ht.split.symm.trans ht'.split) heq).2
      rw [← Request.chunk_of_fits ht.fits, ← Request.chunk_of_fits ht'.fits,
        (List.cons.inj hsame).1] at hpq
      exact absurd rfl hpq
    · obtain ⟨n, g, hn, hn', hg, hm⟩ := h.walls q hq p hp _ _ hj hi hlt
      exact Or.inr (walled_of_between ht' ht hn hn' hg hm)

/-- Replies that are independent end in the same session in whatever order they come, and of each
of them comes the same. -/
theorem receiveAll_any_order {ps qs : List Reply} (h : s.Independent ps) (hp : ps.Perm qs) :
    s.receiveAll qs = s.receiveAll ps ∧ (s.outcomes qs).Perm (s.outcomes ps) := by
  have hps := h.allApart
  refine ⟨(receiveAll_perm hps hp).symm, ?_⟩
  rw [outcomes_eq hps, outcomes_eq (hps.perm hp)]
  exact hp.symm.map _

/-- A gap is shown and a chunk is hidden, with a change between them, the one before the other. -/
theorem receiveAll_show_and_hide :
    let s := new (.new 0 0 0) (.ofGroups
      [.placeholder 0 2 [.whole], .new 1 .delete [.bare 3], .shown 2 [.bare 4],
        .shown 2 [.bare 5]])
    let shown : Reply := (⟨1, 0, .whole⟩, .ok ⟨[.shown 0 [.bare 1, .bare 2]]⟩)
    let hidden : Reply := (⟨2, 2, .hidden⟩, .ok ⟨[.placeholder 2 2 [.whole]]⟩)
    s.Independent [shown, hidden] ∧ [shown, hidden].Perm [hidden, shown] ∧
      s.receiveAll [hidden, shown] = s.receiveAll [shown, hidden] ∧
      (s.outcomes [hidden, shown]).Perm (s.outcomes [shown, hidden]) := by
  intro s shown hidden
  have hs : s.table.target? shown.1 = some 0 := by decide
  have hh : s.table.target? hidden.1 = some 2 := by decide
  have h : s.Independent [shown, hidden] := by
    refine ⟨by decide, by decide, fun p hp q hq i j hi hj hlt => ?_, fun p hp q hq hpq f hf => ?_⟩
    · simp only [List.mem_cons, List.not_mem_nil, or_false] at hp hq
      rcases hp with rfl | rfl
      · obtain rfl := Option.some.inj (hs.symm.trans hi)
        rcases hq with rfl | rfl
        · obtain rfl := Option.some.inj (hs.symm.trans hj)
          exact absurd hlt (by decide)
        · obtain rfl := Option.some.inj (hh.symm.trans hj)
          exact ⟨1, _, by decide, by decide, rfl, rfl⟩
      · obtain rfl := Option.some.inj (hh.symm.trans hi)
        rcases hq with rfl | rfl
        · obtain rfl := Option.some.inj (hs.symm.trans hj)
          exact absurd hlt (by decide)
        · obtain rfl := Option.some.inj (hh.symm.trans hj)
          exact absurd hlt (by decide)
    · simp only [List.mem_cons, List.not_mem_nil, or_false] at hp hq
      rcases hp with rfl | rfl <;> rcases hq with rfl | rfl
      · exact absurd rfl hpq
      · obtain rfl := Except.ok.inj hf
        decide
      · obtain rfl := Except.ok.inj hf
        decide
      · exact absurd rfl hpq
  have hp : [shown, hidden].Perm [hidden, shown] := by decide
  exact ⟨h, hp, receiveAll_any_order h hp⟩

end Session

end Marginalia.Diff
