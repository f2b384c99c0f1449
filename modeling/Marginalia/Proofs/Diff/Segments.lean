import Marginalia.Proofs.Diff.Gaps
import Marginalia.Proofs.Text.Runs

/-! The segments of a hunk. Its lines without the remarks fall into whole runs of one kind, and there
is one way to put them into segments: a run of context by itself, a run of removed lines with the
added ones directly behind it, and added lines by themselves where no removed line is before them.
The groups of a hunk show these segments, one each. -/

namespace Marginalia.Diff

variable {before after ls removed added : List HunkLine} {k : LineKind}

/-- All lines of a kind that stand together in a place. Lines of the kind are neither before them nor
behind them, and there may be none at all. -/
structure WholeRun (k : LineKind) (before run after : List HunkLine) : Prop where
  kind : ∀ l ∈ run, l.kind = k
  first : ∀ l, before.getLast? = some l → l.kind ≠ k
  last : ∀ l, after.head? = some l → l.kind ≠ k

namespace WholeRun

variable {u : List HunkLine}

theorem run (h : WholeRun k before u after) : ∀ l ∈ u, Segment.isKind k l = true := by
  intro l hl
  simpa [Segment.isKind] using h.kind l hl

theorem stops (h : WholeRun k before u after) : Stops (Segment.isKind k) after := by
  intro l hl
  simpa [Segment.isKind] using h.last l hl

theorem ne_of_behind {k' : LineKind} {v : List HunkLine} (h : WholeRun k before u (v ++ after))
    (hne : v ≠ []) (hv : ∀ l ∈ v, l.kind = k') : k' ≠ k := by
  obtain ⟨l, v, rfl⟩ := List.exists_cons_of_ne_nil hne
  rw [← hv l List.mem_cons_self]
  exact h.last l rfl

theorem ne_of_before {k' : LineKind} {v : List HunkLine} (h : WholeRun k (before ++ v) u after)
    (hne : v ≠ []) (hv : ∀ l ∈ v, l.kind = k') : k' ≠ k := by
  have hlast : (before ++ v).getLast? = some (v.getLast hne) := by
    rw [List.getLast?_append_of_ne_nil before hne, List.getLast?_eq_some_getLast hne]
  rw [← hv _ (List.getLast_mem hne)]
  exact h.first _ hlast

end WholeRun

namespace Segment

variable {s s' : Segment} {ss ss' : List Segment}

/-- The lines of a segment, in order. -/
def lines : Segment → List HunkLine
  | .equal ls => ls
  | .change removed added => removed ++ added

/-- A segment in its place, between the lines before it and behind it. -/
inductive Stands (before after : List HunkLine) : Segment → Prop
  | equal {ls : List HunkLine} (hne : ls ≠ []) (hrun : WholeRun .context before ls after) :
      Stands before after (.equal ls)
  | change {removed added : List HunkLine} (hne : removed ++ added ≠ [])
      (hremoved : WholeRun .removed before removed (added ++ after))
      (hadded : WholeRun .added (before ++ removed) added after) :
      Stands before after (.change removed added)

/-- Segments one after another, each in its place behind the lines that are before all of them. -/
def InPlace (before : List HunkLine) : List Segment → Prop
  | [] => True
  | s :: ss => s.Stands before (ss.flatMap lines) ∧ InPlace (before ++ s.lines) ss

/-- A segmentation of lines: all of them in order, in segments that stand in their places. -/
structure Divides (ss : List Segment) (ls : List HunkLine) : Prop where
  lines : ss.flatMap Segment.lines = ls
  places : InPlace [] ss

/-- A segment that stands at the front is the first that lines are cut into. -/
theorem ofLines_lines (h : s.Stands before after) :
    ofLines (s.lines ++ after) = s :: ofLines after := by
  cases h with
  | equal hne hrun =>
    rename_i ls
    cases ls with
    | nil => exact absurd rfl hne
    | cons l ls =>
      have hk : l.kind = .context := hrun.kind l List.mem_cons_self
      have htail := (List.forall_mem_cons.mp hrun.run).2
      rw [lines, List.cons_append, ofLines]
      simp only [hk, takeWhile_run htail hrun.stops, dropWhile_run htail hrun.stops]
  | change hne hremoved hadded =>
    rename_i removed added
    cases removed with
    | cons l removed =>
      have hk : l.kind = .removed := hremoved.kind l List.mem_cons_self
      have htail := (List.forall_mem_cons.mp hremoved.run).2
      rw [lines, List.append_assoc, List.cons_append, ofLines]
      simp only [hk, takeWhile_run htail hremoved.stops, dropWhile_run htail hremoved.stops,
        takeWhile_run hadded.run hadded.stops, dropWhile_run hadded.run hadded.stops]
    | nil =>
      cases added with
      | nil => exact absurd rfl hne
      | cons l added =>
        have hk : l.kind = .added := hadded.kind l List.mem_cons_self
        have htail := (List.forall_mem_cons.mp hadded.run).2
        rw [lines, List.nil_append, List.cons_append, ofLines]
        simp only [hk, takeWhile_run htail hadded.stops, dropWhile_run htail hadded.stops]

theorem ofLines_of_inPlace (h : InPlace before ss) : ofLines (ss.flatMap lines) = ss := by
  induction ss generalizing before with
  | nil => rw [List.flatMap_nil, ofLines]
  | cons s ss ih =>
    obtain ⟨hs, hss⟩ := h
    rw [List.flatMap_cons, ofLines_lines hs, ih hss]

theorem lines_ofLines (ls : List HunkLine) : (ofLines ls).flatMap lines = ls := by
  fun_induction ofLines ls with
  | case1 => rfl
  | case2 l ls hk removed rest ih =>
    rw [List.flatMap_cons, ih, lines, List.append_assoc, List.takeWhile_append_dropWhile,
      List.cons_append, List.takeWhile_append_dropWhile]
  | case3 l ls hk ih =>
    rw [List.flatMap_cons, ih, lines, List.nil_append, List.cons_append,
      List.takeWhile_append_dropWhile]
  | case4 l ls hr ha ih =>
    rw [List.flatMap_cons, ih, lines, List.cons_append, List.takeWhile_append_dropWhile]

/-- Lines behind others that begin a segment of their own: the first of them is of another kind, and
not an added line behind a removed one. -/
def Parts (before after : List HunkLine) : Prop :=
  ∀ l m, before.getLast? = some l → after.head? = some m →
    l.kind ≠ m.kind ∧ (l.kind = .removed → m.kind ≠ .added)

theorem kind_of_getLast? {u : List HunkLine} (hne : u ≠ []) (hu : ∀ l ∈ u, l.kind = k)
    {l : HunkLine} (hl : (before ++ u).getLast? = some l) : l.kind = k := by
  rw [List.getLast?_append_of_ne_nil before hne] at hl
  exact hu l (List.mem_of_getLast? hl)

theorem kind_of_stops (h : Stops (isKind k) after) {l : HunkLine} (hl : after.head? = some l) :
    l.kind ≠ k := by
  simpa [isKind] using h l hl

theorem parts_of_run {u : List HunkLine} (hne : u ≠ []) (hu : ∀ l ∈ u, l.kind = k)
    (hstop : Stops (isKind k) after) (hadded : k = .removed → Stops (isKind .added) after) :
    Parts (before ++ u) after := by
  intro l m hl hm
  rw [kind_of_getLast? hne hu hl]
  exact ⟨(kind_of_stops hstop hm).symm, fun hr => kind_of_stops (hadded hr) hm⟩

/-- Lines of one kind that begin a segment are a whole run, if they go on as long as they can. -/
theorem Parts.wholeRun {u : List HunkLine} (h : Parts before (u ++ after)) (hne : u ≠ [])
    (hu : ∀ l ∈ u, l.kind = k) (hstop : Stops (isKind k) after) :
    WholeRun k before u after := by
  obtain ⟨l, u, rfl⟩ := List.exists_cons_of_ne_nil hne
  refine ⟨hu, fun m hm => ?_, fun m hm => kind_of_stops hstop hm⟩
  rw [← hu l List.mem_cons_self]
  exact (h m l hm rfl).1

section Change

variable (hrun : ∀ l ∈ removed, l.kind = .removed) (hadded : ∀ l ∈ added, l.kind = .added)
  (hend : Stops (isKind .added) after)

include hrun hadded hend

theorem stands_replace (hp : Parts before (removed ++ (added ++ after))) (hne : removed ≠ [])
    (hstop : Stops (isKind .removed) (added ++ after)) :
    (Segment.change removed added).Stands before after := by
  refine .change (List.append_ne_nil_of_left_ne_nil hne added) (hp.wholeRun hne hrun hstop)
    ⟨hadded, fun m hm => ?_, fun m hm => kind_of_stops hend hm⟩
  rw [kind_of_getLast? hne hrun hm]
  decide

theorem parts_replace (hne : removed ≠ []) (hstop : Stops (isKind .removed) (added ++ after)) :
    Parts (before ++ lines (.change removed added)) after := by
  by_cases hnil : added = []
  · subst hnil
    rw [lines, List.append_nil]
    exact parts_of_run hne hrun hstop fun _ => hend
  · rw [lines, ← List.append_assoc]
    exact parts_of_run hnil hadded hend (by simp)

end Change

theorem stands_insert (hp : Parts before (added ++ after)) (hne : added ≠ [])
    (hadded : ∀ l ∈ added, l.kind = .added) (hend : Stops (isKind .added) after) :
    (Segment.change [] added).Stands before after := by
  have hrun := hp.wholeRun hne hadded hend
  obtain ⟨l, added, rfl⟩ := List.exists_cons_of_ne_nil hne
  have hl : l.kind = .added := hadded l List.mem_cons_self
  refine .change hne ⟨by simp, fun m hm he => (hp m l hm rfl).2 he hl, fun m hm => ?_⟩ ?_
  · obtain rfl : l = m := by simpa using hm
    simp [hl]
  · rwa [List.append_nil]

theorem forall_mem_dropWhile {P : HunkLine → Prop} (h : ∀ l ∈ ls, P l) (p : HunkLine → Bool) :
    ∀ l ∈ ls.dropWhile p, P l :=
  fun l hl => h l ((List.dropWhile_sublist p).subset hl)

/-- Where lines are cut, each segment stands in its place. What carries the induction is that the
lines still to cut begin a segment of their own. -/
theorem inPlace_ofLines (h : ∀ l ∈ ls, l.kind ≠ .remark) :
    ∀ before, Parts before ls → InPlace before (ofLines ls) := by
  fun_induction ofLines ls with
  | case1 => exact fun _ _ => trivial
  | case2 l ls hk removed rest ih =>
    intro before hp
    have hrun := kind_of_mem_run hk ls
    have hadded : ∀ m ∈ rest.takeWhile (isKind .added), m.kind = .added :=
      fun m hm => kind_of_mem_takeWhile hm
    have hend := stops_dropWhile (isKind .added) rest
    have hrest : rest.takeWhile (isKind .added) ++ rest.dropWhile (isKind .added) = rest :=
      List.takeWhile_append_dropWhile
    have hls : l :: ls = (l :: removed) ++ rest := by
      rw [List.cons_append, List.takeWhile_append_dropWhile]
    have hstop : Stops (isKind .removed)
        (rest.takeWhile (isKind .added) ++ rest.dropWhile (isKind .added)) := by
      rw [hrest]
      exact stops_dropWhile _ ls
    rw [hls, ← hrest] at hp
    have hbelow : ∀ m ∈ rest, m.kind ≠ .remark :=
      forall_mem_dropWhile (List.forall_mem_cons.mp h).2 _
    refine ⟨?_, ih (forall_mem_dropWhile hbelow _) _ ?_⟩
    · rw [lines_ofLines]
      exact stands_replace hrun hadded hend hp (List.cons_ne_nil l removed) hstop
    · exact parts_replace hrun hadded hend (List.cons_ne_nil l removed) hstop
  | case3 l ls hk ih =>
    intro before hp
    have hrun := kind_of_mem_run hk ls
    have hend := stops_dropWhile (isKind .added) ls
    rw [← List.takeWhile_append_dropWhile (p := isKind .added) (l := ls), ← List.cons_append] at hp
    refine ⟨?_, ih (forall_mem_dropWhile (List.forall_mem_cons.mp h).2 _) _ ?_⟩
    · rw [lines_ofLines]
      exact stands_insert hp (List.cons_ne_nil l _) hrun hend
    · exact parts_of_run (List.cons_ne_nil l _) hrun hend (by simp)
  | case4 l ls hr ha ih =>
    intro before hp
    have hk : l.kind = .context := by
      have hl := h l List.mem_cons_self
      cases hkind : l.kind <;> simp_all
    rw [hk] at ih ⊢
    have hrun := kind_of_mem_run hk ls
    have hend := stops_dropWhile (isKind .context) ls
    rw [← List.takeWhile_append_dropWhile (p := isKind .context) (l := ls),
      ← List.cons_append] at hp
    refine ⟨?_, ih (forall_mem_dropWhile (List.forall_mem_cons.mp h).2 _) _ ?_⟩
    · rw [lines_ofLines]
      exact .equal (List.cons_ne_nil l _) (hp.wholeRun (List.cons_ne_nil l _) hrun hend)
    · exact parts_of_run (List.cons_ne_nil l _) hrun hend (by simp)

/-- There is one segmentation of lines without remarks, the one that they are cut into. -/
theorem divides_iff (h : ∀ l ∈ ls, l.kind ≠ .remark) : Divides ss ls ↔ ss = ofLines ls := by
  constructor
  · rintro ⟨rfl, hplaces⟩
    exact (ofLines_of_inPlace hplaces).symm
  · rintro rfl
    exact ⟨lines_ofLines ls, inPlace_ofLines h [] (by simp [Parts])⟩

/-- The kind of group that a segment is drawn as. -/
inductive HasKind : Segment → GroupKind → Prop
  | equal (ls : List HunkLine) : HasKind (.equal ls) .equal
  | delete {removed : List HunkLine} (hr : removed ≠ []) : HasKind (.change removed []) .delete
  | insert {added : List HunkLine} (ha : added ≠ []) : HasKind (.change [] added) .insert
  | replace {removed added : List HunkLine} (hr : removed ≠ []) (ha : added ≠ []) :
      HasKind (.change removed added) .replace

theorem hasKind_kindOf (h : s.Stands before after) : s.HasKind (Patch.kindOf s) := by
  cases h with
  | equal hne hrun => exact .equal _
  | @change removed added hne hremoved hadded =>
    cases removed with
    | nil => exact .insert hne
    | cons l removed =>
      cases added with
      | nil => exact .delete (List.cons_ne_nil l removed)
      | cons m added => exact .replace (List.cons_ne_nil l removed) (List.cons_ne_nil m added)

end Segment

/-- Kinds of groups that stand one directly after the other in a hunk. -/
structure GroupKind.Precedes (k k' : GroupKind) : Prop where
  equal : k = .equal → k' ≠ .equal
  delete : k = .delete → k' = .equal
  insert : k' = .insert → k = .equal

namespace Segment

variable {s s' : Segment} {ss : List Segment} {g : Group} {body : List Group}

theorem not_equal_equal {ls ls' : List HunkLine}
    (h : (Segment.equal ls).Stands before (lines (.equal ls') ++ after))
    (h' : (Segment.equal ls').Stands (before ++ ls) after) : False := by
  cases h with
  | equal _ hrun =>
    cases h' with
    | equal hne hrun' => exact hrun.ne_of_behind hne hrun'.kind rfl

/-- Behind removed lines without added ones there is no change. -/
theorem not_delete_change
    (h : (Segment.change removed []).Stands before (lines (.change ls added) ++ after))
    (h' : (Segment.change ls added).Stands (before ++ removed) after) : False := by
  cases h with
  | change _ hremoved hadded =>
    cases h' with
    | change hne hremoved' hadded' =>
      by_cases hls : ls = []
      · subst hls
        exact hadded.ne_of_behind hne hadded'.kind rfl
      · rw [lines, List.nil_append, List.append_assoc] at hremoved
        exact hremoved.ne_of_behind hls hremoved'.kind rfl

/-- Before added lines without removed ones there is no change. -/
theorem not_change_insert (h : (Segment.change removed ls).Stands before (added ++ after))
    (h' : (Segment.change [] added).Stands (before ++ (removed ++ ls)) after) : False := by
  cases h with
  | change hne hremoved hadded =>
    cases h' with
    | change hne' _ hadded' =>
      by_cases hls : ls = []
      · subst hls
        exact hadded.ne_of_behind hne' hadded'.kind rfl
      · rw [List.append_nil, ← List.append_assoc] at hadded'
        exact hadded'.ne_of_before hls hadded.kind rfl

theorem precedes {k k' : GroupKind} (h : s.Stands before (s'.lines ++ after))
    (h' : s'.Stands (before ++ s.lines) after) (hk : s.HasKind k) (hk' : s'.HasKind k') :
    k.Precedes k' := by
  refine ⟨?_, ?_, ?_⟩
  · rintro rfl rfl
    cases hk
    cases hk'
    exact not_equal_equal h h'
  · rintro rfl
    cases hk
    rw [lines, List.append_nil] at h'
    cases hk' with
    | equal => rfl
    | delete => exact (not_delete_change h h').elim
    | insert => exact (not_delete_change h h').elim
    | replace => exact (not_delete_change h h').elim
  · rintro rfl
    cases hk'
    cases hk with
    | equal => rfl
    | delete => exact (not_change_insert h h').elim
    | insert => exact (not_change_insert h h').elim
    | replace => exact (not_change_insert h h').elim

/-- The lines of a segment that are in the file on a side. -/
def on : Segment → Side → List HunkLine
  | .equal ls, _ => ls
  | .change removed added, side => side.of (removed, added)

/-- The group that a segment is drawn as. A row shows the lines that have its place in the segment,
on either side. -/
structure DrawnBy (s : Segment) (g : Group) : Prop where
  kind : s.HasKind g.kind
  filled : g.rows ≠ []
  count : g.rows.length = max (s.on .left).length (s.on .right).length
  sides : ∀ (i : Nat) (r : Row) (side : Side), g.rows[i]? = some r →
    (r.shows side = true ↔ i < (s.on side).length)
  lines : ∀ (i : Nat) (r : Row) (side : Side) (l : HunkLine), g.rows[i]? = some r →
    (s.on side)[i]? = some l → ((r.number? side).map UInt32.toNat, r.text? side) = l.shown side

theorem length_sideBySide {α : Type} (as bs : List α) :
    (sideBySide as bs).length = max as.length bs.length := by
  fun_induction sideBySide as bs with
  | case1 bs => simp
  | case2 as _ => simp
  | case3 a as b bs ih => simp only [List.length_cons, ih]; omega

theorem getElem?_sideBySide {α : Type} (side : Side) (as bs : List α) (i : Nat) :
    (sideBySide as bs)[i]?.bind side.of = (side.of (as, bs))[i]? := by
  fun_induction sideBySide as bs generalizing i with
  | case1 bs => cases side <;> simp [Side.of, Option.bind_map, Function.comp_def]
  | case2 as _ => cases side <;> simp [Side.of, Option.bind_map, Function.comp_def]
  | case3 a as b bs ih =>
    cases i with
    | zero => cases side <;> rfl
    | succ i =>
      rw [List.getElem?_cons_succ, ih]
      cases side <;> rfl

theorem length_rows (s : Segment) :
    s.rows.length = max (s.on .left).length (s.on .right).length := by
  cases s with
  | equal ls => simp [rows, on]
  | change removed added => exact length_sideBySide removed added

theorem getElem?_rows (s : Segment) (side : Side) (i : Nat) :
    s.rows[i]?.bind side.of = (s.on side)[i]? := by
  cases s with
  | equal ls => cases side <;> simp [rows, on, Side.of, Option.bind_map, Function.comp_def]
  | change removed added => exact getElem?_sideBySide side removed added i

theorem ShownBy.row (h : s.ShownBy g) {i : Nat} {r : Row} (hr : g.rows[i]? = some r) :
    ∃ p, r.Pairs p ∧ ∀ side, side.of p = (s.on side)[i]? := by
  obtain ⟨hi, rfl⟩ := List.getElem?_eq_some_iff.mp hr
  have his : i < s.rows.length := by rwa [h.rows.length_eq]
  refine ⟨s.rows[i], h.rows.get his hi, fun side => ?_⟩
  rw [← getElem?_rows, List.getElem?_eq_getElem his]
  rfl

theorem drawnBy (hs : s.HasKind (Patch.kindOf s)) (hne : s.rows ≠ []) (h : s.ShownBy g) :
    s.DrawnBy g := by
  have hlength := h.rows.length_eq
  refine ⟨h.kind ▸ hs, ?_, ?_, ?_, ?_⟩
  · intro hnil
    rw [hnil, List.length_nil, List.length_eq_zero_iff] at hlength
    exact hne hlength
  · rw [← hlength, length_rows]
  · intro i r side hr
    obtain ⟨p, hp, hside⟩ := h.row hr
    have hline := hside side
    cases hl : side.of p with
    | none =>
      rw [hl] at hline
      have hle : (s.on side).length ≤ i := List.getElem?_eq_none_iff.mp hline.symm
      simp [hp.shows_of_none hl, hle]
    | some l =>
      rw [hl] at hline
      obtain ⟨hlt, -⟩ := List.getElem?_eq_some_iff.mp hline.symm
      simp [(hp.shown hl).1, hlt]
  · intro i r side l hr hl
    obtain ⟨p, hp, hside⟩ := h.row hr
    exact (hp.shown ((hside side).trans hl)).2

theorem chain_of_inPlace (h : InPlace before ss) (hd : List.Forall₂ DrawnBy ss body) :
    body.IsChain fun g g' => g.kind.Precedes g'.kind := by
  induction hd generalizing before with
  | nil => exact .nil
  | cons hs htail ih =>
    obtain ⟨hstands, hplaces⟩ := h
    have hchain := ih hplaces
    cases htail with
    | nil => exact .singleton _
    | cons hs' =>
      rw [List.flatMap_cons] at hstands
      exact .cons_cons (precedes hstands hplaces.1 hs.kind hs'.kind) hchain

theorem drawn_of_inPlace (h : InPlace before ss) (hne : ∀ s ∈ ss, s.rows ≠ [])
    (hs : List.Forall₂ ShownBy ss body) : List.Forall₂ DrawnBy ss body := by
  induction hs generalizing before with
  | nil => exact .nil
  | @cons s g ss body hshown htail ih =>
    obtain ⟨hstands, hplaces⟩ := h
    have hrows := List.forall_mem_cons.mp hne
    exact .cons (drawnBy (hasKind_kindOf hstands) hrows.1 hshown) (ih hplaces hrows.2)

end Segment

/-- What the rows of a group show, by its kind. -/
structure Group.Sided (g : Group) : Prop where
  equal : g.kind = .equal → ∀ r ∈ g.rows, ∃ text, ∀ side, r.text? side = some text
  delete : g.kind = .delete → ∀ r ∈ g.rows, r.shows .left = true ∧ r.shows .right = false
  insert : g.kind = .insert → ∀ r ∈ g.rows, r.shows .left = false ∧ r.shows .right = true

theorem Segment.DrawnBy.exists_row {s : Segment} {g : Group} {r : Row} (h : s.DrawnBy g)
    (hr : r ∈ g.rows) :
    ∃ i, g.rows[i]? = some r ∧ i < max (s.on .left).length (s.on .right).length := by
  obtain ⟨i, hi, rfl⟩ := List.mem_iff_getElem.mp hr
  rw [← h.count]
  exact ⟨i, List.getElem?_eq_getElem hi, hi⟩

theorem Segment.DrawnBy.sided {s : Segment} {g : Group} (h : s.DrawnBy g) : g.Sided := by
  have hkind := h.kind
  refine ⟨fun hk r hr => ?_, fun hk r hr => ?_, fun hk r hr => ?_⟩ <;> rw [hk] at hkind
  · cases hkind with
    | equal ls =>
      obtain ⟨i, hrow, hi⟩ := h.exists_row hr
      have hls : i < ls.length := by simpa [on] using hi
      have hline : ls[i]? = some ls[i] := List.getElem?_eq_getElem hls
      refine ⟨Patch.lineText ls[i], fun side => ?_⟩
      rw [lineText_eq]
      exact congrArg Prod.snd (h.lines i r side ls[i] hrow hline)
  · cases hkind with
    | @delete removed hne =>
      obtain ⟨i, hrow, hi⟩ := h.exists_row hr
      have hremoved : i < removed.length := by simpa [on, Side.of] using hi
      refine ⟨(h.sides i r .left hrow).mpr hremoved, Bool.eq_false_iff.mpr fun hright => ?_⟩
      exact absurd ((h.sides i r .right hrow).mp hright) (Nat.not_lt_zero i)
  · cases hkind with
    | @insert added hne =>
      obtain ⟨i, hrow, hi⟩ := h.exists_row hr
      have hadded : i < added.length := by simpa [on, Side.of] using hi
      refine ⟨Bool.eq_false_iff.mpr fun hleft => ?_, (h.sides i r .right hrow).mpr hadded⟩
      exact absurd ((h.sides i r .left hrow).mp hleft) (Nat.not_lt_zero i)

/-- How the groups of a hunk stand for its lines. The lines without the remarks have one
segmentation, and each group is drawn from one segment. -/
structure Hunk.SegmentedBy (h : Hunk) (body : List Group) : Prop where
  unique : ∃! ss, Segment.Divides ss (h.lines.filter (·.kind ≠ .remark))
  drawn : ∀ ss, Segment.Divides ss (h.lines.filter (·.kind ≠ .remark)) →
    List.Forall₂ Segment.DrawnBy ss body
  content : ∀ g ∈ body, ¬ g.isPlaceholder = true
  sided : ∀ g ∈ body, g.Sided
  neighbours : body.IsChain fun g g' => g.kind.Precedes g'.kind

theorem segmentedBy_of_segments {h : Hunk} {body : List Group}
    (hbody : List.Forall₂ Segment.ShownBy h.segments body) : h.SegmentedBy body := by
  have hkinds : ∀ l ∈ h.lines.filter (·.kind ≠ .remark), l.kind ≠ .remark := fun l hl => by
    simpa using (List.mem_filter.mp hl).2
  have hdivides : Segment.Divides h.segments _ := (Segment.divides_iff hkinds).mpr rfl
  have hrows : ∀ s ∈ h.segments, s.rows ≠ [] := fun s hs => Segment.rows_ne_nil hs
  have hdrawn := Segment.drawn_of_inPlace hdivides.places hrows hbody
  refine ⟨⟨h.segments, hdivides, fun ss hss => (Segment.divides_iff hkinds).mp hss⟩, ?_, ?_, ?_, ?_⟩
  · intro ss hss
    rwa [(Segment.divides_iff hkinds).mp hss]
  · exact not_isPlaceholder_of_segments hbody
  · have hsided := hdrawn.flip.imp fun g s hs => And.intro hs.sided hs
    exact ((List.forall₂_and_left _ _).mp hsided).1
  · exact Segment.chain_of_inPlace hdivides.places hdrawn

namespace Patch.Builder

/-- A hunk adds its gap to a table, and then a group for each segment of its lines. -/
theorem segmentedBy_pushHunk {b b' : Builder} {context : UInt32} {h : Hunk}
    (hb : b.pushHunk context h = .ok b') :
    ∃ gap body, b'.groups = b.groups ++ (gap ++ body) ∧
      Hides (max h.oldStart 1 - b.nextOld) gap ∧ h.SegmentedBy body := by
  obtain ⟨gap, body, hgroups, hgap, hbody, -⟩ := groups_pushHunk hb
  exact ⟨gap, body, hgroups, hgap, segmentedBy_of_segments hbody⟩

/-- Remarks behind each line of a change and within context. -/
theorem segmentedBy_pushHunk_remarks :
    let h : Hunk := ⟨1, 6, 1, 5, [], [⟨.context, ['a'], some 1, some 1⟩,
      ⟨.removed, ['b'], some 2, none⟩, ⟨.removed, ['c'], some 3, none⟩, ⟨.remark, [], none, none⟩,
      ⟨.added, ['d'], none, some 2⟩, ⟨.remark, [], none, none⟩, ⟨.removed, ['e'], some 4, none⟩,
      ⟨.context, ['f'], some 5, some 3⟩, ⟨.remark, [], none, none⟩,
      ⟨.context, ['g'], some 6, some 4⟩, ⟨.added, ['h'], none, some 5⟩]⟩
    ∃ b, start.pushHunk 3 h = .ok b ∧ h.SegmentedBy b.groups ∧
      b.groups.map (fun g => (g.kind, g.rows.length)) =
        [(.equal, 1), (.replace, 2), (.delete, 1), (.equal, 2), (.insert, 1)] := by
  intro h
  obtain ⟨b, hb⟩ := exists_eq_ok_of_isOk
    (show (start.pushHunk 3 h).isOk = true by decide +kernel)
  obtain ⟨gap, body, hgroups, hgap, hbody⟩ := segmentedBy_pushHunk hb
  have hnil : gap = [] := by
    cases hgap with
    | nothing => rfl
    | lines _ _ _ hpos => exact absurd hpos (by decide)
  have hgroups' : b.groups = body := by rw [hgroups, hnil]; rfl
  have hdrawn : (start.pushHunk 3 h).map
      (fun b => b.groups.map fun g => (g.kind, g.rows.length)) =
        .ok [(.equal, 1), (.replace, 2), (.delete, 1), (.equal, 2), (.insert, 1)] := by
    decide +kernel
  rw [hb] at hdrawn
  exact ⟨b, hb, hgroups'.symm ▸ hbody, Except.ok.inj hdrawn⟩

end Patch.Builder

end Marginalia.Diff
