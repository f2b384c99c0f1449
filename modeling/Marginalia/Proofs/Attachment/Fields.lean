import Marginalia.Attachment.Reader
import Marginalia.Proofs.Json.Members

/-! Anchors kept as fields. An anchor is kept under the names of its medium and nothing else, what
is kept is read back, and a reader looks at no other field. -/

namespace Marginalia.Attachment

open Json (lookup)

variable {m : Medium} {fs gs : Fields}

/-- Times are finite numbers where they are known. -/
def Anchor.HasFiniteTimes : Anchor → Prop
  | .audio a => (∀ x ∈ a.start, Decimal.isFinite x) ∧ ∀ x ∈ a.stop, Decimal.isFinite x
  | .text _ | .xml _ => True

/-! ### One field -/

theorem seconds?_ofOption {t : Option Float} (h : ∀ x ∈ t, Decimal.isFinite x) :
    seconds? (Json.ofOption .real t) = t := by
  cases t with
  | none => rfl
  | some x => exact Option.filter_some_pos (h x rfl)

/-- Whatever is kept as a time, no other than a finite one is read. -/
theorem isFinite_of_seconds? {j : Option Json} : ∀ x ∈ j.bind seconds?, Decimal.isFinite x := by
  intro x hx
  obtain ⟨j, -, hj⟩ := Option.bind_eq_some_iff.mp hx
  exact (Option.filter_eq_some_iff.mp hj).2

theorem lineNumber?_ofOption (n : Option UInt32) :
    lineNumber? (Json.ofOption Json.ofUInt32 n) = n := by
  cases n with
  | none => rfl
  | some n => exact Json.uint32?_ofUInt32 n

theorem choice?_name (o : Json.Origin) (mode : ViewMode) :
    o.choice? ViewMode.choices (.text mode.name) = some mode := by
  cases mode <;> rfl

/-! ### Fields of a view -/

theorem textAnchor_congr {o : Json.Origin}
    (h : ∀ k ∈ Anchor.fieldNames .text, lookup k fs = lookup k gs) :
    textAnchor m o fs = textAnchor m o gs := by
  have hfirst : lookup "beginLineNum" fs = lookup "beginLineNum" gs := h _ (by decide)
  have hlast : lookup "endLineNum" fs = lookup "endLineNum" gs := h _ (by decide)
  have hmode : lookup "viewMode" fs = lookup "viewMode" gs := h _ (by decide)
  rw [textAnchor, textAnchor, modeOf, modeOf, hfirst, hlast, hmode]

theorem textAnchor_textFields (m : Medium) (o : Json.Origin) (a : TextAnchor) :
    textAnchor m o (Anchor.textFields a) = .ok a := by
  have hfirst : lookup "beginLineNum" (Anchor.textFields a) =
      some (Json.ofOption Json.ofUInt32 a.first) := rfl
  have hlast : lookup "endLineNum" (Anchor.textFields a) =
      some (Json.ofOption Json.ofUInt32 a.last) := rfl
  have hmode : lookup "viewMode" (Anchor.textFields a) = some (.text a.mode.name) := rfl
  rw [textAnchor, modeOf, hfirst, hlast, hmode]
  simp [choice?_name, lineNumber?_ofOption, Except.map]

/-! ### Anchors -/

namespace Anchor

/-- A reader of anchors looks at the fields of its medium. -/
theorem ofFields_congr (h : ∀ k ∈ fieldNames m, lookup k fs = lookup k gs) :
    ofFields m fs = ofFields m gs := by
  cases m with
  | audio =>
    have hstart : lookup "start" fs = lookup "start" gs := h _ (by decide)
    have hstop : lookup "end" fs = lookup "end" gs := h _ (by decide)
    have hside : lookup "attachedToEarlierRevision" fs = lookup "attachedToEarlierRevision" gs :=
      h _ (by decide)
    simp only [ofFields, hstart, hstop, hside]
  | text => rw [ofFields, ofFields, textAnchor_congr h]
  | xml =>
    have hsame : lookup "renderTextContentOnSameLine" fs =
        lookup "renderTextContentOnSameLine" gs := h _ (by decide)
    have hlines : ∀ k ∈ fieldNames .text, lookup k fs = lookup k gs :=
      fun k hk => h k (List.mem_cons_of_mem _ hk)
    rw [ofFields, ofFields, textAnchor_congr hlines, hsame]

theorem fieldNames_nodup (m : Medium) : (fieldNames m).Nodup := by
  cases m <;> decide

/-- The fields before they are sorted. -/
theorem toFields_eq (a : Anchor) : ∃ ms, a.toFields = Json.sortMembers ms ∧
    ms.map Prod.fst = fieldNames a.medium ∧
      (a.HasFiniteTimes → ofFields a.medium ms = .ok a) := by
  refine ⟨_, rfl, ?_, ?_⟩
  · cases a <;> rfl
  · intro h
    cases a with
    | audio a =>
      obtain ⟨hstart, hstop⟩ := h
      simp [ofFields, medium, lookup, seconds?_ofOption hstart, seconds?_ofOption hstop, flag]
    | text a =>
      simp only [ofFields, medium, textAnchor_textFields]
      rfl
    | xml a =>
      have hlines : textAnchor .xml .tagged
          (("renderTextContentOnSameLine", .bool a.sameLine) :: textFields a.lines) =
            .ok a.lines := by
        rw [← textAnchor_textFields .xml .tagged a.lines]
        apply textAnchor_congr
        intro k hk
        have hne : k ≠ "renderTextContentOnSameLine" := by
          rintro rfl
          exact absurd hk (by decide)
        simp [lookup, hne.symm]
      simp only [ofFields, medium, hlines]
      rfl

/-- An anchor is kept in fields with the names of its medium, each once, and is read back from
them. No other field makes a difference, and on audio all fields can be read: a time is then
finite or unknown. -/
theorem ofFields_toFields :
    (∀ a : Anchor, (a.toFields.map Prod.fst).Perm (fieldNames a.medium) ∧
      (a.HasFiniteTimes → ofFields a.medium a.toFields = .ok a)) ∧
    (∀ (m : Medium) (fs gs : Fields), (∀ k ∈ fieldNames m, lookup k fs = lookup k gs) →
      ofFields m fs = ofFields m gs) ∧
    ∀ fs : Fields, ∃ a, ofFields .audio fs = .ok (.audio a) ∧ (audio a).HasFiniteTimes := by
  refine ⟨?_, fun m fs gs => ofFields_congr, ?_⟩
  · intro a
    obtain ⟨ms, hms, hnames, hread⟩ := toFields_eq a
    have hnodup : (ms.map Prod.fst).Nodup := hnames ▸ fieldNames_nodup a.medium
    rw [hms]
    constructor
    · exact hnames ▸ (Json.sortMembers_perm hnodup).map Prod.fst
    · intro h
      rw [ofFields_congr fun k _ => Json.lookup_sortMembers hnodup k]
      exact hread h
  · intro fs
    exact ⟨_, rfl, isFinite_of_seconds?, isFinite_of_seconds?⟩

/-- A span that starts in the middle of a second and has no known end, and two comments of which
one carries more than its span. -/
theorem ofFields_toFields_open_span :
    ofFields .audio (audio ⟨some 1.5, none, false⟩).toFields =
        .ok (audio ⟨some 1.5, none, false⟩) ∧
      ofFields .audio [("start", .text " 2 "), ("author", .null)] =
        ofFields .audio [("start", .text " 2 ")] := by
  refine ⟨(ofFields_toFields.1 (audio ⟨some 1.5, none, false⟩)).2 ⟨?_, ?_⟩,
    ofFields_toFields.2.1 .audio _ _ ?_⟩
  · intro x hx
    cases hx
    decide
  · intro x hx
    cases hx
  · intro k hk
    simp only [fieldNames, List.mem_cons, List.not_mem_nil, or_false] at hk
    rcases hk with rfl | rfl | rfl <;> rfl

end Anchor

end Marginalia.Attachment
