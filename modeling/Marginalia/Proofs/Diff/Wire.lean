import Marginalia.Diff.Script
import Marginalia.Proofs.Diff.Answer
import Marginalia.Proofs.Json.Text

/-! The JSON forms of the parts of a review are read back, in whatever order the members of their
objects stand. The selection of rows is no part of a form, so it is cleared. -/

namespace Marginalia.Diff

open Json (lookup arrange arrangeMembers Reorders Plain ofUInt32 ofUInt64 ofOption)

variable {f : List (String × Json) → List (String × Json)} {ms : List (String × Json)}
  {o : Json.Origin}

/-! ### Names and optional fields -/

theorem Side.ofJson?_arrange (s : Side) : Side.ofJson? o (arrange f s.toJson) = some s := by
  cases s <;> rfl

theorem CellKind.choice?_arrange (k : CellKind) :
    o.choice? CellKind.choices (arrange f (.text k.name)) = some k := by
  cases k <;> rfl

theorem GroupKind.choice?_arrange (k : GroupKind) :
    o.choice? GroupKind.choices (arrange f (.text k.name)) = some k := by
  cases k <;> rfl

theorem Expansion.choice?_arrange (e : Expansion) :
    o.choice? Expansion.choices (arrange f (.text e.name)) = some e := by
  cases e <;> rfl

theorem optionalWord_arrange (n : Option UInt32) :
    Json.nullable? Json.uint32? (arrange f (ofOption ofUInt32 n)) = some n :=
  Json.nullable?_arrange rfl Json.uint32?_arrange n

theorem optionalText_arrange (s : Option String) :
    Json.nullable? Json.text? (arrange f (ofOption .text s)) = some s :=
  Json.nullable?_arrange rfl (fun _ => rfl) s

/-! ### Cells, files and spans -/

theorem Cell.ofJson?_of_perm (c : Cell) (hp : ms.Perm (arrangeMembers f c.members)) :
    Cell.ofJson? o (.object ms) = some c := by
  have h : ∃ r, Json.record? Cell.fieldNames (.object ms) = some r ∧ r.Shows f c.members :=
    Json.record?_of_perm_arranged rfl (by decide) hp
  obtain ⟨r, hr, hs⟩ := h
  have hrow := hs.field? "row_index" rfl (Json.uint64?_arrange c.row)
  have hside := hs.field? "side" rfl (c.side.ofJson?_arrange (o := o))
  have hkind := hs.field? "kind" rfl (c.kind.choice?_arrange (o := o))
  simp [Cell.ofJson?, hr, hrow, hside, hkind]

theorem Cell.ofJson?_arrange (hf : Reorders f) (c : Cell) :
    Cell.ofJson? o (arrange f c.toJson) = some c := by
  have hn : (c.members.map Prod.fst).Nodup := show Cell.fieldNames.Nodup by decide
  obtain ⟨ms, hms, hp⟩ := Json.arrange_object hf _ hn
  rw [Cell.toJson, hms]
  exact c.ofJson?_of_perm hp

theorem File.ofJson?_arrange (hf : Reorders f) (a : File) :
    File.ofJson? (arrange f a.toJson) = some a := by
  have h : ∃ r, Json.record? File.fieldNames (arrange f a.toJson) = some r ∧ r.Shows f _ :=
    Json.record?_arrange hf rfl (by decide)
  obtain ⟨r, hr, hs⟩ := h
  have hindex := hs.field? "file_index" rfl (Json.uint64?_arrange a.index)
  have hdiff := hs.field? "filediff_id" rfl (Json.uint64?_arrange a.diffId)
  have hrevision := hs.field? "revision" rfl (Json.uint32?_arrange a.revision)
  have hbase := hs.fieldOr? (d := none) "interfilediff_id" rfl
    (Json.nullable?_arrange rfl Json.uint64?_arrange a.baseDiffId)
  have hbaseRevision := hs.fieldOr? (d := none) "interdiff_revision" rfl
    (optionalWord_arrange a.baseRevision)
  simp [File.ofJson?, hr, hindex, hdiff, hrevision, hbase, hbaseRevision]

theorem Span.ofJson?_arrange (hf : Reorders f) (s : Span) :
    Span.ofJson? o (arrange f s.toJson) = some s := by
  have h : ∃ r, Json.record? Span.fieldNames (arrange f s.toJson) = some r ∧ r.Shows f _ :=
    Json.record?_arrange hf rfl (by decide)
  obtain ⟨r, hr, hs⟩ := h
  have hfirstRow := hs.field? "begin_row" rfl (Json.uint64?_arrange s.firstRow)
  have hlastRow := hs.field? "end_row" rfl (Json.uint64?_arrange s.lastRow)
  have hfirstLine := hs.field? "begin_line" rfl (Json.uint32?_arrange s.firstLine)
  have hlastLine := hs.field? "end_line" rfl (Json.uint32?_arrange s.lastLine)
  have hside := hs.field? "side" rfl (s.side.ofJson?_arrange (o := o))
  simp [Span.ofJson?, hr, hfirstRow, hlastRow, hfirstLine, hlastLine, hside]

/-! ### Reveals, rows and groups -/

theorem Reveal.ofJson?_arrange (hf : Reorders f) (a : Reveal) :
    Reveal.ofJson? o (arrange f a.toJson) = some a := by
  cases a with
  | whole => rfl
  | hide => rfl
  | above n =>
    have h (j : Json) :
        Reveal.ofJson? o (.object [("above", j)]) = (Json.uint32? j).map .above := rfl
    rw [toJson, Json.arrange_single hf, h, Json.uint32?_arrange, Option.map_some]
  | below n =>
    have h (j : Json) :
        Reveal.ofJson? o (.object [("below", j)]) = (Json.uint32? j).map .below := rfl
    rw [toJson, Json.arrange_single hf, h, Json.uint32?_arrange, Option.map_some]
  | toHeader n header =>
    have h : ∃ r, Json.record? ["lines", "header"]
        (arrange f (.object [("lines", ofUInt32 n), ("header", .text header)])) = some r ∧
          r.Shows f _ :=
      Json.record?_arrange hf rfl (by decide)
    obtain ⟨r, hr, hs⟩ := h
    have hlines := hs.field? "lines" rfl (Json.uint32?_arrange n)
    have hheader := hs.field? "header" rfl (show Json.text? (.text header) = some header from rfl)
    have hcontents : o.contents? ["lines", "header"]
        (some (arrange f (.object [("lines", ofUInt32 n), ("header", .text header)]))) = some r :=
      hr
    rw [toJson, Json.arrange_single hf]
    simp [Reveal.ofJson?, Json.variant?, hcontents, hlines, hheader]

theorem CommentFlags.ofJson?_arrange (hf : Reorders f) (a : CommentFlags) :
    CommentFlags.ofJson? (arrange f a.toJson) = some a := by
  have h : ∃ r, Json.record? ["left", "right"] (arrange f a.toJson) = some r ∧ r.Shows f _ :=
    Json.record?_arrange hf rfl (by decide)
  obtain ⟨r, hr, hs⟩ := h
  have hleft := hs.fieldOr? (d := false) "left" rfl (show Json.bool? _ = some a.left from rfl)
  have hright := hs.fieldOr? (d := false) "right" rfl (show Json.bool? _ = some a.right from rfl)
  simp [CommentFlags.ofJson?, hr, hleft, hright]

/-- A row is read back with nothing selected. -/
theorem Row.ofJson?_arrange (hf : Reorders f) (a : Row) :
    Row.ofJson? (arrange f a.toJson) = some { a with selected := false } := by
  have h : ∃ r, Json.record? Row.fieldNames (arrange f a.toJson) = some r ∧ r.Shows f _ :=
    Json.record?_arrange hf rfl (by decide)
  obtain ⟨r, hr, hs⟩ := h
  have hline := hs.field? "line" rfl (Json.uint32?_arrange a.line)
  have holdLine := hs.fieldOr? (d := none) "old_line" rfl (optionalWord_arrange a.oldLine)
  have hnewLine := hs.fieldOr? (d := none) "new_line" rfl (optionalWord_arrange a.newLine)
  have holdText := hs.fieldOr? (d := none) "old_text" rfl (optionalText_arrange a.oldText)
  have hnewText := hs.fieldOr? (d := none) "new_text" rfl (optionalText_arrange a.newText)
  have hcomments := hs.fieldOr? (d := .none) "comment_flags" rfl
    (CommentFlags.ofJson?_arrange hf a.comments)
  simp [Row.ofJson?, hr, hline, holdLine, hnewLine, holdText, hnewText, hcomments]

theorem Reveal.controlOfJson?_arrange (hf : Reorders f) (a : Reveal) :
    Reveal.controlOfJson? o (arrange f a.controlToJson) = some a := by
  have h : ∃ r, Json.record? ["context"] (arrange f a.controlToJson) = some r ∧ r.Shows f _ :=
    Json.record?_arrange hf rfl (by decide)
  obtain ⟨r, hr, hs⟩ := h
  have hcontext := hs.field? "context" rfl (a.ofJson?_arrange hf (o := o))
  simp [Reveal.controlOfJson?, hr, hcontext]

theorem Group.ofJson?_arrange (hf : Reorders f) (g : Group) :
    Group.ofJson? o (arrange f g.toJson) = some g.unselect := by
  have h : ∃ r, Json.record? Group.fieldNames (arrange f g.toJson) = some r ∧ r.Shows f _ :=
    Json.record?_arrange hf rfl (by decide)
  obtain ⟨r, hr, hs⟩ := h
  have hchunk := hs.field? "chunk_index" rfl (Json.uint64?_arrange g.chunk)
  have hkind := hs.field? "kind" rfl (g.kind.choice?_arrange (o := o))
  have hexpansion := hs.fieldOr? (d := .fully) "expansion" rfl
    (g.expansion.choice?_arrange (o := o))
  have hloaded := hs.fieldOr? (d := false) "loaded" rfl (show Json.bool? _ = some g.loaded from rfl)
  have hrows := hs.fieldOr? (d := []) "rows" rfl
    (Json.items?_arrange fun (a : Row) _ => a.ofJson?_arrange hf)
  have hhidden := hs.fieldOr? (d := 0) "hidden_lines" rfl (Json.uint32?_arrange g.hiddenLines)
  have hheader := hs.fieldOr? (d := none) "header" rfl
    (optionalText_arrange g.header)
  have hreveals := hs.fieldOr? (d := []) "expand_affordances" rfl
    (Json.items?_arrange (g := id) fun (a : Reveal) _ => a.controlOfJson?_arrange hf (o := o))
  have hcollapsible := hs.fieldOr? (d := false) "has_collapse_affordance" rfl
    (show Json.bool? _ = some g.collapsible from rfl)
  simp [Group.ofJson?, hr, hchunk, hkind, hexpansion, hloaded, hrows, hhidden, hheader, hreveals,
    hcollapsible, Group.unselect]

theorem Fragment.ofJson?_arrange (hf : Reorders f) (a : Fragment) :
    Fragment.ofJson? o (arrange f a.toJson) = some ⟨a.groups.map Group.unselect⟩ := by
  have h : ∃ r, Json.record? ["groups"] (arrange f a.toJson) = some r ∧ r.Shows f _ :=
    Json.record?_arrange hf rfl (by decide)
  obtain ⟨r, hr, hs⟩ := h
  have hgroups := hs.field? "groups" rfl
    (Json.items?_arrange fun (g : Group) _ => g.ofJson?_arrange hf (o := o))
  simp [Fragment.ofJson?, hr, hgroups]

/-! ### Actions -/

/-- The type of an action is found among its members, which are left as they stand. -/
theorem tagged?_withType (hf : Reorders f) (name : String) (ms : List (String × Json))
    (hn : ("type" :: ms.map Prod.fst).Nodup) :
    ∃ body, Json.tagged? "type" (arrange f (withType name ms)) = some (name, .object body) ∧
      body.Perm (arrangeMembers f ms) := by
  obtain ⟨ms', hms, hp⟩ := Json.arrange_object hf (("type", .text name) :: ms) hn
  have htype : "type" ∉ (arrangeMembers f ms).map Prod.fst := by
    rw [Json.arrangeMembers_keys]
    exact (List.nodup_cons.mp hn).1
  rw [withType, hms]
  exact Json.tagged?_of_perm htype hp

/-- The cell of an action stands among the action's own members. -/
theorem tagged?_cell (hf : Reorders f) (name : String) (c : Cell) :
    ∃ body, Json.tagged? "type" (arrange f (withType name c.members)) = some (name, body) ∧
      Cell.ofJson? o body = some c := by
  obtain ⟨body, htag, hp⟩ := tagged?_withType hf name c.members
    (show ("type" :: Cell.fieldNames).Nodup by decide)
  exact ⟨_, htag, c.ofJson?_of_perm hp⟩

theorem Action.ofJson?_arrange (hf : Reorders f) (a : Action) :
    Action.ofJson? (arrange f a.toJson) = some a := by
  cases a with
  | pointerEnter c =>
    obtain ⟨body, htag, hc⟩ := tagged?_cell hf "pointer_enter" c (o := .tagged)
    simp [Action.ofJson?, Action.toJson, htag, hc]
  | pointerDown c =>
    obtain ⟨body, htag, hc⟩ := tagged?_cell hf "pointer_down" c (o := .tagged)
    simp [Action.ofJson?, Action.toJson, htag, hc]
  | pointerUp c =>
    obtain ⟨body, htag, hc⟩ := tagged?_cell hf "pointer_up" c (o := .tagged)
    simp [Action.ofJson?, Action.toJson, htag, hc]
  | pointerLeave c onto =>
    obtain ⟨body, htag, hp⟩ := tagged?_withType hf "pointer_leave"
      [("target", c.toJson), ("related", ofOption Cell.toJson onto)]
      (show ["type", "target", "related"].Nodup by decide)
    have h : ∃ r, Json.record? ["target", "related"] (.object body) = some r ∧ r.Shows f _ :=
      Json.record?_of_perm_arranged rfl (by decide) hp
    obtain ⟨r, hr, hs⟩ := h
    have htarget := hs.field? "target" rfl (c.ofJson?_arrange hf (o := .tagged))
    have honto := hs.fieldOr? (d := none) "related" rfl
      (Json.nullable?_arrange rfl (Cell.ofJson?_arrange hf (o := .tagged)) onto)
    simp [Action.ofJson?, Action.toJson, htag, hr, htarget, honto]
  | expand chunk reveal =>
    obtain ⟨body, htag, hp⟩ := tagged?_withType hf "expand"
      [("chunk_index", ofUInt64 chunk), ("context", reveal.toJson)]
      (show ["type", "chunk_index", "context"].Nodup by decide)
    have h : ∃ r, Json.record? ["chunk_index", "context"] (.object body) = some r ∧ r.Shows f _ :=
      Json.record?_of_perm_arranged rfl (by decide) hp
    obtain ⟨r, hr, hs⟩ := h
    have hchunk := hs.field? "chunk_index" rfl (Json.uint64?_arrange chunk)
    have hreveal := hs.field? "context" rfl (reveal.ofJson?_arrange hf (o := .tagged))
    simp [Action.ofJson?, Action.toJson, htag, hr, hchunk, hreveal]
  | collapse chunk =>
    obtain ⟨body, htag, hp⟩ := tagged?_withType hf "collapse"
      [("chunk_index", ofUInt64 chunk)] (show ["type", "chunk_index"].Nodup by decide)
    have h : ∃ r, Json.record? ["chunk_index"] (.object body) = some r ∧ r.Shows f _ :=
      Json.record?_of_perm_arranged rfl (by decide) hp
    obtain ⟨r, hr, hs⟩ := h
    have hchunk := hs.field? "chunk_index" rfl (Json.uint64?_arrange chunk)
    simp [Action.ofJson?, Action.toJson, htag, hr, hchunk]

/-! ### Plain forms -/

theorem Side.plain (s : Side) : Plain s.toJson := .text s.name

theorem Cell.plain_members (c : Cell) : ∀ m ∈ c.members, Plain m.2 := by
  simp [Cell.members, Side.plain]

theorem Cell.plain (c : Cell) : Plain c.toJson := .object c.plain_members

theorem File.plain (a : File) : Plain a.toJson :=
  .object (by simp [Json.plain_ofOption])

theorem Span.plain (s : Span) : Plain s.toJson := .object (by simp [Side.plain])

theorem Reveal.plain (a : Reveal) : Plain a.toJson := by
  cases a with
  | whole => exact .text _
  | hide => exact .text _
  | above n => exact .object (by simp)
  | below n => exact .object (by simp)
  | toHeader n header =>
    have hcontents : Plain (.object [("lines", ofUInt32 n), ("header", .text header)]) :=
      .object (by simp)
    exact .object (by simp [hcontents])

theorem Row.plain (a : Row) : Plain a.toJson := by
  have hcomments : Plain a.comments.toJson := .object (by simp)
  exact .object (by simp [hcomments, Json.plain_ofOption])

theorem Group.plain (g : Group) : Plain g.toJson := by
  have hrows : Plain (.array (g.rows.map Row.toJson)) := .array (by simp [Row.plain])
  have hcontrol (a : Reveal) : Plain a.controlToJson := .object (by simp [Reveal.plain])
  have hreveals : Plain (.array (g.reveals.map Reveal.controlToJson)) :=
    .array (by simp [hcontrol])
  exact .object (by simp [hrows, hreveals, Json.plain_ofOption])

theorem plain_groups (gs : List Group) : Plain (.array (gs.map Group.toJson)) :=
  .array (by simp [Group.plain])

theorem Fragment.plain (a : Fragment) : Plain a.toJson :=
  .object (by simp [plain_groups])

theorem plain_withType (name : String) (h : ∀ m ∈ ms, Plain m.2) : Plain (withType name ms) :=
  .object (List.forall_mem_cons.mpr ⟨.text name, h⟩)

theorem Action.plain (a : Action) : Plain a.toJson := by
  cases a with
  | pointerEnter c => exact plain_withType _ c.plain_members
  | pointerDown c => exact plain_withType _ c.plain_members
  | pointerUp c => exact plain_withType _ c.plain_members
  | pointerLeave c onto => exact plain_withType _ (by simp [Cell.plain, Json.plain_ofOption])
  | expand chunk reveal => exact plain_withType _ (by simp [Reveal.plain])
  | collapse chunk => exact plain_withType _ (by simp)

/-- An action can be kept as it is: what it carries lies two levels deep at most. -/
theorem Action.isKeepable_toJson (a : Action) : a.toJson.isKeepable 0 = true := by
  have hdepth : a.toJson.depth ≤ 3 := by
    cases a with
    | pointerLeave c onto =>
      cases onto <;> simp [Action.toJson, withType, Cell.toJson, Cell.members, Side.toJson,
        Json.depth, Json.membersDepth, ofUInt64, ofOption]
    | expand chunk reveal =>
      cases reveal <;> simp [Action.toJson, withType, Reveal.toJson, Json.depth,
        Json.membersDepth, ofUInt32, ofUInt64]
    | _ =>
      simp [Action.toJson, withType, Cell.members, Side.toJson, Json.depth, Json.membersDepth,
        ofUInt64]
  rw [Json.isKeepable, Json.settled?_of_plain a.plain]
  simp [Json.depthLimit]
  omega

/-! ### Both forms -/

/-- A value is read back out of its settled form and out of its text, as `loss` leaves it. -/
def ReadsBack {α : Type} (write : α → Json) (fromSettled fromText : Json → Option α)
    (loss : α → α) : Prop :=
  ∀ a, (Json.settled? (write a)).bind fromSettled = some (loss a) ∧
    (Json.parse? (write a).compact).bind fromText = some (loss a)

theorem readsBack_of_plain {α : Type} {write : α → Json} {fromSettled fromText : Json → Option α}
    {loss : α → α} (hp : ∀ a, Plain (write a))
    (hs : ∀ a, fromSettled (arrange Json.sortMembers (write a)) = some (loss a))
    (ht : ∀ a, fromText (arrange id (write a)) = some (loss a)) :
    ReadsBack write fromSettled fromText loss := by
  intro a
  constructor
  · rw [Json.settled?_of_plain (hp a)]
    exact hs a
  · have hid := Json.arrange_id (hp a)
    rw [Json.parse?_compact (hp a)]
    exact hid ▸ ht a

theorem Cell.readsBack : ReadsBack Cell.toJson (ofJson? .settled) (ofJson? .text) id :=
  readsBack_of_plain plain (ofJson?_arrange Json.reorders_sortMembers)
    (ofJson?_arrange Json.reorders_id)

theorem File.readsBack : ReadsBack File.toJson ofJson? ofJson? id :=
  readsBack_of_plain plain (ofJson?_arrange Json.reorders_sortMembers)
    (ofJson?_arrange Json.reorders_id)

theorem Span.readsBack : ReadsBack Span.toJson (ofJson? .settled) (ofJson? .text) id :=
  readsBack_of_plain plain (ofJson?_arrange Json.reorders_sortMembers)
    (ofJson?_arrange Json.reorders_id)

theorem Group.readsBack : ReadsBack Group.toJson (ofJson? .settled) (ofJson? .text) unselect :=
  readsBack_of_plain plain (ofJson?_arrange Json.reorders_sortMembers)
    (ofJson?_arrange Json.reorders_id)

theorem Fragment.readsBack : ReadsBack Fragment.toJson (ofJson? .settled) (ofJson? .text)
    fun a => ⟨a.groups.map Group.unselect⟩ :=
  readsBack_of_plain plain (ofJson?_arrange Json.reorders_sortMembers)
    (ofJson?_arrange Json.reorders_id)

/-- Out of text an action is taken where all of it can be kept. -/
theorem Action.readsBack : ReadsBack Action.toJson ofJson? (Script.actionOfJson? 0) id := by
  refine readsBack_of_plain plain (ofJson?_arrange Json.reorders_sortMembers) ?_
  intro a
  rw [Json.arrange_id a.plain, Script.actionOfJson?, if_pos a.isKeepable_toJson]
  have h := ofJson?_arrange Json.reorders_id a
  rwa [Json.arrange_id a.plain] at h

end Marginalia.Diff
