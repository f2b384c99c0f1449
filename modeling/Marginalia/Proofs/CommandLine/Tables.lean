import Marginalia.CommandLine.Run
import Marginalia.Proofs.Diff.Addressing
import Marginalia.Proofs.Diff.Parsed
import Marginalia.Proofs.Diff.Wire

/-! Tables on paper. The table that a replay ends with is printed as the list of its groups; a
script that holds the list as its groups begins with the same table, nothing selected. -/

namespace Marginalia

open Diff (Action Cell File Fragment Group ReadsBack Replay Row Script Session Span Table)

/-! ### The table of a replay -/

namespace Diff.Replay

variable {p : Replay} {s : Session}

theorem session_foldl_report (events : List Event) (p : Replay) :
    (events.foldl report p).session = p.session := by
  induction events generalizing p with
  | nil => rfl
  | cons e events ih => exact ih (p.report e)

theorem upToDate_deliver (h : p.session.UpToDate) (r : Request) :
    (p.deliver r).session.UpToDate := by
  have hnext := Session.upToDate_perform h (.answer r (answer r p.answers).1)
  rw [Session.perform] at hnext
  rw [deliver]
  split at hnext
  · next s' events happ =>
    simp only [happ, session_foldl_report]
    exact hnext
  · next cause happ =>
    simp only [happ]
    exact hnext

theorem upToDate_follow (h : p.session.UpToDate) (e : Event) :
    (p.follow e).session.UpToDate := by
  cases e with
  | requestFragment r => exact upToDate_deliver (p := p.report (.requestFragment r)) h r
  | _ => exact h

theorem upToDate_act (h : p.session.UpToDate) (a : Action) : (p.act a).session.UpToDate := by
  -- The events of the action are followed from the session that it leaves, not from the one before.
  suffices hfold : ∀ (events : List Event) (p : Replay), p.session.UpToDate →
      (events.foldl follow p).session.UpToDate by
    exact hfold _ _ (Session.upToDate_perform h (.act a))
  intro events
  induction events with
  | nil => exact fun _ h => h
  | cons e events ih => exact fun p h => ih _ (upToDate_follow h e)

theorem upToDate_run (h : s.UpToDate) (answers : List Answer) (actions : List Action) :
    (run s answers actions).session.UpToDate := by
  suffices hfold : ∀ (actions : List Action) (p : Replay), p.session.UpToDate →
      (actions.foldl act p).session.UpToDate by
    exact hfold actions _ h
  intro actions
  induction actions with
  | nil => exact fun _ h => h
  | cons a actions ih => exact fun p h => ih _ (upToDate_act h a)

end Diff.Replay

/-- Of an up-to-date table nothing has to be known but its groups. -/
theorem Diff.Session.UpToDate.table_eq {s : Session} (h : s.UpToDate) :
    s.table = .ofGroups s.table.groups := by
  have hbuttons : s.table.buttons = Diff.collapsibleChunks s.table.groups := by
    rw [h.buttons, Table.unflagged, Diff.collapsibleChunks_blank]
  have hindex : s.table.index = Diff.rowIndex s.table.groups := h.indexed
  rw [Table.ofGroups, ← hindex, ← hbuttons]

namespace CommandLine

variable {read : Reader} {c : Config} {o : Options} {path : String} {script : Script} {t : Table}

theorem firstTable_eq (h : firstTable read c o script = .ok t) : ∃ gs, t = .ofGroups gs := by
  rw [firstTable] at h
  split at h
  · rw [diffTable] at h
    split at h
    · cases h
    · split at h
      · cases h
      · next text _ _ files htables =>
        split at h
        · next file hfile =>
          have hparsed : file.table.Parsed :=
            ⟨text, _, files, file, htables, List.mem_of_getElem? hfile, rfl⟩
          obtain ⟨gs, hgs, -⟩ := hparsed.untouched
          exact ⟨gs, (Except.ok.inj h).symm.trans hgs⟩
        · cases h
  · split at h
    · cases h
    · exact ⟨_, (Except.ok.inj h).symm⟩

/-- The table that the replay of a script ends with. -/
def lastTable (read : Reader) (c : Config) (o : Options) (path : String) :
    Except Failure Table := do
  let script ← loadScript read path
  let table ← firstTable read c o script
  return (Replay.run (.new script.file table) script.answers script.actions).session.table

theorem lastTable_eq (h : lastTable read c o path = .ok t) : t = .ofGroups t.groups := by
  obtain ⟨script, -, h⟩ := Diff.bind_eq_ok.mp h
  obtain ⟨first, hfirst, h⟩ := Diff.bind_eq_ok.mp h
  obtain ⟨gs, rfl⟩ := firstTable_eq hfirst
  obtain rfl := Except.ok.inj h
  exact (Replay.upToDate_run (Session.upToDate_new script.file gs) _ _).table_eq

/-- A table as text. -/
def tableText (t : Table) : String := (Json.array (t.groups.map Group.toJson)).compact

theorem replayLines_eq (h : lastTable read c o path = .ok t) (ho : o.printTable = true) :
    ∃ lines, replayLines read c o path = .ok (lines ++ [tableText t]) := by
  obtain ⟨script, hscript, h⟩ := Diff.bind_eq_ok.mp h
  obtain ⟨first, hfirst, h⟩ := Diff.bind_eq_ok.mp h
  obtain rfl := Except.ok.inj h
  refine ⟨(Replay.run (.new script.file first) script.answers script.actions).output, ?_⟩
  simp only [replayLines, hscript, hfirst, ho, bind, Except.bind, if_true]
  rfl

/-! ### Scripts with a printed table -/

/-- A script's text that has a text in the place of its groups. -/
def HoldsGroups (script groups : String) : Prop :=
  (Json.parse? script).bind (fun j => j.get? "groups") = Json.parse? groups

theorem items?_groups (t : Table) : Json.items? (Group.ofJson? .text)
    (.array (t.groups.map Group.toJson)) = some (t.groups.map Group.unselect) := by
  have h := Json.items?_arrange fun (g : Group) (_ : g ∈ t.groups) =>
    g.ofJson?_arrange Json.reorders_id (o := .text)
  rwa [Json.arrange_id (Diff.plain_groups t.groups)] at h

theorem parse?_tableText (t : Table) :
    Json.parse? (tableText t) = some (.array (t.groups.map Group.toJson)) :=
  Json.parse?_compact (Diff.plain_groups t.groups)

theorem groups_of_holdsGroups {text : String} (ht : HoldsGroups text (tableText t))
    (h : Script.parse? text = some script) : script.groups = t.groups.map Group.unselect := by
  obtain ⟨j, hj, hscript⟩ := Option.bind_eq_some_iff.mp h
  rw [HoldsGroups, parse?_tableText, hj, Option.bind_some] at ht
  cases j with
  | object ms =>
    rw [Script.ofJson?] at hscript
    obtain ⟨r, hr, hfields⟩ := Option.bind_eq_some_iff.mp hscript
    have hlookup : Json.lookup "groups" r.fields = some _ :=
      (Json.lookup_fields hr (by decide)).trans ht
    have hgroups : r.fieldOr? "groups" [] (Json.items? (Group.ofJson? .text)) =
        some (t.groups.map Group.unselect) := by
      rw [Json.Record.fieldOr?, hlookup]
      exact items?_groups t
    obtain ⟨file, -, hfields⟩ := Option.bind_eq_some_iff.mp hfields
    obtain ⟨gs, hgs, hfields⟩ := Option.bind_eq_some_iff.mp hfields
    obtain ⟨actions, -, hfields⟩ := Option.bind_eq_some_iff.mp hfields
    obtain ⟨answers, -, hfields⟩ := Option.bind_eq_some_iff.mp hfields
    obtain rfl := Option.some.inj hfields
    exact Option.some.inj (hgs.symm.trans hgroups)
  | _ => cases ht

theorem firstTable_of_groups (hd : o.diff = none) (hne : t.groups ≠ [])
    (ht : t = .ofGroups t.groups) (hg : script.groups = t.groups.map Group.unselect) :
    firstTable read c o script = .ok t.clearSelected := by
  have hsome : (t.groups.map Group.unselect).isEmpty = false := by
    rw [List.isEmpty_eq_false_iff]
    simpa using hne
  have hclear : t.clearSelected = .ofGroups (t.groups.map Group.unselect) :=
    (congrArg Table.clearSelected ht).trans (Table.clearSelected_ofGroups t.groups)
  rw [firstTable, hd, hg, hclear]
  simp only [hsome, Bool.false_eq_true, if_false]

/-- The script that holds groups and nothing else. -/
def scriptText (groups : String) : String := "\x7b\"groups\":" ++ groups ++ "\x7d"

theorem scriptText_tableText (t : Table) :
    scriptText (tableText t) =
      (Json.object [("groups", .array (t.groups.map Group.toJson))]).compact := by
  apply String.toList_injective
  simp [scriptText, tableText, Json.compact, Json.render, Json.renderMembers, Json.quote]
  rfl

theorem read_scriptText (t : Table) : Json.parse? (scriptText (tableText t)) =
    some (.object [("groups", .array (t.groups.map Group.toJson))]) := by
  have hplain : Json.Plain (.object [("groups", .array (t.groups.map Group.toJson))]) :=
    .object (by simp [Diff.plain_groups])
  rw [scriptText_tableText, Json.parse?_compact hplain]

theorem holdsGroups_scriptText (t : Table) :
    HoldsGroups (scriptText (tableText t)) (tableText t) := by
  rw [HoldsGroups, read_scriptText, parse?_tableText]
  rfl

theorem parse?_scriptText (t : Table) : Script.parse? (scriptText (tableText t)) =
    some ⟨.new 0 0 0, t.groups.map Group.unselect, [], []⟩ := by
  have hgroups := items?_groups t
  rw [Script.parse?, read_scriptText]
  simp [Script.ofJson?, Json.record?, Json.Record.fieldOr?, Json.lookup, hgroups]

/-! ### Reading back -/

/-- Groups, fragments, actions, files, cells and spans are read back out of their forms, rows with
nothing selected. A table that is printed at the end of a replay stands for its groups in any script
that holds it, and if it has groups, such a script begins with the same table, nothing selected. -/
theorem forms_read_back :
    (ReadsBack Group.toJson (Group.ofJson? .settled) (Group.ofJson? .text) Group.unselect ∧
      ReadsBack Fragment.toJson (Fragment.ofJson? .settled) (Fragment.ofJson? .text)
        (fun a => ⟨a.groups.map Group.unselect⟩) ∧
      ReadsBack Action.toJson Action.ofJson? (Script.actionOfJson? 0) id ∧
      ReadsBack File.toJson File.ofJson? File.ofJson? id ∧
      ReadsBack Cell.toJson (Cell.ofJson? .settled) (Cell.ofJson? .text) id ∧
      ReadsBack Span.toJson (Span.ofJson? .settled) (Span.ofJson? .text) id) ∧
    ∀ (read : Reader) (c : Config) (o : Options) (path : String) (t : Table),
      lastTable read c o path = .ok t → o.printTable = true →
        (∃ lines, replayLines read c o path = .ok (lines ++ [tableText t])) ∧
        HoldsGroups (scriptText (tableText t)) (tableText t) ∧
        Script.parse? (scriptText (tableText t)) =
          some ⟨.new 0 0 0, t.groups.map Group.unselect, [], []⟩ ∧
        ∀ text script, HoldsGroups text (tableText t) → Script.parse? text = some script →
          script.groups = t.groups.map Group.unselect ∧
          (t.groups ≠ [] → ∀ (read' : Reader) (c' : Config) (o' : Options), o'.diff = none →
            firstTable read' c' o' script = .ok t.clearSelected) := by
  refine ⟨⟨Group.readsBack, Fragment.readsBack, Action.readsBack, File.readsBack, Cell.readsBack,
    Span.readsBack⟩, ?_⟩
  intro read c o path t h ho
  have ht := lastTable_eq h
  refine ⟨replayLines_eq h ho, holdsGroups_scriptText t, parse?_scriptText t, ?_⟩
  intro text script hholds hscript
  have hgroups := groups_of_holdsGroups hholds hscript
  refine ⟨hgroups, ?_⟩
  intro hne read' c' o' hd
  exact firstTable_of_groups hd hne ht hgroups

theorem eq_ok_of_toOption {ε α : Type} {x : Except ε α} {a : α} (h : x.toOption = some a) :
    x = .ok a := by
  cases x with
  | error e => cases h
  | ok b => exact congrArg Except.ok (Option.some.inj h)

/-- A row is pressed on and stays selected to the end, and the table is printed. A script that holds
the printed table begins with the row, but does not select it. -/
theorem forms_read_back_pressed_row :
    let groups := "[\x7b\"chunk_index\":0,\"kind\":\"equal\",\"rows\":[\x7b\"line\":1\x7d]\x7d]"
    let press := "\x7b\"type\":\"pointer_down\",\"row_index\":0,\"side\":\"left\"," ++
      "\"kind\":\"line_number\"\x7d"
    let pressed := "\x7b\"groups\":" ++ groups ++ ",\"actions\":[" ++ press ++ "]\x7d"
    let read : Reader := fun _ => some (Text.Utf8.encode pressed)
    let o : Options := ⟨none, none, none, none, none, none, true, false, false⟩
    let t := Table.ofGroups [.new 0 .equal [{ Row.bare 1 with selected := true }]]
    lastTable read .default o "pressed.json" = .ok t ∧
      ∃ script, Script.parse? (scriptText (tableText t)) = some script ∧
        firstTable read .default o script = .ok (.ofGroups [.new 0 .equal [Row.bare 1]]) := by
  intro groups press pressed read o t
  have hlast : lastTable read .default o "pressed.json" = .ok t :=
    eq_ok_of_toOption (by decide +kernel)
  obtain ⟨-, hholds, hparse, hbegins⟩ :=
    forms_read_back.2 read .default o "pressed.json" t hlast rfl
  exact ⟨hlast, _, hparse, (hbegins _ _ hholds hparse).2 (by decide) read .default o rfl⟩

/-- A diff without hunks has a table without groups. It is printed as an empty list, and a script
that holds the list is refused as one without a table. -/
theorem printed_empty_table_refused :
    let read : Reader := fun path =>
      if path = "empty.diff" then some (Text.Utf8.encode "--- a/f\n+++ b/f\n")
      else if path = "script.json" then some (Text.Utf8.encode "\x7b\x7d")
      else some (Text.Utf8.encode (scriptText "[]"))
    let first := answer read [] ["script.json", "--diff", "empty.diff", "--print-table"]
    let again := answer read [] ["printed.json", "--print-table"]
    first.lines = ["[]"] ∧ first.code = 0 ∧ again.lines = [] ∧
      again.failure.bind Failure.message? =
        some "The script has no table; pass --diff to build one from a diff" := by
  decide +kernel

end CommandLine

end Marginalia
