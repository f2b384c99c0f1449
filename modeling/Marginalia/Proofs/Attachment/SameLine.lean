import Mathlib.Algebra.Group.Nat.Even
import Mathlib.Data.List.Induction
import Marginalia.Attachment.XmlView

/-! The layout of an XML document. The choice changes as soon as content is asked for, and what is
shown once the content is there. A failure takes nothing back, so the choice is then one ahead.
Content is only ever asked for in the layout that was not chosen, so a second failure brings both
together again, and so does content. -/

namespace Marginalia

theorem Json.sortMembers_pair {k k' : String} (h : k' < k) (v v' : Json) :
    sortMembers [(k, v), (k', v')] = [(k', v'), (k, v)] := by
  simp [sortMembers, insertMember, h]

namespace Attachment

/-- The layout among the options of a request. -/
def ContentRequest.sameLine? (r : ContentRequest) : Option Bool :=
  match Json.lookup "renderTextContentOnSameLine" r.options with
  | some (.bool layout) => some layout
  | _ => none

namespace XmlView

inductive Call where
  | setSameLine (value : Bool)
  | setMode (mode : ViewMode)
  | finish (answer : Except String String)

/-- A view, and the layout of the content it got last, with the number of reloads that have failed
since. -/
structure Record where
  view : XmlView
  shown : Bool
  failures : Nat

namespace Record

variable {x : Record}

/-- A new view, with text on lines of its own. -/
def start (r : Reviewable) (hasRendered : Bool) (mode : ViewMode) : Record :=
  ⟨.new r hasRendered mode, false, 0⟩

/-- The layout of the content that is on its way. -/
def asked (x : Record) : Option Bool := x.view.text.pending.bind ContentRequest.sameLine?

def step (x : Record) : Call → Record
  | .setSameLine value => { x with view := (x.view.setSameLine value).2 }
  | .setMode mode => { x with view := { x.view with text := (x.view.text.setMode mode).2 } }
  | .finish answer =>
    let view := (x.view.finish answer).2
    match x.asked, answer with
    | none, _ => { x with view := view }
    | some layout, .ok _ => ⟨view, layout, 0⟩
    | some _, .error _ => { x with view := view, failures := x.failures + 1 }

def run (x : Record) (calls : List Call) : Record := calls.foldl step x

/-- The choice is the layout of the content, and blocks are seen in it. -/
structure Agrees (x : Record) : Prop where
  chosen : x.view.sameLine = x.shown
  blocks : ∀ a : XmlAnchor, x.view.shows (.xml a) = true ↔
    a.lines.mode = x.view.text.mode ∧ a.sameLine = x.shown

theorem agrees_iff : x.Agrees ↔ x.view.sameLine = x.shown := by
  refine ⟨Agrees.chosen, fun h => ⟨h, fun a => ?_⟩⟩
  simp [shows, h]

/-- What is asked for is the layout chosen now, and it was not chosen before. -/
structure Alternates (x : Record) : Prop where
  enabled : x.view.text.optionsEnabled = x.view.text.pending.isNone
  idle : x.view.text.pending = none → (x.view.sameLine = x.shown ↔ Even x.failures)
  waits : ∀ r, x.view.text.pending = some r →
    r.sameLine? = some x.view.sameLine ∧ (x.view.sameLine = x.shown ↔ ¬ Even x.failures)

theorem alternates_start (r : Reviewable) (hasRendered : Bool) (mode : ViewMode) :
    (start r hasRendered mode).Alternates := by
  constructor <;> simp [start, XmlView.new, TextView.new]

theorem sameLine?_sortMembers (mode : ViewMode) (value : Bool) :
    ContentRequest.sameLine? ⟨mode, Json.sortMembers
      [("type", .text mode.name), ("renderTextContentOnSameLine", .bool value)]⟩ = some value := by
  rw [Json.sortMembers_pair (by decide)]
  simp [ContentRequest.sameLine?, Json.lookup]

theorem Alternates.setSameLine (h : x.Alternates) (value : Bool) :
    (x.step (.setSameLine value)).Alternates := by
  by_cases hguard : value = x.view.sameLine ∨ !x.view.text.optionsEnabled
  · rw [step, XmlView.setSameLine, if_pos hguard]
    exact h
  · obtain ⟨hvalue, henabled⟩ := not_or.mp hguard
    have hpending : x.view.text.pending = none := by simpa [h.enabled] using henabled
    rw [step, XmlView.setSameLine, if_neg hguard]
    refine ⟨rfl, nofun, ?_⟩
    rintro _ ⟨⟩
    refine ⟨sameLine?_sortMembers _ _, ?_⟩
    have hother : value = x.shown ↔ ¬ x.view.sameLine = x.shown := by
      rw [Bool.eq_not.mpr hvalue]
      cases x.view.sameLine <;> cases x.shown <;> decide
    exact hother.trans (not_congr (h.idle hpending))

/-- Content is asked for in a layout just where this is not the one that is chosen. -/
theorem Alternates.asked_setSameLine (h : x.Alternates) (hidle : x.view.text.pending = none)
    (value : Bool) : (x.step (.setSameLine value)).asked =
      if value = x.view.sameLine then none else some value := by
  have henabled : x.view.text.optionsEnabled = true := by simp [h.enabled, hidle]
  by_cases hvalue : value = x.view.sameLine
  · rw [step, XmlView.setSameLine, if_pos (Or.inl hvalue), if_pos hvalue]
    simp [asked, hidle]
  · rw [step, XmlView.setSameLine, if_neg (by simp [hvalue, henabled]), if_neg hvalue]
    exact sameLine?_sortMembers x.view.text.mode value

theorem Alternates.setMode (h : x.Alternates) (mode : ViewMode) :
    (x.step (.setMode mode)).Alternates := by
  by_cases hguard : mode = .rendered ∧ !x.view.text.hasRendered
  · rw [step, TextView.setMode, if_pos hguard]
    exact h
  · rw [step, TextView.setMode, if_neg hguard]
    exact ⟨h.enabled, h.idle, h.waits⟩

theorem Alternates.finish (h : x.Alternates) (answer : Except String String) :
    (x.step (.finish answer)).Alternates := by
  cases hp : x.view.text.pending with
  | none =>
    have hasked : x.asked = none := by simp [asked, hp]
    simp only [step, hasked, XmlView.finish, TextView.finish, hp]
    exact ⟨rfl, fun _ => h.idle hp, nofun⟩
  | some r =>
    obtain ⟨hlayout, hparity⟩ := h.waits r hp
    have hasked : x.asked = some x.view.sameLine := by simp [asked, hp, hlayout]
    cases answer with
    | error message =>
      simp only [step, hasked, XmlView.finish, TextView.finish, hp]
      refine ⟨rfl, fun _ => ?_, nofun⟩
      rw [Nat.even_add_one]
      exact hparity
    | ok html =>
      simp only [step, hasked, XmlView.finish, TextView.finish, hp]
      cases r.mode <;> exact ⟨rfl, fun _ => by simp, nofun⟩

theorem Alternates.step (h : x.Alternates) (call : Call) : (x.step call).Alternates := by
  cases call with
  | setSameLine value => exact h.setSameLine value
  | setMode mode => exact h.setMode mode
  | finish answer => exact h.finish answer

theorem alternates_run (h : x.Alternates) (calls : List Call) : (x.run calls).Alternates := by
  induction calls using List.reverseRecOn with
  | nil => exact h
  | append_singleton calls call ih =>
    rw [run, List.foldl_append]
    exact ih.step call

/-- Where no content is on its way, choice and content agree just where an even number of reloads
has failed since the last one that did not. The layout of a reload that has failed stays chosen, so
it cannot be asked for at once. -/
theorem agrees_run_iff (r : Reviewable) (hasRendered : Bool) (mode : ViewMode) (calls : List Call)
    (hidle : ((start r hasRendered mode).run calls).view.text.pending = none) :
    let x := (start r hasRendered mode).run calls
    (x.Agrees ↔ Even x.failures) ∧ ∀ value, (x.step (.setSameLine value)).asked =
      if value = x.view.sameLine then none else some value := by
  intro x
  have halternates : x.Alternates := alternates_run (alternates_start r hasRendered mode) calls
  exact ⟨agrees_iff.trans (halternates.idle hidle), halternates.asked_setSameLine hidle⟩

/-- The layout is chosen and given up again, and both reloads fail. -/
theorem agrees_run_failed_twice :
    let calls : List Call := [.setSameLine true, .finish (.error "500"), .setMode .source,
      .setSameLine false, .finish (.error "500")]
    let x := (start (.new .xml ⟨"", 0⟩) true .rendered).run calls
    x.view.text.pending = none ∧ x.Agrees ∧ (x.step (.setSameLine true)).asked = some true :=
  ⟨rfl, (agrees_run_iff _ _ _ _ rfl).1.mpr ⟨1, rfl⟩, (agrees_run_iff _ _ _ _ rfl).2 true⟩

/-- A reload fails, and the layout that was asked for stays chosen. -/
theorem not_agrees_failed :
    let x := (start (.new .xml ⟨"", 0⟩) true .rendered).run
      [.setSameLine true, .finish (.error "500")]
    x.view.text.pending = none ∧ ¬ x.Agrees := by
  refine ⟨rfl, fun hagrees => ?_⟩
  have hchosen : true = false := hagrees.chosen
  cases hchosen

end Record

end XmlView

end Attachment

end Marginalia
