import Mathlib.Data.List.Induction
import Marginalia.Attachment.TextView

/-! Reloads of a text. A view keeps one request without an answer, the last one. Answers that come
in the order of their requests are told apart by nothing else, so one whose request has been
followed by another is filed under the mode of that one, and the next answer is lost. -/

namespace Marginalia.Attachment

/-- What happens to the content of a view. -/
inductive Reloading where
  | ask (mode : ViewMode) (extra : Fields)
  | answer (result : Except String String)

namespace Reloading

variable {before after steps : List Reloading}

/-- The modes of the requests that have no answer yet, the oldest first. Answers come in the order
of the requests. -/
def waiting (steps : List Reloading) : List ViewMode :=
  steps.foldl (fun modes step =>
    match step with
    | .ask mode _ => modes ++ [mode]
    | .answer _ => modes.tail) []

@[simp] theorem waiting_nil : waiting [] = [] := rfl

@[simp] theorem waiting_ask (steps : List Reloading) (mode : ViewMode) (extra : Fields) :
    waiting (steps ++ [.ask mode extra]) = waiting steps ++ [mode] := by
  simp [waiting]

@[simp] theorem waiting_answer (steps : List Reloading) (result : Except String String) :
    waiting (steps ++ [.answer result]) = (waiting steps).tail := by
  simp [waiting]

/-- No answer comes without a request. -/
def Awaited (steps : List Reloading) : Prop :=
  ∀ before result after, steps = before ++ .answer result :: after → waiting before ≠ []

/-- No request is made while another one waits. -/
def Single (steps : List Reloading) : Prop :=
  ∀ before mode extra after, steps = before ++ .ask mode extra :: after → waiting before = []

/-- Each answer comes straight after a request, and content only where the request that waits
longest is for the mode of that one. -/
def Prompt (steps : List Reloading) : Prop :=
  ∀ before result after, steps = before ++ .answer result :: after →
    ∃ prior mode extra, before = prior ++ [.ask mode extra] ∧
      (result.isOk = true → (waiting before).head? = some mode)

theorem length_waiting_le_one (h : Single (before ++ after)) : (waiting before).length ≤ 1 := by
  induction before using List.reverseRecOn generalizing after with
  | nil => exact Nat.zero_le 1
  | append_singleton prior step ih =>
    rw [List.append_assoc] at h
    cases step with
    | ask mode extra => simp [h prior mode extra after rfl]
    | answer result =>
      have hprior := ih h
      rw [waiting_answer, List.length_tail]
      omega

theorem prompt_of_single (hawaited : Awaited steps) (hsingle : Single steps) : Prompt steps := by
  intro before result after hsteps
  have hwaits := hawaited before result after hsteps
  cases before using List.reverseRecOn with
  | nil => exact absurd rfl hwaits
  | append_singleton prior step _ =>
    rw [List.append_assoc] at hsteps
    cases step with
    | ask mode extra =>
      have hnone := hsingle prior mode extra _ hsteps
      exact ⟨prior, mode, extra, rfl, fun _ => by simp [hnone]⟩
    | answer other =>
      -- The one request that waited has just been answered.
      have hone := length_waiting_le_one (hsteps ▸ hsingle)
      refine absurd (List.length_eq_zero_iff.mp ?_) hwaits
      rw [waiting_answer, List.length_tail]
      omega

end Reloading

open Reloading

namespace TextView

variable {v : TextView} {mode : ViewMode} {result : Except String String}
  {before steps : List Reloading}

def perform (v : TextView) : Reloading → TextView
  | .ask mode extra => (v.reload mode extra).2
  | .answer result => (v.finish result).2

def run (v : TextView) (steps : List Reloading) : TextView := steps.foldl perform v

theorem run_concat (v : TextView) (steps : List Reloading) (step : Reloading) :
    v.run (steps ++ [step]) = (v.run steps).perform step := by
  simp [run]

theorem content_setContent (v : TextView) (html : String) (mode other : ViewMode) :
    (v.setContent html mode).content other =
      if other = mode then some html else v.content other := by
  cases mode <;> cases other <;> rfl

@[simp] theorem pending_run_ask (v : TextView) (steps : List Reloading) (mode : ViewMode)
    (extra : Fields) : (v.run (steps ++ [.ask mode extra])).pending =
      some ⟨mode, Json.sortMembers (("type", .text mode.name) :: extra)⟩ := by
  rw [run_concat]
  rfl

@[simp] theorem pending_run_answer (v : TextView) (steps : List Reloading)
    (result : Except String String) : (v.run (steps ++ [.answer result])).pending = none := by
  rw [run_concat]
  cases hp : (v.run steps).pending with
  | none => simp [perform, finish, hp]
  | some r =>
    cases result with
    | error message => simp [perform, finish, hp]
    | ok html => cases hm : r.mode <;> simp [perform, finish, hp, hm, setContent]

/-- An answer is given to a request for a mode: content is stored for this mode alone and told of,
and a failure is told and stores nothing. -/
def Serves (v : TextView) (mode : ViewMode) (result : Except String String) : Prop :=
  match result with
  | .ok html =>
    (v.finish result).1 = [.contentChanged mode html] ∧
      ∀ other, (v.finish result).2.content other =
        if other = mode then some html else v.content other
  | .error message =>
    (v.finish result).1 = [.alert message] ∧
      ∀ other, (v.finish result).2.content other = v.content other

/-- An answer goes to the request that is pending, whose mode counts only where there is content. -/
theorem serves_iff : v.Serves mode result ↔
    ∃ r, v.pending = some r ∧ (result.isOk = true → r.mode = mode) := by
  cases hp : v.pending with
  | none => cases result <;> simp [Serves, finish, hp]
  | some r =>
    cases result with
    | error message =>
      have hkept : ∀ other, (v.finish (.error message)).2.content other = v.content other := by
        intro other
        cases other <;> simp [finish, hp, content]
      simpa [Serves, finish, hp, Except.isOk, Except.toBool] using hkept
    | ok html =>
      have htold : (v.finish (.ok html)).1 = [.contentChanged r.mode html] := by simp [finish, hp]
      have hstored : ∀ other, (v.finish (.ok html)).2.content other =
          if other = r.mode then some html else v.content other := by
        intro other
        simp only [finish, hp, content_setContent]
        cases other <;> rfl
      constructor
      · rintro ⟨hevent, -⟩
        rw [htold] at hevent
        simp only [List.cons.injEq, Event.contentChanged.injEq, and_true] at hevent
        exact ⟨r, rfl, fun _ => hevent⟩
      · rintro ⟨_, ⟨⟩, hmode⟩
        obtain rfl := hmode rfl
        exact ⟨htold, hstored⟩

/-- Among the requests of a run, only the last step of it can be the one an answer goes to. -/
theorem serves_run_iff :
    (∃ mode, (waiting before).head? = some mode ∧ (v.run before).Serves mode result) ↔
      ∃ prior mode extra, before = prior ++ [.ask mode extra] ∧
        (result.isOk = true → (waiting before).head? = some mode) := by
  simp only [serves_iff]
  cases before using List.reverseRecOn with
  | nil => simp
  | append_singleton prior step _ =>
    cases step with
    | answer other => simp
    | ask last extra =>
      rw [pending_run_ask]
      constructor
      · rintro ⟨mode, hhead, _, ⟨⟩, hmode⟩
        exact ⟨prior, last, extra, rfl, fun hok => hhead.trans (congrArg some (hmode hok).symm)⟩
      · rintro ⟨prior', mode', extra', hlast, hmode⟩
        obtain ⟨rfl, ⟨⟩⟩ := List.append_inj' hlast rfl
        -- A request waits, the last one if no other does.
        obtain ⟨mode, hhead⟩ :
            ∃ mode, (waiting (prior ++ [.ask last extra])).head? = some mode := by
          simp [List.head?_append]
        refine ⟨mode, hhead, _, rfl, fun hok => ?_⟩
        exact Option.some.inj ((hmode hok).symm.trans hhead)

/-- Each answer of a run is given to the request that waits longest for one. -/
def ServesAll (v : TextView) (steps : List Reloading) : Prop :=
  ∀ before result after, steps = before ++ .answer result :: after →
    ∃ mode, (waiting before).head? = some mode ∧ (v.run before).Serves mode result

theorem servesAll_of_single (v : TextView) (hawaited : Awaited steps) (hsingle : Single steps) :
    v.ServesAll steps :=
  fun before result after hsteps =>
    serves_run_iff.mpr (prompt_of_single hawaited hsingle before result after hsteps)

/-- Answers that come in the order of the requests all go where they belong just where none of them
is late: whatever else waits, an answer goes to the last request or to none. -/
theorem servesAll_run_iff (v : TextView) (steps : List Reloading) :
    v.ServesAll steps ↔ Prompt steps := by
  constructor
  · intro hserves before result after hsteps
    exact serves_run_iff.mp (hserves before result after hsteps)
  · intro hprompt before result after hsteps
    exact serves_run_iff.mpr (hprompt before result after hsteps)

/-- The first of two answers is kept under the mode of the second request, and the other answer
is dropped. -/
theorem not_servesAll_overlapping :
    let steps : List Reloading := [.ask .rendered [], .ask .source [], .answer (.ok "a"),
      .answer (.ok "b")]
    Awaited steps ∧ ¬ (new (.new .text ⟨"", 0⟩) true .rendered).ServesAll steps := by
  constructor
  · intro before result after hsteps
    -- The answers are the third and the fourth step.
    rcases before with _ | ⟨_, _ | ⟨_, _ | ⟨_, _ | ⟨_, before⟩⟩⟩⟩ <;>
      simp only [List.nil_append, List.cons_append, List.cons.injEq, List.nil_eq,
        List.append_eq_nil_iff, reduceCtorEq, false_and, and_false] at hsteps
    · obtain ⟨rfl, rfl, -⟩ := hsteps
      decide
    · obtain ⟨rfl, rfl, rfl, -⟩ := hsteps
      decide
  · intro hserves
    obtain ⟨mode, hhead, htold, -⟩ := hserves [.ask .rendered [], .ask .source []] (.ok "a") _ rfl
    obtain rfl : .rendered = mode := Option.some.inj hhead
    have hevent : [Event.contentChanged .source "a"] = [.contentChanged .rendered "a"] := htold
    simp at hevent

end TextView

end Marginalia.Attachment
