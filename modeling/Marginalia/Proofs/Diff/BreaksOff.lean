import Marginalia.Proofs.Diff.Parsed
import Marginalia.Proofs.Text.Runs

/-! Where the reading of a diff is given up without a report: at a target name that no source name
has gone before, and at a hunk header with a number that is no word. The numbers that a header states
can be too large; of the sums that are made of them, the ends of a hunk and the numbers of its lines,
it is assumed that they are words. -/

namespace Marginalia.Diff.Patch

variable {lines before after : List (List Char)} {line cs ds ds' rest : List Char}
  {r r' : Reader} {e : PatchError}

/-! ### The lines of a diff that are no part of a hunk -/

def sourceName? (line : List Char) : Option (List Char) := name? "--- ".toList line

def targetName? (line : List Char) : Option (List Char) := name? "+++ ".toList line

/-- A line that outside of hunks stands for nothing. -/
structure IsIdle (line : List Char) : Prop where
  source : sourceName? line = none
  target : targetName? line = none
  hunk : hunkHeader? line = none

/-- The numbers of a header, as digits. -/
def HunkHeader.numbers (h : HunkHeader) : List (List Char) :=
  [h.oldStart, h.oldLength, h.newStart, h.newLength]

/-- ASCII digits of a number that a word holds. -/
structure IsWord (ds : List Char) : Prop where
  digits : ∀ c ∈ ds, Text.isDigit c = true
  fits : Decimal.value ds < UInt64.size

/-- The reading of lines is given up without a report. Sums of the numbers of a header are assumed to
be words, so it is given up at no line inside a hunk. -/
inductive BreaksOff (lines : List (List Char)) : Prop
  /-- The first line that stands for anything is a target name. -/
  | target {before after : List (List Char)} {line : List Char}
      (he : lines = before ++ line :: after)
      (hidle : ∀ l ∈ before, IsIdle l) (ht : (targetName? line).isSome)
  /-- In a file, outside of its hunks, a header has a number that is no word. -/
  | number {before after : List (List Char)} {line : List Char} {r : Reader} {h : HunkHeader}
      (he : lines = before ++ line :: after)
      (hr : before.foldlM Reader.step Reader.start = .ok r) (hhunk : r.hunk = none)
      (hfile : r.current.isSome) (hline : hunkHeader? line = some h)
      (hnumber : ∃ ds ∈ h.numbers, ¬ IsWord ds)

/-! ### Numbers of a header -/

/-- A row of digits of any script. -/
def IsNumeral (ds : List Char) : Prop := ds ≠ [] ∧ ∀ c ∈ ds, Text.isNumeral c = true

theorem isNumeral_of_number? (h : number? cs = some (ds, rest)) : IsNumeral ds := by
  rw [number?] at h
  split at h
  · cases h
  · next hne =>
    obtain ⟨rfl, -⟩ := Prod.mk.inj (Option.some.inj h)
    exact ⟨hne, of_mem_takeWhile⟩

theorem isNumeral_one : IsNumeral ['1'] := by
  refine ⟨List.cons_ne_nil _ _, ?_⟩
  intro c hc
  obtain rfl := List.mem_singleton.mp hc
  rfl

theorem isNumeral_of_range? (h : range? cs = some (ds, ds', rest)) :
    IsNumeral ds ∧ IsNumeral ds' := by
  simp only [range?, Option.bind_eq_bind, Option.bind_eq_some_iff] at h
  obtain ⟨⟨start, r⟩, hstart, h⟩ := h
  have hs := isNumeral_of_number? hstart
  split at h
  · split at h
    · next hlength =>
      cases h
      exact ⟨hs, isNumeral_of_number? hlength⟩
    · cases h
      exact ⟨hs, isNumeral_one⟩
  · cases h
    exact ⟨hs, isNumeral_one⟩

theorem isNumeral_of_hunkHeader? {h : HunkHeader} (hh : hunkHeader? line = some h) :
    ∀ ds ∈ h.numbers, IsNumeral ds := by
  simp only [hunkHeader?, Option.bind_eq_bind, Option.bind_eq_some_iff] at hh
  obtain ⟨_, -, ⟨oldStart, oldLength, _⟩, hold, _, -, hh⟩ := hh
  obtain ⟨⟨newStart, newLength, _⟩, hnew, _, -, hh⟩ := hh
  cases hh
  obtain ⟨h₁, h₂⟩ := isNumeral_of_range? hold
  obtain ⟨h₃, h₄⟩ := isNumeral_of_range? hnew
  simp [HunkHeader.numbers, h₁, h₂, h₃, h₄]

theorem isSome_readBelow? (h : IsNumeral ds) :
    (Decimal.readBelow? UInt64.size ds).isSome = true ↔ IsWord ds := by
  obtain ⟨hne, hnum⟩ := h
  have hbody : Decimal.readBelow? UInt64.size ds =
      (Decimal.readDigits? ds).filter (· < UInt64.size) := by
    rw [Decimal.readBelow?]
    -- A sign would be taken in front of the digits, but it is no numeral.
    rintro r rfl
    exact absurd (hnum '+' List.mem_cons_self) (by decide)
  rw [hbody, Decimal.readDigits?]
  constructor
  · intro hsome
    obtain ⟨n, hn⟩ := Option.isSome_iff_exists.mp hsome
    obtain ⟨hread, hlt⟩ := Option.filter_eq_some_iff.mp hn
    split at hread
    · next hall =>
      cases hread
      exact ⟨List.all_eq_true.mp hall.2, by simpa using hlt⟩
    · cases hread
  · intro hw
    rw [if_pos ⟨hne, List.all_eq_true.mpr hw.digits⟩, Option.filter_some_pos]
    · rfl
    · simpa using hw.fits

/-- A header opens no hunk where one of its numbers is no word. -/
theorem open?_eq_none_iff {h : HunkHeader} (hn : ∀ ds ∈ h.numbers, IsNumeral ds) :
    h.open? = none ↔ ∃ ds ∈ h.numbers, ¬ IsWord ds := by
  have hopen : h.open?.isSome = true ↔
      ∀ ds ∈ h.numbers, (Decimal.readBelow? UInt64.size ds).isSome = true := by
    simp only [HunkHeader.open?, HunkHeader.numbers, List.forall_mem_cons]
    cases Decimal.readBelow? UInt64.size h.oldStart <;>
      cases Decimal.readBelow? UInt64.size h.oldLength <;>
      cases Decimal.readBelow? UInt64.size h.newStart <;>
      cases Decimal.readBelow? UInt64.size h.newLength <;> simp
  rw [← Option.not_isSome_iff_eq_none, hopen]
  push Not
  constructor
  · rintro ⟨ds, hmem, hds⟩
    exact ⟨ds, hmem, fun hw => hds ((isSome_readBelow? (hn ds hmem)).mpr hw)⟩
  · rintro ⟨ds, hmem, hds⟩
    exact ⟨ds, hmem, fun hw => hds ((isSome_readBelow? (hn ds hmem)).mp hw)⟩

/-! ### One line -/

theorem name?_eq_none_of_hunkHeader? {h : HunkHeader} (hh : hunkHeader? line = some h) :
    sourceName? line = none ∧ targetName? line = none := by
  simp only [hunkHeader?, Option.bind_eq_bind, Option.bind_eq_some_iff] at hh
  obtain ⟨r, hr, -⟩ := hh
  obtain rfl := Text.dropLead?_eq_some.mp hr
  exact ⟨rfl, rfl⟩

theorem sourceName?_eq_none (h : (targetName? line).isSome) : sourceName? line = none := by
  obtain ⟨name, hname⟩ := Option.isSome_iff_exists.mp h
  obtain ⟨r, hr, -⟩ := Option.bind_eq_some_iff.mp hname
  obtain rfl := Text.dropLead?_eq_some.mp hr
  rfl

/-- A target name breaks the reading off where no source name has been read. -/
theorem step_eq_strayTarget (r : Reader) (line : List Char) :
    r.step line = .error .strayTarget ↔ r.hunk = none ∧ r.current = none ∧ r.source = none ∧
      sourceName? line = none ∧ (targetName? line).isSome := by
  rw [Reader.step, sourceName?, targetName?]
  cases r.hunk with
  | some o => simp
  | none =>
    simp only [Reader.readOutside]
    cases name? "--- ".toList line with
    | some source => simp
    | none =>
      cases name? "+++ ".toList line with
      | some target => cases r.current <;> cases r.source <;> simp
      | none =>
        cases hunkHeader? line with
        | none => simp
        | some h => cases r.current <;> cases ho : h.open? <;> simp [ho]

/-- A header breaks the reading off where it opens no hunk in its file. -/
theorem step_eq_numberTooLarge (r : Reader) (line : List Char) :
    r.step line = .error .numberTooLarge ↔ r.hunk = none ∧ r.current.isSome ∧
      ∃ h, hunkHeader? line = some h ∧ h.open? = none := by
  rw [Reader.step]
  cases r.hunk with
  | some o => simp
  | none =>
    simp only [Reader.readOutside]
    cases hh : hunkHeader? line with
    | none =>
      cases name? "--- ".toList line with
      | some source => simp
      | none =>
        cases name? "+++ ".toList line with
        | none => simp
        | some target => cases r.current <;> cases r.source <;> simp
    | some h =>
      obtain ⟨hsource, htarget⟩ := name?_eq_none_of_hunkHeader? hh
      rw [sourceName?] at hsource
      rw [targetName?] at htarget
      rw [hsource, htarget]
      cases r.current <;> cases ho : h.open? <;> simp [ho]

/-! ### The lines before -/

theorem foldlM_eq_error {α β ε : Type} {f : β → α → Except ε β} {l : List α} {b : β} {e : ε} :
    l.foldlM f b = .error e ↔ ∃ before a after b', l = before ++ a :: after ∧
      before.foldlM f b = .ok b' ∧ f b' a = .error e := by
  induction l generalizing b with
  | nil => simp [pure, Except.pure]
  | cons c l ih =>
    rw [List.foldlM_cons]
    cases hc : f b c with
    | error e' =>
      constructor
      · intro h
        cases h
        exact ⟨[], c, l, b, rfl, rfl, hc⟩
      · rintro ⟨before, a, after, b', he, hb, ha⟩
        cases before with
        | nil =>
          cases he
          cases hb
          rw [hc] at ha
          exact ha
        | cons d before =>
          obtain ⟨rfl, -⟩ := List.cons.inj he
          rw [List.foldlM_cons, hc] at hb
          cases hb
    | ok b₁ =>
      have hbind : (Except.ok b₁ >>= fun b' => l.foldlM f b') = l.foldlM f b₁ := rfl
      rw [hbind, ih]
      constructor
      · rintro ⟨before, a, after, b', rfl, hb, ha⟩
        refine ⟨c :: before, a, after, b', rfl, ?_, ha⟩
        rw [List.foldlM_cons, hc]
        exact hb
      · rintro ⟨before, a, after, b', he, hb, ha⟩
        cases before with
        | nil =>
          cases he
          cases hb
          rw [hc] at ha
          cases ha
        | cons d before =>
          obtain ⟨rfl, rfl⟩ := List.cons.inj he
          rw [List.foldlM_cons, hc] at hb
          exact ⟨before, a, after, b', rfl, hb, ha⟩

theorem step_start_of_idle (h : IsIdle line) : Reader.start.step line = .ok Reader.start := by
  have hsource : name? "--- ".toList line = none := h.source
  have htarget : name? "+++ ".toList line = none := h.target
  simp only [Reader.step, Reader.start, Reader.readOutside, hsource, htarget, h.hunk]

theorem foldlM_of_idle (h : ∀ l ∈ before, IsIdle l) :
    before.foldlM Reader.step Reader.start = .ok Reader.start := by
  induction before with
  | nil => rfl
  | cons l before ih =>
    rw [List.foldlM_cons, step_start_of_idle (h l List.mem_cons_self)]
    exact ih fun m hm => h m (List.mem_cons_of_mem l hm)

/-- A source name that has been read stays. -/
theorem source_step (hr : r.step line = .ok r') (hs : r.source.isSome) : r'.source.isSome := by
  rw [Reader.step] at hr
  split at hr
  · obtain rfl := Except.ok.inj hr
    split <;> simpa [Reader.closeHunk] using hs
  · rw [Reader.readOutside] at hr
    repeat' split at hr
    all_goals cases hr
    all_goals simp [hs]

/-- Before the first source name nothing can have been read but idle lines. -/
theorem idle_of_foldlM (h : before.foldlM Reader.step Reader.start = .ok r)
    (hs : r.source = none) : r = Reader.start ∧ ∀ l ∈ before, IsIdle l := by
  induction before with
  | nil =>
    cases h
    exact ⟨rfl, by simp⟩
  | cons l before ih =>
    rw [List.foldlM_cons, bind_eq_ok] at h
    obtain ⟨r₁, hl, h⟩ := h
    -- A source name read at the first line would still be there at the end.
    have hnone : ¬ r₁.source.isSome = true := by
      intro hsome
      have hr := foldlM_keeps (P := fun r => r.source.isSome = true)
        (fun _ _ _ _ hr hstep => source_step hstep hr) hsome h
      simp [hs] at hr
    have hidle : IsIdle l ∧ r₁ = Reader.start := by
      have hout : Reader.start.readOutside l = .ok r₁ := hl
      rw [Reader.readOutside] at hout
      cases hsource : name? "--- ".toList l with
      | some source =>
        rw [hsource] at hout
        cases hout
        exact absurd rfl hnone
      | none =>
        cases htarget : name? "+++ ".toList l with
        | some target =>
          rw [hsource, htarget] at hout
          cases hout
        | none =>
          cases hh : hunkHeader? l with
          | some h =>
            rw [hsource, htarget, hh] at hout
            cases hout
          | none =>
            rw [hsource, htarget, hh] at hout
            cases hout
            exact ⟨⟨hsource, htarget, hh⟩, rfl⟩
    obtain ⟨hidle, rfl⟩ := hidle
    obtain ⟨hr, hbefore⟩ := ih h
    exact ⟨hr, List.forall_mem_cons.mpr ⟨hidle, hbefore⟩⟩

/-- The reading of a text is given up without a report exactly where it breaks off. -/
theorem breaksOff_iff {text : List Char} :
    (read text = .error .strayTarget ∨ read text = .error .numberTooLarge) ↔
      BreaksOff (Text.lines text) := by
  have hread (e : PatchError) : read text = .error e ↔
      (Text.lines text).foldlM Reader.step Reader.start = .error e := by
    rw [read]
    cases (Text.lines text).foldlM Reader.step Reader.start <;>
      simp [bind, Except.bind, pure, Except.pure]
  rw [hread, hread, foldlM_eq_error, foldlM_eq_error]
  constructor
  · rintro (⟨before, line, after, r, he, hr, hstep⟩ | ⟨before, line, after, r, he, hr, hstep⟩)
    · obtain ⟨-, -, hnone, -, htarget⟩ := (step_eq_strayTarget r line).mp hstep
      exact .target he (idle_of_foldlM hr hnone).2 htarget
    · obtain ⟨hhunk, hfile, h, hline, hopen⟩ := (step_eq_numberTooLarge r line).mp hstep
      exact .number he hr hhunk hfile hline
        ((open?_eq_none_iff (isNumeral_of_hunkHeader? hline)).mp hopen)
  · rintro (⟨he, hidle, htarget⟩ | ⟨he, hr, hhunk, hfile, hline, hnumber⟩)
    · left
      exact ⟨_, _, _, _, he, foldlM_of_idle hidle, (step_eq_strayTarget _ _).mpr
        ⟨rfl, rfl, rfl, sourceName?_eq_none htarget, htarget⟩⟩
    · right
      have hopen := (open?_eq_none_iff (isNumeral_of_hunkHeader? hline)).mpr hnumber
      exact ⟨_, _, _, _, he, hr, (step_eq_numberTooLarge _ _).mpr ⟨hhunk, hfile, _, hline, hopen⟩⟩

end Marginalia.Diff.Patch
