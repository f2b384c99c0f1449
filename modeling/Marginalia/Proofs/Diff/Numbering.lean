import Mathlib.Data.List.Range
import Marginalia.Proofs.Diff.Sides

/-! The line numbers of hunks as they are read: on either side the lines of a hunk are numbered
through from the start that its header states. -/

namespace Marginalia.Diff

def Hunk.start (h : Hunk) : Side → Nat
  | .left => h.oldStart
  | .right => h.newStart

def Hunk.length (h : Hunk) : Side → Nat
  | .left => h.oldLength
  | .right => h.newLength

/-- The lines on either side are numbered through from the start of the hunk there. -/
def Hunk.Numbered (h : Hunk) : Prop :=
  ∀ side, (h.linesOn side).map (·.number? side) =
    (List.range' (h.start side) (h.linesOn side).length).map some

def FilePatch.Numbered (f : FilePatch) : Prop := ∀ h ∈ f.hunks, h.Numbered

namespace Patch

/-- The number that the next line on a side will have. -/
def OpenHunk.next (o : OpenHunk) : Side → Nat
  | .left => o.nextOld
  | .right => o.nextNew

structure OpenHunk.Numbered (o : OpenHunk) : Prop where
  lines : o.hunk.Numbered
  next : ∀ side, o.next side = o.hunk.start side + (o.hunk.linesOn side).length

namespace OpenHunk

variable {o o' : OpenHunk} {l : HunkLine}

theorem numbered_ofHunk {h : Hunk} (hl : h.lines = []) : (ofHunk h).Numbered := by
  have hon (side : Side) : h.linesOn side = [] := by rw [Hunk.linesOn, hl, List.filter_nil]
  constructor
  · intro side
    simp [ofHunk, hon]
  · intro side
    cases side <;> simp [ofHunk, hon, OpenHunk.next, Hunk.start]

/-- A line that bears the next number of each side that it is on keeps the hunk numbered, if these
numbers move on by one. -/
theorem Numbered.push (h : o.Numbered) (ho : o'.hunk = (o.push l).hunk)
    (hl : ∀ side, l.isOn side = true → l.number? side = some (o.next side))
    (hn : ∀ side, o'.next side = o.next side + if l.isOn side then 1 else 0) : o'.Numbered := by
  have hon (side : Side) : o'.hunk.linesOn side =
      o.hunk.linesOn side ++ if l.isOn side then [l] else [] := by
    rw [ho, OpenHunk.push, Hunk.linesOn, List.filter_append, Hunk.linesOn, List.filter_singleton,
      cond_eq_ite]
  have hstart (side : Side) : o'.hunk.start side = o.hunk.start side := by
    rw [ho]
    cases side <;> rfl
  constructor
  · intro side
    rw [hon, hstart]
    cases hs : l.isOn side with
    | false => simpa using h.lines side
    | true =>
      simp only [if_true, List.map_append, h.lines side, List.map_singleton, hl side hs, h.next,
        List.length_append, List.length_singleton, List.range'_1_concat]
  · intro side
    rw [hn, hon, hstart, h.next]
    cases l.isOn side <;> simp [Nat.add_assoc]

/-- Whatever a line of the body looks like, it is worked in as one that bears the next numbers. -/
theorem read_cases (o : OpenHunk) (line : List Char) :
    ∃ l, (o.read line).hunk = (o.push l).hunk ∧
      (∀ side, l.isOn side = true → l.number? side = some (o.next side)) ∧
      ∀ side, (o.read line).next side = o.next side + if l.isOn side then 1 else 0 := by
  have hold (l : HunkLine) : (o.push l).nextOld = o.nextOld := rfl
  have hnew (l : HunkLine) : (o.push l).nextNew = o.nextNew := rfl
  unfold OpenHunk.read
  split
  all_goals
    refine ⟨_, rfl, ?_, ?_⟩ <;> rintro (_ | _) <;>
      simp [HunkLine.isOn, LineKind.isOn, HunkLine.number?, OpenHunk.next, hold, hnew]

theorem Numbered.read (h : o.Numbered) (line : List Char) : (o.read line).Numbered := by
  obtain ⟨l, ho, hl, hn⟩ := o.read_cases line
  exact h.push ho hl hn

end OpenHunk

theorem lines_of_open {h : HunkHeader} {k : Hunk} (hk : h.open? = some k) : k.lines = [] := by
  simp only [HunkHeader.open?, Option.bind_eq_bind, Option.bind_eq_some_iff, Option.pure_def,
    Option.some.injEq] at hk
  obtain ⟨_, -, _, -, _, -, _, -, rfl⟩ := hk
  rfl

/-- All hunks that have been read are numbered, and so is the one that is being read. -/
structure Reader.Numbered (r : Reader) : Prop where
  files : ∀ f ∈ r.files, f.Numbered
  current : ∀ f, r.current = some f → f.Numbered
  hunk : ∀ o, r.hunk = some o → o.Numbered

namespace Reader

variable {r r' : Reader}

theorem numbered_start : start.Numbered :=
  ⟨by simp [start], by simp [start], by simp [start]⟩

theorem Numbered.closeHunk (h : r.Numbered) : r.closeHunk.Numbered := by
  unfold Reader.closeHunk
  split
  · rename_i o ho
    refine ⟨h.files, fun f hf => ?_, by simp⟩
    obtain ⟨f', hf', rfl⟩ := Option.map_eq_some_iff.mp hf
    intro k hk
    rcases List.mem_append.mp hk with hk | hk
    · exact h.current f' hf' k hk
    · rw [List.mem_singleton.mp hk]
      exact (h.hunk o ho).lines
  · exact h

theorem Numbered.closeFile (h : r.Numbered) : r.closeFile.Numbered := by
  refine ⟨fun f hf => ?_, by simp [Reader.closeFile], h.hunk⟩
  rcases List.mem_append.mp hf with hf | hf
  · exact h.files f hf
  · exact h.current f (Option.mem_toList.mp hf)

theorem Numbered.readOutside (h : r.Numbered) {line : List Char}
    (hr : r.readOutside line = .ok r') : r'.Numbered := by
  unfold Reader.readOutside at hr
  split at hr
  · obtain rfl := Except.ok.inj hr
    exact ⟨h.closeFile.files, h.closeFile.current, h.closeFile.hunk⟩
  · split at hr
    · split at hr
      · simp at hr
      · obtain rfl := Except.ok.inj hr
        refine ⟨h.files, fun f hf => ?_, h.hunk⟩
        obtain rfl := Option.some.inj hf
        simp [FilePatch.Numbered]
      · simp at hr
    · split at hr
      · split at hr
        · simp at hr
        · split at hr
          · rename_i k hk
            obtain rfl := Except.ok.inj hr
            refine ⟨h.files, h.current, fun o ho => ?_⟩
            obtain rfl := Option.some.inj ho
            exact OpenHunk.numbered_ofHunk (lines_of_open hk)
          · simp at hr
      · obtain rfl := Except.ok.inj hr
        exact h

theorem Numbered.step (h : r.Numbered) {line : List Char} (hr : r.step line = .ok r') :
    r'.Numbered := by
  unfold Reader.step at hr
  split at hr
  · rename_i o ho
    have hread : ({ r with hunk := some (o.read line) } : Reader).Numbered := by
      refine ⟨h.files, h.current, fun o' ho' => ?_⟩
      obtain rfl := Option.some.inj ho'
      exact (h.hunk o ho).read line
    obtain rfl := Except.ok.inj hr
    split
    · exact hread.closeHunk
    · exact hread
  · exact h.readOutside hr

end Reader

theorem numbered_read {text : List Char} {patches : List FilePatch}
    (h : read text = .ok patches) : ∀ p ∈ patches, p.Numbered := by
  simp only [read, bind_eq_ok, pure, Except.pure, Except.ok.injEq] at h
  obtain ⟨r, hr, rfl⟩ := h
  have hn : r.Numbered :=
    foldlM_keeps (fun line _ r r' hr h => Reader.Numbered.step hr h) Reader.numbered_start hr
  exact hn.closeHunk.closeFile.files

end Patch

end Marginalia.Diff
