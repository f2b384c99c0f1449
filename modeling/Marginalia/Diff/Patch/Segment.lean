import Marginalia.Diff.Patch.Basic

/-!
The segments of a hunk: runs of context, and changes, each a run of removed lines with the run of
added lines that follows it. Remarks are no part of a segment.
-/

namespace Marginalia.Diff

inductive Segment where
  | equal (lines : List HunkLine)
  | change (removed added : List HunkLine)
deriving DecidableEq, Repr

namespace Segment

def isKind (k : LineKind) (l : HunkLine) : Bool := l.kind == k

/-- The segments of lines without remarks. -/
def ofLines : List HunkLine → List Segment
  | [] => []
  | l :: ls =>
    match l.kind with
    | .removed =>
      let removed := ls.takeWhile (isKind .removed)
      let rest := ls.dropWhile (isKind .removed)
      .change (l :: removed) (rest.takeWhile (isKind .added)) ::
        ofLines (rest.dropWhile (isKind .added))
    | .added =>
      .change [] (l :: ls.takeWhile (isKind .added)) :: ofLines (ls.dropWhile (isKind .added))
    | k => .equal (l :: ls.takeWhile (isKind k)) :: ofLines (ls.dropWhile (isKind k))
termination_by ls => ls.length
decreasing_by
  all_goals simp_wf
  · have h₁ := (List.dropWhile_sublist (isKind .added) (l := ls.dropWhile (isKind .removed))).length_le
    have h₂ := (List.dropWhile_sublist (isKind .removed) (l := ls)).length_le
    omega
  · have h := (List.dropWhile_sublist (isKind .added) (l := ls)).length_le
    omega
  · have h := (List.dropWhile_sublist (isKind k) (l := ls)).length_le
    omega

/-- Two lists side by side; the shorter one leaves its places empty. -/
def sideBySide {α β : Type} : List α → List β → List (Option α × Option β)
  | [], bs => bs.map fun b => (none, some b)
  | as, [] => as.map fun a => (some a, none)
  | a :: as, b :: bs => (some a, some b) :: sideBySide as bs

/-- The old and the new line of each row of a segment. -/
def rows : Segment → List (Option HunkLine × Option HunkLine)
  | .equal ls => ls.map fun l => (some l, some l)
  | .change removed added => sideBySide removed added

end Segment

def Hunk.segments (h : Hunk) : List Segment :=
  Segment.ofLines (h.lines.filter fun l => l.kind ≠ .remark)

end Marginalia.Diff
