import Marginalia.Diff.Fragment

/-!
Expanding and hiding chunks. A request is made out while the table shows its target, and its
answer is worked in whenever it comes: answers may come in any order, and one whose target has
gone leaves the table as it was.
-/

namespace Marginalia.Diff

/-- The requests made out so far; they are numbered from one. -/
structure RequestCounter where
  issued : UInt64
deriving DecidableEq, Repr

namespace RequestCounter

def zero : RequestCounter := ⟨0⟩

def issue (c : RequestCounter) (chunk : UInt64) (extent : Extent) : RequestCounter × Request :=
  (⟨c.issued + 1⟩, ⟨c.issued + 1, chunk, extent⟩)

/-- A request to hide a chunk that has the control for it. -/
def collapse (c : RequestCounter) (t : Table) (chunk : UInt64) :
    Except ExpansionError (RequestCounter × Request) :=
  match t.collapsible? chunk with
  | some _ => .ok (c.issue chunk .hidden)
  | none => .error (.notExpanded chunk)

/-- A request to reveal lines of a chunk that has a placeholder. -/
def expand (c : RequestCounter) (t : Table) (chunk : UInt64) (reveal : Reveal) :
    Except ExpansionError (RequestCounter × Request) :=
  if reveal.isHide then c.collapse t chunk
  else
    match t.placeholder? chunk with
    | some _ => .ok (c.issue chunk reveal.extent)
    | none => .error (.notCollapsed chunk)

end RequestCounter

/-- A range of positions: the first, and the one after the last. -/
structure Positions where
  start : Nat
  stop : Nat
deriving DecidableEq, Repr

namespace Table

/-- The group that the answer to a request takes the place of. -/
def target? (t : Table) (r : Request) : Option Nat :=
  if r.isCollapse then t.collapsible? r.chunk else t.placeholder? r.chunk

/-- Removes the loaded groups of equal lines directly before a position. -/
def absorbBefore (t : Table) : Nat → Table × Nat
  | 0 => (t, 0)
  | n + 1 =>
    if t.groups[n]?.any Group.isMergeable then (t.removeGroup n).absorbBefore n else (t, n + 1)

/-- Removes the loaded groups of equal lines from a position on. The fuel bounds their number. -/
def absorbFrom (t : Table) (position : Nat) : Nat → Table
  | 0 => t
  | fuel + 1 =>
    if t.groups[position]?.any Group.isMergeable then
      (t.removeGroup position).absorbFrom position fuel
    else t

/-- Keeps the first control that hides a chunk among `count` groups from a position on. -/
def keepFirstCollapse (t : Table) (position : Nat) (seen : Bool) : Nat → Table
  | 0 => t
  | count + 1 =>
    let here := t.groups[position]?.any Group.collapsible
    let t := if here then t.modifyGroup position fun g => { g with collapsible := !seen } else t
    t.keepFirstCollapse (position + 1) (seen || here) count

/-- Marks the placeholders among `count` groups from a position on as partly expanded. -/
def markPartly (t : Table) (position : Nat) : Nat → Table
  | 0 => t
  | count + 1 =>
    let mark (g : Group) : Group := if g.isPlaceholder then { g with expansion := .partly } else g
    (t.modifyGroup position mark).markPartly (position + 1) count

/-- Works a fragment in at a position: its groups take the place of the group there, loaded
groups of equal lines on both sides give way, and one control to hide the chunk remains. -/
def insertFragment (t : Table) (position : Nat) (extent : Extent) (f : Fragment) :
    Table × Positions :=
  let count := f.groups.length
  let t := t.splice position f.groups
  let (t, start) := t.absorbBefore position
  let t := t.absorbFrom (start + count) t.groups.length
  let t := t.keepFirstCollapse start false count
  let t := match extent with
    | .ends _ _ => t.markPartly start count
    | _ => t
  (t.refreshButtons, ⟨start, start + count⟩)

/-- Works the answer to a request in. A failed fetch comes before a target that has gone, and
that before an answer without groups. -/
def applyFragment (t : Table) (r : Request) (result : FetchResult) :
    Except ExpansionError (Table × Positions) :=
  match result with
  | .error cause => .error (.fetch r.chunk cause)
  | .ok f =>
    match t.target? r with
    | none => .error (.gone r.chunk)
    | some position =>
      if f.groups = [] then .error (.emptyFragment r.chunk)
      else .ok (t.insertFragment position r.extent f)

end Table

end Marginalia.Diff
