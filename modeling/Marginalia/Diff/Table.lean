import Marginalia.Diff.Group

/-!
A table of row groups. Rows are addressed by their place in the whole table, where placeholders
count for nothing; an index from that place to group and row is rebuilt whenever groups change.
-/

namespace Marginalia.Diff

/-- The places of all rows, as position of the group and of the row in it. -/
def rowIndex (gs : List Group) : List (Nat × Nat) :=
  gs.zipIdx.flatMap fun (g, i) => (List.range g.rows.length).map fun j => (i, j)

/-- The chunks that have a control to hide them, in table order. -/
def collapsibleChunks (gs : List Group) : List UInt64 :=
  (gs.filter Group.collapsible).map Group.chunk

structure Table where
  groups : List Group
  index : List (Nat × Nat)
  /-- The controls that hide chunks, as of the last refresh. -/
  buttons : List UInt64
deriving DecidableEq, Repr

namespace Table

def ofGroups (gs : List Group) : Table := ⟨gs, rowIndex gs, collapsibleChunks gs⟩

def rowCount (t : Table) : Nat := t.index.length

/-- The rows of all groups, one after another. -/
def rows (t : Table) : List Row := t.groups.flatMap Group.rows

def row? (t : Table) (i : Nat) : Option Row := do
  let (g, r) ← t.index[i]?
  let group ← t.groups[g]?
  group.rows[r]?

def groupOfRow? (t : Table) (i : Nat) : Option Nat := t.index[i]?.map Prod.fst

def line? (t : Table) (i : Nat) : Option UInt32 := (t.row? i).map Row.line

/-- Changes one row in place; no other row and no place changes. -/
def modifyRow (t : Table) (i : Nat) (f : Row → Row) : Table :=
  match t.index[i]? with
  | some (g, r) =>
    { t with groups := t.groups.modify g fun group => { group with rows := group.rows.modify r f } }
  | none => t

def setSelected (t : Table) (i : Nat) (value : Bool) : Table :=
  t.modifyRow i fun r => { r with selected := value }

def setComment (t : Table) (i : Nat) (side : Side) (value : Bool) : Table :=
  t.modifyRow i fun r => { r with comments := r.comments.set side value }

/-- Whether a row has this place. -/
def hasRow (t : Table) (i : Nat) : Bool := (t.row? i).isSome

/-- The places of the selected rows, ascending. -/
def selectedRows (t : Table) : List Nat :=
  (List.range t.rowCount).filter fun i => (t.row? i).any Row.selected

def clearSelected (t : Table) : Table :=
  { t with groups := t.groups.map fun g =>
      { g with rows := g.rows.map fun r => { r with selected := false } } }

/-- The position of a chunk's first placeholder. -/
def placeholder? (t : Table) (chunk : UInt64) : Option Nat :=
  t.groups.findIdx? fun g => g.chunk == chunk && g.isPlaceholder

/-- The position of a chunk's first group with the control that hides it. -/
def collapsible? (t : Table) (chunk : UInt64) : Option Nat :=
  t.groups.findIdx? fun g => g.chunk == chunk && g.collapsible

/-- Other groups in the place of the group at a position. -/
def splice (t : Table) (position : Nat) (gs : List Group) : Table :=
  let groups := t.groups.take position ++ gs ++ t.groups.drop (position + 1)
  { t with groups := groups, index := rowIndex groups }

def removeGroup (t : Table) (position : Nat) : Table :=
  let groups := t.groups.eraseIdx position
  { t with groups := groups, index := rowIndex groups }

def modifyGroup (t : Table) (position : Nat) (f : Group → Group) : Table :=
  { t with groups := t.groups.modify position f }

def refreshButtons (t : Table) : Table := { t with buttons := collapsibleChunks t.groups }

end Table

end Marginalia.Diff
