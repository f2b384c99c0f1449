import Marginalia.Diff.Expansion
import Marginalia.Diff.Selector

/-!
The review of one file: its table, the selection in it and the requests made out for it. An
action changes the session and says what the surroundings have to do.
-/

namespace Marginalia.Diff

/-- What a reviewer does at the table. -/
inductive Action where
  | pointerEnter (cell : Cell)
  | pointerLeave (cell : Cell) (onto : Option Cell)
  | pointerDown (cell : Cell)
  | pointerUp (cell : Cell)
  | expand (chunk : UInt64) (reveal : Reveal)
  | collapse (chunk : UInt64)
deriving DecidableEq, Repr

def Action.isPointer : Action → Bool
  | .pointerEnter _ | .pointerLeave _ _ | .pointerDown _ | .pointerUp _ => true
  | .expand _ _ | .collapse _ => false

def Action.isExpansion (a : Action) : Bool := !a.isPointer

/-- What the surroundings are asked to do. -/
inductive Event where
  /-- A new comment is to be written. -/
  | openEditor (file : File) (span : Span)
  /-- A comment that exists is to be opened. -/
  | openExisting (row : UInt64) (side : Side) (line : UInt32)
  | requestFragment (request : Request)
  /-- A chunk was expanded or hidden. -/
  | expansionChanged
deriving DecidableEq, Repr

structure Session where
  file : File
  table : Table
  selector : Selector
  requests : RequestCounter
deriving DecidableEq, Repr

namespace Session

def new (file : File) (table : Table) : Session := ⟨file, table, .idle, .zero⟩

/-- Nothing selected and nothing under the pointer. -/
def resetSelection (s : Session) : Session :=
  { s with selector := .idle, table := s.table.clearSelected }

def pointTo (s : Session) (r : Selector × Table) : Session :=
  { s with selector := r.1, table := r.2 }

def releaseEvents (s : Session) : Option Release → List Event
  | some (.create span) => [.openEditor s.file span]
  | some (.openExisting row side line) => [.openExisting row side line]
  | none => []

/-- A request counts and is sent; a control without a target does nothing. -/
def send (s : Session) : Except ExpansionError (RequestCounter × Request) → Session × List Event
  | .ok (c, r) => ({ s with requests := c }, [.requestFragment r])
  | .error _ => (s, [])

def handle (s : Session) : Action → Session × List Event
  | .pointerEnter c => (s.pointTo (s.selector.enter s.table c), [])
  | .pointerLeave _ onto => (s.pointTo (s.selector.leave s.table onto), [])
  | .pointerDown c => (s.pointTo (s.selector.press s.table c), [])
  | .pointerUp c => (s.resetSelection, s.releaseEvents (s.selector.release? s.table c))
  | .expand chunk reveal => s.send (s.requests.expand s.table chunk reveal)
  | .collapse chunk => s.send (s.requests.collapse s.table chunk)

/-- Works an answer in. Rows move, so nothing stays selected; a refused answer changes nothing. -/
def applyFragment (s : Session) (r : Request) (result : FetchResult) :
    Except ExpansionError (Session × List Event) :=
  match s.table.applyFragment r result with
  | .ok (t, _) => .ok ({ s with table := t }.resetSelection, [.expansionChanged])
  | .error e => .error e

def setComment (s : Session) (row : Nat) (side : Side) (value : Bool) : Session :=
  { s with table := s.table.setComment row side value }

end Session

end Marginalia.Diff
