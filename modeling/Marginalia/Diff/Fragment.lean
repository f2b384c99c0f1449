import Marginalia.Diff.Table

/-!
Requests for the lines of a chunk and the fragments that answer them.
-/

namespace Marginalia.Diff

/-- The groups that take the place of a chunk's group. -/
structure Fragment where
  groups : List Group
deriving DecidableEq, Repr

structure Request where
  id : UInt64
  chunk : UInt64
  extent : Extent
deriving DecidableEq, Repr

def Request.isCollapse (r : Request) : Bool := r.extent == .hidden

/-- Why no fragment came back. -/
inductive FetchError where
  | chunkNotFound (chunk : UInt64)
  | network (reason : String)
  | invalid (reason : String)
  | unavailable (reason : String)
deriving DecidableEq, Repr

def FetchError.message : FetchError → String
  | .chunkNotFound n => "Chunk not found: " ++ Decimal.text n.toNat
  | .network s => "Network error: " ++ s
  | .invalid s => "Invalid fragment: " ++ s
  | .unavailable s => "Fragment fetcher unavailable: " ++ s

abbrev FetchResult := Except FetchError Fragment

/-- Where fragments come from. -/
inductive FragmentSource where
  | disabled
  /-- From answers that were written down before. -/
  | scripted
deriving DecidableEq, Repr

/-- Whether chunks can be expanded at all. -/
def FragmentSource.isAvailable (s : FragmentSource) : Bool := s != .disabled

/-- What a table without a source of fragments answers. -/
def FetchResult.disabled : FetchResult := .error (.unavailable "Chunk expansion is disabled")

/-- Why a chunk was not expanded or hidden. -/
inductive ExpansionError where
  /-- The chunk has no placeholder to expand. -/
  | notCollapsed (chunk : UInt64)
  /-- The chunk has no control that hides it. -/
  | notExpanded (chunk : UInt64)
  /-- The group that an answer was meant for has gone. -/
  | gone (chunk : UInt64)
  /-- The answer holds no groups. -/
  | emptyFragment (chunk : UInt64)
  | fetch (chunk : UInt64) (cause : FetchError)
deriving DecidableEq, Repr

def ExpansionError.message : ExpansionError → String
  | .notCollapsed n => "Chunk " ++ Decimal.text n.toNat ++ " is not collapsed"
  | .notExpanded n => "Chunk " ++ Decimal.text n.toNat ++ " is not expanded"
  | .gone n => "Chunk " ++ Decimal.text n.toNat ++ " is no longer in the table"
  | .emptyFragment n => "Empty fragment returned for chunk " ++ Decimal.text n.toNat
  | .fetch n cause =>
    "Failed to fetch fragment for chunk " ++ Decimal.text n.toNat ++ ": " ++ cause.message

end Marginalia.Diff
