import Marginalia.Diff.Wire.Action
import Marginalia.Json.Parser

/-!
Scripts of a review: a table, the actions on it in order, and the answers to the requests that
they lead to.
-/

namespace Marginalia.Diff

/-- An answer kept for a request about a chunk: groups, or the reason why there are none. -/
structure Answer where
  chunk : UInt64
  groups : List Group
  error : Option String
deriving DecidableEq, Repr

def Answer.result (a : Answer) : FetchResult :=
  match a.error with
  | some reason => .error (.network reason)
  | none => .ok ⟨a.groups⟩

structure Script where
  file : File
  groups : List Group
  actions : List Action
  answers : List Answer
deriving DecidableEq, Repr

/-- The first answer about a chunk, taken out of the answers. -/
def takeAnswer (chunk : UInt64) : List Answer → Option (Answer × List Answer)
  | [] => none
  | a :: as =>
    if a.chunk = chunk then some (a, as)
    else (takeAnswer chunk as).map fun (b, rest) => (b, a :: rest)

/-- The answer to a request out of those that are left, and what is left after it. -/
def answer (r : Request) (answers : List Answer) : FetchResult × List Answer :=
  match takeAnswer r.chunk answers with
  | some (a, rest) => (a.result, rest)
  | none => (.error (.chunkNotFound r.chunk), answers)

namespace Script

open Json (uint64? text? nullable? items?)

def answerOfJson? (j : Json) : Option Answer := do
  let r ← Json.record? ["chunk_index", "groups", "error"] j
  let chunk ← r.field? "chunk_index" uint64?
  let groups ← r.fieldOr? "groups" [] (items? (Group.ofJson? .text))
  let error ← r.fieldOr? "error" none (nullable? text?)
  return ⟨chunk, groups, error⟩

/-- An action out of text, which has to be readable in all its parts. -/
def actionOfJson? (level : Nat) (j : Json) : Option Action :=
  if j.isKeepable level then Action.ofJson? j else none

def ofJson? (j : Json) : Option Script := do
  let r ← Json.record? ["context", "groups", "actions", "fragments"] j
  let file ← r.fieldOr? "context" (.new 0 0 0) File.ofJson?
  let groups ← r.fieldOr? "groups" [] (items? (Group.ofJson? .text))
  let actions ← r.fieldOr? "actions" [] (items? (actionOfJson? 2))
  let answers ← r.fieldOr? "fragments" [] (items? answerOfJson?)
  return ⟨file, groups, actions, answers⟩

def parse? (s : String) : Option Script := (Json.parse? s).bind ofJson?

end Script

end Marginalia.Diff
