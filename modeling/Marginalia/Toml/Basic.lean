/-!
TOML values, and the rules by which headers and dotted keys build tables: a table is defined once,
and how it came to be decides what may still go into it.
-/

namespace Marginalia.Toml

/-- How a table came to be. -/
inductive Origin where
  /-- A header of its own. -/
  | header
  /-- A longer header, which names it on the way. -/
  | implied
  /-- A dotted key. -/
  | dotted
  /-- Braces. -/
  | braces
deriving DecidableEq, Repr

inductive Value where
  | text (s : String)
  | int (i : Int)
  | real (x : Float)
  | bool (b : Bool)
  /-- A date, a time or both. -/
  | moment
  | array (xs : List Value)
  | table (origin : Origin) (members : List (String × Value))
  /-- The tables of headers in double brackets; the last one is still open. -/
  | tables (entries : List (List (String × Value)))
deriving Repr

abbrev Members := List (String × Value)

namespace Members

/-- The members with a value at a key, in the place of the value that stood there. -/
def set (ms : Members) (k : String) (v : Value) : Members :=
  if (ms.lookup k).isSome then ms.map fun m => if m.1 = k then (k, v) else m
  else ms ++ [(k, v)]

/-- Changes the table that the keys of a header lead to. A table on the way that is not there is
implied, of a list of tables the last is meant, and nothing goes into braces. -/
def under? (change : Members → Option Members) : List String → Members → Option Members
  | [], ms => change ms
  | k :: ks, ms =>
    match ms.lookup k with
    | none => (under? change ks []).map fun t => ms.set k (.table .implied t)
    | some (.table origin t) =>
      if origin = .braces then none
      else (under? change ks t).map fun t => ms.set k (.table origin t)
    | some (.tables entries) =>
      entries.getLast?.bind fun t =>
        (under? change ks t).map fun t => ms.set k (.tables (entries.dropLast ++ [t]))
    | some _ => none

/-- Puts a value at a dotted key. A table that a header has defined takes none; one that is only
implied is passed through, but the value itself goes into a table of dotted keys. -/
def assign? (v : Value) (takes : Bool) : List String → Members → Option Members
  | [], _ => none
  | [k], ms => if takes ∧ (ms.lookup k).isNone then some (ms ++ [(k, v)]) else none
  | k :: ks, ms =>
    match ms.lookup k with
    | none => (assign? v true ks []).map fun t => ms.set k (.table .dotted t)
    | some (.table .dotted t) => (assign? v true ks t).map fun t => ms.set k (.table .dotted t)
    | some (.table .implied t) => (assign? v false ks t).map fun t => ms.set k (.table .implied t)
    | some (.tables entries) =>
      entries.getLast?.bind fun t =>
        (assign? v false ks t).map fun t => ms.set k (.tables (entries.dropLast ++ [t]))
    | some _ => none

/-- Defines the table of a header's last key, unless it is defined. -/
def define? (k : String) (ms : Members) : Option Members :=
  match ms.lookup k with
  | none => some (ms ++ [(k, .table .header [])])
  | some (.table .implied t) => some (ms.set k (.table .header t))
  | some _ => none

/-- Adds a table to the list of tables at a header's last key. -/
def extend? (k : String) (ms : Members) : Option Members :=
  match ms.lookup k with
  | none => some (ms ++ [(k, .tables [[]])])
  | some (.tables entries) => some (ms.set k (.tables (entries ++ [[]])))
  | some _ => none

end Members

end Marginalia.Toml
