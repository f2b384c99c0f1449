import Marginalia.Json.Basic

/-!
Reading typed values out of JSON. A record is an object with one member a field, or the array of
its fields in order; a variant is its name, or an object from its name to its contents.
-/

namespace Marginalia.Json

variable {α : Type}

def uint32? : Json → Option UInt32
  | .int i => if 0 ≤ i ∧ i < UInt32.size then some (UInt32.ofNat i.toNat) else none
  | _ => none

def uint64? : Json → Option UInt64
  | .int i => if 0 ≤ i ∧ i < UInt64.size then some (UInt64.ofNat i.toNat) else none
  | _ => none

def bool? : Json → Option Bool
  | .bool b => some b
  | _ => none

def text? : Json → Option String
  | .text s => some s
  | _ => none

/-- The double nearest to an integer of sixty-four bits. -/
def floatOfInt (i : Int) : Float :=
  if i < 0 then -(UInt64.ofNat i.natAbs).toFloat else (UInt64.ofNat i.natAbs).toFloat

/-- A number as a double; an integer counts as one. -/
def float? : Json → Option Float
  | .int i => some (floatOfInt i)
  | .real x => some x
  | _ => none

/-- A value that may be null. -/
def nullable? (read : Json → Option α) : Json → Option (Option α)
  | .null => some none
  | j => (read j).map some

def items? (read : Json → Option α) : Json → Option (List α)
  | .array xs => xs.mapM read
  | _ => none

/-- The members of a record that are its fields. -/
structure Record where
  /-- Whether the record was written as the array of its fields. -/
  positional : Bool
  fields : List (String × Json)

/-- A record with the given field names. A field written twice is no record, nor is an array
longer than the record. -/
def record? (names : List String) : Json → Option Record
  | .object ms =>
    let known := ms.filter fun m => names.contains m.1
    if (known.map Prod.fst).Nodup then some ⟨false, known⟩ else none
  | .array xs => if xs.length ≤ names.length then some ⟨true, names.zip xs⟩ else none
  | _ => none

/-- A field that has to be there. -/
def Record.field? (r : Record) (k : String) (read : Json → Option α) : Option α :=
  (lookup k r.fields).bind read

/-- A field that stands for a value where it is missing. -/
def Record.fieldOr? (r : Record) (k : String) (default : α) (read : Json → Option α) : Option α :=
  match lookup k r.fields with
  | none => some default
  | some j => read j

/-- Where a value comes from: straight from text, from a settled value, or from inside a record
that a tag tells apart. It decides how variants may be spelled. -/
inductive Origin where
  | text
  | settled
  | tagged
deriving DecidableEq, Repr

/-- A variant's name and what it carries. -/
def variant? : Json → Option (String × Option Json)
  | .text s => some (s, none)
  | .object [(k, v)] => some (k, some v)
  | _ => none

/-- Whether a variant carries nothing: no contents, null, or inside a tagged record an empty
object. -/
def Origin.isEmpty (o : Origin) : Option Json → Bool
  | none => true
  | some .null => true
  | some (.object []) => o == .tagged
  | some _ => false

/-- A variant out of a list of names, none of which carries anything. -/
def Origin.choice? (o : Origin) (choices : List (String × α)) (j : Json) : Option α :=
  match variant? j with
  | some (name, contents) =>
    if o.isEmpty contents then (choices.find? fun c => c.1 == name).map Prod.snd else none
  | none => none

/-- The fields that a variant carries. Out of a settled value they form an object. -/
def Origin.contents? (o : Origin) (names : List String) : Option Json → Option Record
  | some (.array xs) => if o = .settled then none else record? names (.array xs)
  | some j => record? names j
  | none => none

/-- A record told apart by the member `type`, or by the first item of an array: the tag and the
members or items that remain. -/
def tagged? (tag : String) : Json → Option (String × Json)
  | .object ms =>
    match ms.filter fun m => m.1 == tag with
    | [(_, .text name)] => some (name, .object (ms.filter fun m => m.1 != tag))
    | _ => none
  | .array (.text name :: xs) => some (name, .array xs)
  | _ => none

end Marginalia.Json
