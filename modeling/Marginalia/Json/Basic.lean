import Marginalia.Decimal.Notation

/-!
JSON values. An object keeps its members as they were written, in order and with repeated keys;
`Json.settled?` is the form of a free value, with one member a key, sorted by key.
-/

namespace Marginalia

/-- A JSON value. `unreadable` is a literal that is well formed and names no value: a number
beyond the range of doubles, or a text with half of a surrogate pair. -/
inductive Json where
  | null
  | bool (b : Bool)
  | int (i : Int)
  | real (x : Float)
  | text (s : String)
  | array (items : List Json)
  | object (members : List (String × Json))
  | unreadable
deriving Inhabited

namespace Json

/-- Inserts a member into a list sorted by key; a member with the same key gives way to it. -/
def insertMember (k : String) (v : Json) : List (String × Json) → List (String × Json)
  | [] => [(k, v)]
  | (k', v') :: ms =>
    if k < k' then (k, v) :: (k', v') :: ms
    else if k = k' then (k, v) :: ms
    else (k', v') :: insertMember k v ms

/-- Members sorted by key, the last one of each key. -/
def sortMembers (ms : List (String × Json)) : List (String × Json) :=
  ms.foldl (fun acc m => insertMember m.1 m.2 acc) []

mutual
/-- A free value: members sorted by key and the last of each key kept, at all depths. There is
none where the value holds something unreadable. -/
def settled? : Json → Option Json
  | .array xs => (settledItems? xs).map .array
  | .object ms => (settledMembers? ms).map fun ms => .object (sortMembers ms)
  | .unreadable => none
  | .null => some .null
  | .bool b => some (.bool b)
  | .int i => some (.int i)
  | .real x => some (.real x)
  | .text s => some (.text s)
def settledItems? : List Json → Option (List Json)
  | [] => some []
  | x :: xs => do
    let x ← settled? x
    let xs ← settledItems? xs
    return x :: xs
def settledMembers? : List (String × Json) → Option (List (String × Json))
  | [] => some []
  | (k, v) :: ms => do
    let v ← settled? v
    let ms ← settledMembers? ms
    return (k, v) :: ms
end

mutual
/-- How many arrays and objects stand inside one another. -/
def depth : Json → Nat
  | .array xs => itemsDepth xs + 1
  | .object ms => membersDepth ms + 1
  | .null | .bool _ | .int _ | .real _ | .text _ | .unreadable => 0
def itemsDepth : List Json → Nat
  | [] => 0
  | x :: xs => max (depth x) (itemsDepth xs)
def membersDepth : List (String × Json) → Nat
  | [] => 0
  | (_, v) :: ms => max (depth v) (membersDepth ms)
end

/-- The deepest nesting of a value that is kept as it is. -/
def depthLimit : Nat := 127

/-- Whether a value can be kept as it is, where `level` arrays and objects stand around it: all
of it is readable, and it is not nested too deep. -/
def isKeepable (level : Nat) (j : Json) : Bool :=
  (settled? j).isSome && level + j.depth ≤ depthLimit

/-- The member with a key, in a list without repeated keys. -/
def lookup (k : String) (ms : List (String × Json)) : Option Json :=
  (ms.find? fun m => m.1 == k).map Prod.snd

/-- The member of an object with a key. -/
def get? (j : Json) (k : String) : Option Json :=
  match j with
  | .object ms => lookup k ms
  | _ => none

/-- A value of an optional field. -/
def ofOption {α : Type} (f : α → Json) : Option α → Json
  | none => .null
  | some a => f a

def ofNat (n : Nat) : Json := .int n

def ofUInt32 (n : UInt32) : Json := .int n.toNat

def ofUInt64 (n : UInt64) : Json := .int n.toNat

end Json

end Marginalia
