/-!
Sequences of sixteen-bit units read as characters: a unit outside the surrogate range is a
character, a high surrogate and the low one after it are one character, and nothing else is
a text.
-/

namespace Marginalia.Text.Utf16

/-- The order of the two bytes of a unit. -/
inductive Endian where
  | little
  | big
deriving DecidableEq, Repr

/-- The unit that two bytes make. -/
def unit (e : Endian) (a b : UInt8) : Nat :=
  match e with
  | .little => b.toNat * 256 + a.toNat
  | .big => a.toNat * 256 + b.toNat

/-- The units of a byte sequence, none for an odd number of bytes. -/
def units? (e : Endian) : List UInt8 → Option (List Nat)
  | [] => some []
  | [_] => none
  | a :: b :: r => (units? e r).map (unit e a b :: ·)

def isHigh (u : Nat) : Bool := 0xD800 ≤ u && u ≤ 0xDBFF

def isLow (u : Nat) : Bool := 0xDC00 ≤ u && u ≤ 0xDFFF

/-- The character of a surrogate pair. -/
def pair (high low : Nat) : Char :=
  Char.ofNat (0x10000 + (high - 0xD800) * 0x400 + (low - 0xDC00))

def ofUnits? : List Nat → Option (List Char)
  | [] => some []
  | [u] => if isHigh u || isLow u then none else some [Char.ofNat u]
  | u :: v :: r =>
    if isHigh u then
      if isLow v then (ofUnits? r).map (pair u v :: ·) else none
    else if isLow u then none
    else (ofUnits? (v :: r)).map (Char.ofNat u :: ·)

def decode? (e : Endian) (bytes : List UInt8) : Option (List Char) :=
  (units? e bytes).bind ofUnits?

/-- The units of a character: one, or a surrogate pair. -/
def unitsOfChar (c : Char) : List Nat :=
  if c.toNat < 0x10000 then [c.toNat]
  else [0xD800 + (c.toNat - 0x10000) / 0x400, 0xDC00 + (c.toNat - 0x10000) % 0x400]

def bytesOfUnit (e : Endian) (u : Nat) : List UInt8 :=
  match e with
  | .little => [UInt8.ofNat (u % 256), UInt8.ofNat (u / 256)]
  | .big => [UInt8.ofNat (u / 256), UInt8.ofNat (u % 256)]

def encode (e : Endian) (cs : List Char) : List UInt8 :=
  (cs.flatMap unitsOfChar).flatMap (bytesOfUnit e)

end Marginalia.Text.Utf16
