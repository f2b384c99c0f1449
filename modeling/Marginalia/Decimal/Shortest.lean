import Marginalia.Decimal.Natural

/-!
The shortest decimal that reads back as a given double: of all decimals in the interval of reals
that round to the double, one with the fewest digits, and of those the nearest to it.
-/

namespace Marginalia.Decimal

/-- Whether a double is a number: not infinite, and not the result of a failed operation. -/
def isFinite (x : Float) : Bool := x.toBits.toNat / Nat.pow 2 52 % 2048 ≠ 2047

/-- A finite double without its sign, as `mantissa * 2 ^ exponent`, with whether the gap below
it is half the gap above. -/
structure Binary where
  mantissa : Nat
  exponent : Int
  narrowBelow : Bool

/-- The parts of the double with the given bits, sign left out. -/
def Binary.ofBits (bits : UInt64) : Binary :=
  let fraction := bits.toNat % Nat.pow 2 52
  let e : Nat := bits.toNat / Nat.pow 2 52 % 2048
  if e = 0 then ⟨fraction, -1074, false⟩
  else ⟨Nat.pow 2 52 + fraction, (e : Int) - 1075, fraction = 0 && e > 1⟩

/-- A decimal `digits * 10 ^ exponent`. -/
structure Shortest where
  digits : Nat
  exponent : Int
deriving Repr, DecidableEq

namespace Binary

/-- `4 * b` and the unit `1` scaled alike to whole numbers over the grid of `10 ^ k`: the pair
`(x, u)` stands for the value `x / u` grid steps, times four. -/
def overGrid (b : Binary) (k : Int) : Nat × Nat :=
  let up := Nat.pow 2 b.exponent.toNat
  let down := Nat.pow 2 (-b.exponent).toNat
  (up * Nat.pow 10 (-k).toNat, down * Nat.pow 10 k.toNat)

/-- The point of the grid `10 ^ k` next to the value that rounds to it, if one does; of two the
nearer, of two as near the even one. -/
def hit? (b : Binary) (k : Int) : Option Nat :=
  let (step, unit) := b.overGrid k
  let low := (4 * b.mantissa - if b.narrowBelow then 1 else 2) * step
  let high := (4 * b.mantissa + 2) * step
  let mid := 4 * b.mantissa * step
  let even := b.mantissa % 2 = 0
  let inside (n : Nat) : Bool :=
    let x := 4 * n * unit
    if even then low ≤ x && x ≤ high else low < x && x < high
  let below := mid / (4 * unit)
  let above := below + 1
  let gapBelow := mid - 4 * below * unit
  let gapAbove := 4 * above * unit - mid
  if inside below then
    if inside above && (gapAbove < gapBelow || (gapAbove == gapBelow && below % 2 == 1)) then
      some above
    else some below
  else if inside above then some above
  else none

/-- The first grid with a hit, from `10 ^ k` downwards. -/
def search (b : Binary) : Nat → Int → Shortest
  | 0, k => ⟨0, k⟩
  | fuel + 1, k =>
    match b.hit? k with
    | some n => if n = 0 then b.search fuel (k - 1) else ⟨n, k⟩
    | none => b.search fuel (k - 1)

end Binary

/-- Final zeros of the digits moved into the exponent. -/
def Shortest.stripZeros : Nat → Shortest → Shortest
  | 0, s => s
  | fuel + 1, s =>
    if s.digits ≠ 0 ∧ s.digits % 10 = 0 then stripZeros fuel ⟨s.digits / 10, s.exponent + 1⟩ else s

/-- The shortest decimal of a finite double that is not zero, sign left out. The search starts
above the double's decimal magnitude and ends at the latest with the seventeenth digit. -/
def Shortest.ofBits (bits : UInt64) : Shortest :=
  let b := Binary.ofBits bits
  let magnitude : Int := b.mantissa.log2 + b.exponent + 1
  (b.search 24 (Int.fdiv (magnitude * 30103) 100000 + 1)).stripZeros 24

end Marginalia.Decimal
