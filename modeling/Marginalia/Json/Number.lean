import Marginalia.Json.Basic

/-!
Number literals. An integer that fits sixty-four bits stays exact. Any other number is read with
as many of its leading digits as a word of sixty-four bits holds and is then scaled by a power
of ten, so its last bit may differ from that of the nearest double.
-/

namespace Marginalia.Json.Number

/-- The digits that a word still takes after `n`: the number so far, how many were taken, and
what follows them. -/
def absorb (n : Nat) : List Char → Nat × Nat × List Char
  | [] => (n, 0, [])
  | c :: cs =>
    let m := n * 10 + Decimal.digitValue c
    if Text.isDigit c ∧ m < UInt64.size then
      let (k, taken, rest) := absorb m cs
      (k, taken + 1, rest)
    else (n, 0, c :: cs)

/-- A power of ten as a double. -/
def power (e : Nat) : Float := Float.ofScientific 1 false e

/-- `x * 10 ^ e` in steps that a double can take; none beyond the range. -/
def scale : Nat → Float → Int → Option Float
  | 0, x, _ => some x
  | fuel + 1, x, e =>
    if e.natAbs ≤ 308 then
      if 0 ≤ e then
        let y := x * power e.natAbs
        if Decimal.isFinite y then some y else none
      else some (x / power e.natAbs)
    else if x == 0 then some x
    else if 0 ≤ e then none
    else scale fuel (x / power 308) (e + 308)

/-- A literal's parts after its sign. -/
structure Literal where
  /-- The leading digits that a word takes, and the power of ten they are scaled by. -/
  significand : Nat
  exponent : Int
  /-- Whether the literal is a row of digits that the word takes whole. -/
  whole : Bool

/-- The exponent of a literal, its mark already read. Past thirty-one bits its exact size does
not matter. -/
def scanExponent : List Char → Option (Int × List Char)
  | cs =>
    let (sign, body) : Int × List Char := match cs with
      | '+' :: r => (1, r)
      | '-' :: r => (-1, r)
      | r => (1, r)
    let ds := body.takeWhile Text.isDigit
    if ds = [] then none
    else some (sign * (Decimal.value ds : Int), body.dropWhile Text.isDigit)

/-- The parts of a literal without its sign, and what follows it. -/
def scan (cs : List Char) : Option (Literal × List Char) := do
  let ds := cs.takeWhile Text.isDigit
  if ds = [] then none
  if ds.head? = some '0' ∧ ds.length ≠ 1 then none
  let (n, _, extra) := absorb 0 ds
  let rest := cs.dropWhile Text.isDigit
  match rest with
  | '.' :: r =>
    let fs := r.takeWhile Text.isDigit
    if fs = [] then none
    let (n, taken, _) := absorb n fs
    let e : Int := extra.length - taken
    match r.dropWhile Text.isDigit with
    | c :: r =>
      if c = 'e' ∨ c = 'E' then
        let (x, r) ← scanExponent r
        return (⟨n, e + x, false⟩, r)
      else return (⟨n, e, false⟩, c :: r)
    | [] => return (⟨n, e, false⟩, [])
  | c :: r =>
    if c = 'e' ∨ c = 'E' then
      let (x, r) ← scanExponent r
      return (⟨n, extra.length + x, false⟩, r)
    else return (⟨n, extra.length, extra = []⟩, c :: r)
  | [] => return (⟨n, extra.length, extra = []⟩, [])

/-- The value of a literal with its sign. -/
def Literal.value (negative : Bool) (l : Literal) : Json :=
  let float (m : Nat) (e : Int) : Json :=
    match scale 8 (UInt64.ofNat m).toFloat e with
    | some x => .real (if negative then -x else x)
    | none => .unreadable
  if l.whole then
    if negative then
      if l.significand = 0 ∨ Nat.pow 2 63 < l.significand then float l.significand 0
      else .int (-(l.significand : Int))
    else .int l.significand
  else float l.significand l.exponent

/-- A number literal at the front of a text, and what follows it. -/
def read : List Char → Option (Json × List Char)
  | '-' :: cs => (scan cs).map fun (l, r) => (l.value true, r)
  | cs => (scan cs).map fun (l, r) => (l.value false, r)

end Marginalia.Json.Number
