import Marginalia.Decimal.Natural

/-!
Real numerals read as doubles, rounded to the nearest.
-/

namespace Marginalia.Decimal

/-- The double nearest to `mantissa * 10 ^ exponent`. A magnitude far beyond the range of doubles
is decided before any power is taken. -/
def nearest (mantissa : Nat) (exponent : Int) : Float :=
  if mantissa = 0 then 0
  else
    let magnitude : Int := exponent + (digits mantissa).length
    if magnitude > 400 then 1 / 0
    else if magnitude < -400 then 0
    else Float.ofScientific mantissa (exponent < 0) exponent.natAbs

/-- The parts of a numeral before its exponent: the digits before and after the point, and the
rest. -/
def splitMantissa (cs : List Char) : List Char × List Char × List Char :=
  let whole := cs.takeWhile Text.isDigit
  match cs.dropWhile Text.isDigit with
  | '.' :: r => (whole, r.takeWhile Text.isDigit, r.dropWhile Text.isDigit)
  | r => (whole, [], r)

/-- An exponent with its mark, read to the end; nothing at all stands for zero. -/
def readExponent? : List Char → Option Int
  | [] => some 0
  | c :: r =>
    if c = 'e' ∨ c = 'E' then
      match r with
      | '-' :: ds => (readDigits? ds).map fun n => -(n : Int)
      | '+' :: ds => (readDigits? ds).map fun n => (n : Int)
      | ds => (readDigits? ds).map fun n => (n : Int)
    else none

/-- A numeral without a sign: digits with an optional point and exponent, or one of the words
for infinity and for no number, in letters of either case. -/
def readUnsigned? (cs : List Char) : Option Float :=
  let word := cs.map Text.lower
  if word = "inf".toList ∨ word = "infinity".toList then some (1 / 0)
  else if word = "nan".toList then some (0 / 0)
  else
    let (whole, fraction, rest) := splitMantissa cs
    if whole = [] ∧ fraction = [] then none
    else (readExponent? rest).map fun e => nearest (value (whole ++ fraction)) (e - fraction.length)

/-- A real numeral with an optional sign. -/
def readReal? : List Char → Option Float
  | '-' :: r => (readUnsigned? r).map fun x => -x
  | '+' :: r => readUnsigned? r
  | cs => readUnsigned? cs

end Marginalia.Decimal
