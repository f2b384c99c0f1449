import Marginalia.Decimal.Shortest

/-!
How a double is written: which magnitudes have a plain positional form, and how the exponent of
the others looks.
-/

namespace Marginalia.Decimal

/-- The choices of a notation for doubles. -/
structure Notation where
  /-- The least and the greatest decimal magnitude written without an exponent. -/
  lowest : Int
  highest : Int
  /-- What follows a whole number written without an exponent. -/
  wholeMark : List Char
  /-- What stands before a positive exponent. -/
  exponentMark : List Char

/-- Positional from `10 ^ -5` to below `10 ^ 16`, always with a fraction or an exponent, and an
exponent always with its sign. -/
def Notation.json : Notation where
  lowest := -5
  highest := 15
  wholeMark := ['.', '0']
  exponentMark := ['e', '+']

/-- The positional form of `digits * 10 ^ exponent`. -/
def Notation.positional (n : Notation) (s : Shortest) : List Char :=
  let ds := Decimal.digits s.digits
  match s.exponent with
  | .ofNat e => ds ++ List.replicate e '0' ++ n.wholeMark
  | .negSucc e =>
    let places := e + 1
    if places < ds.length then
      ds.take (ds.length - places) ++ '.' :: ds.drop (ds.length - places)
    else '0' :: '.' :: List.replicate (places - ds.length) '0' ++ ds

/-- One digit before the point, the others after it, and the exponent. -/
def Notation.scientific (n : Notation) (s : Shortest) (magnitude : Int) : List Char :=
  let mantissa := match Decimal.digits s.digits with
    | d :: (e :: r) => d :: '.' :: e :: r
    | ds => ds
  let exponent := match magnitude with
    | .ofNat e => n.exponentMark ++ Decimal.digits e
    | .negSucc e => 'e' :: '-' :: Decimal.digits (e + 1)
  mantissa ++ exponent

/-- A finite double in a notation. -/
def Notation.write (n : Notation) (x : Float) : List Char :=
  let bits := x.toBits
  let sign := if bits.toNat / Nat.pow 2 63 = 1 then ['-'] else []
  if bits.toNat % Nat.pow 2 63 = 0 then sign ++ '0' :: n.wholeMark
  else
    let s := Shortest.ofBits bits
    let magnitude : Int := s.exponent + (Decimal.digits s.digits).length - 1
    sign ++ (if n.lowest ≤ magnitude ∧ magnitude ≤ n.highest then n.positional s
      else n.scientific s magnitude)

end Marginalia.Decimal
