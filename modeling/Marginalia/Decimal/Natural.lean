import Marginalia.Text.Blank

/-!
Natural numbers in decimal: writing them without leading zeros, and reading numerals that fit a
word.
-/

namespace Marginalia.Decimal

def digitChar (d : Nat) : Char := Char.ofNat (48 + d)

def digitValue (c : Char) : Nat := c.toNat - 48

/-- The decimal digits of a number; zero has one. -/
def digits (n : Nat) : List Char :=
  if n < 10 then [digitChar n] else digits (n / 10) ++ [digitChar (n % 10)]
termination_by n

def text (n : Nat) : String := String.ofList (digits n)

/-- Digits preceded by as many zeros as bring them to a width. -/
def padded (width n : Nat) : List Char :=
  let ds := digits n
  List.replicate (width - ds.length) '0' ++ ds

/-- An integer with a minus sign where it is negative. -/
def intText (i : Int) : String :=
  match i with
  | .ofNat n => text n
  | .negSucc n => "-" ++ text (n + 1)

/-- The number that a row of digits stands for. -/
def value (cs : List Char) : Nat := cs.foldl (fun n c => n * 10 + digitValue c) 0

/-- A numeral of one or more ASCII digits. -/
def readDigits? (cs : List Char) : Option Nat :=
  if cs ≠ [] ∧ cs.all Text.isDigit then some (value cs) else none

/-- A numeral below a limit, with an optional plus sign before its digits. -/
def readBelow? (limit : Nat) (cs : List Char) : Option Nat :=
  let body := match cs with
    | '+' :: r => r
    | _ => cs
  (readDigits? body).filter (· < limit)

def readUInt32? (cs : List Char) : Option UInt32 :=
  (readBelow? UInt32.size cs).map UInt32.ofNat

def readUInt64? (cs : List Char) : Option UInt64 :=
  (readBelow? UInt64.size cs).map UInt64.ofNat

end Marginalia.Decimal
