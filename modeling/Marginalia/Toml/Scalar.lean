import Marginalia.Decimal.Real
import Marginalia.Decimal.Shortest
import Marginalia.Toml.Basic

/-!
Values of TOML that stand without quotes: truth values, numbers, dates and times.
-/

namespace Marginalia.Toml

/-- A row of digits with single underscores between them, read without the underscores. -/
def spaced? (isDigit : Char → Bool) : List Char → Option (List Char)
  | [] => none
  | [c] => if isDigit c then some [c] else none
  | c :: '_' :: r => if isDigit c then (spaced? isDigit r).map (c :: ·) else none
  | c :: r => if isDigit c then (spaced? isDigit r).map (c :: ·) else none

/-- The digits of a whole part, which has no leading zero. -/
def wholePart? (cs : List Char) : Option (List Char) :=
  (spaced? Text.isDigit cs).filter fun ds => ds.head? ≠ some '0' || ds.length = 1

/-- The number of a row of digits in a base. -/
def inBase? (base : Nat) (cs : List Char) : Option Nat := do
  let isDigit := fun c => ((Text.hexValue? c).filter (· < base)).isSome
  let ds ← spaced? isDigit cs
  let vs ← ds.mapM Text.hexValue?
  return vs.foldl (fun n v => n * base + v) 0

/-- An integer without its sign; only one that has none may be written in another base than
ten. -/
def magnitude? (signed : Bool) : List Char → Option Nat
  | '0' :: 'x' :: r => if signed then none else inBase? 16 r
  | '0' :: 'o' :: r => if signed then none else inBase? 8 r
  | '0' :: 'b' :: r => if signed then none else inBase? 2 r
  | cs => (wholePart? cs).map Decimal.value

/-- The exponent of a real number, its mark already read. -/
def exponent? : List Char → Option Int
  | '-' :: r => (spaced? Text.isDigit r).map fun ds => -(Decimal.value ds : Int)
  | '+' :: r => (spaced? Text.isDigit r).map fun ds => (Decimal.value ds : Int)
  | r => (spaced? Text.isDigit r).map fun ds => (Decimal.value ds : Int)

/-- A text cut at its first exponent mark. -/
def splitExponent (cs : List Char) : List Char × Option (List Char) :=
  let isMark := fun c => c == 'e' || c == 'E'
  match cs.dropWhile (! isMark ·) with
  | [] => (cs, none)
  | _ :: r => (cs.takeWhile (! isMark ·), some r)

/-- A real number without its sign: a whole part, then a fraction, an exponent or both. A number
beyond the range of doubles is refused. -/
def realMagnitude? (cs : List Char) : Option Float := do
  if cs = ['i', 'n', 'f'] then return 1 / 0
  if cs = ['n', 'a', 'n'] then return 0 / 0
  let (mantissa, mark) := splitExponent cs
  let isPoint := fun c => c == '.'
  let whole ← wholePart? (mantissa.takeWhile (! isPoint ·))
  let fraction ← match mantissa.dropWhile (! isPoint ·) with
    | [] => if mark.isSome then some [] else none
    | _ :: r => spaced? Text.isDigit r
  let e ← match mark with
    | none => some 0
    | some r => exponent? r
  let x := Decimal.nearest (Decimal.value (whole ++ fraction)) (e - fraction.length)
  if Decimal.isFinite x then some x else none

/-- Integers of up to a hundred and twenty-eight bits, signed or not, are taken. -/
def fits (i : Int) : Bool := -Int.ofNat (Nat.pow 2 127) ≤ i && i < Int.ofNat (Nat.pow 2 128)

/-- A number, with an optional sign. -/
def number? (cs : List Char) : Option Value :=
  let (signed, negative, body) := match cs with
    | '-' :: r => (true, true, r)
    | '+' :: r => (true, false, r)
    | _ => (false, false, cs)
  match magnitude? signed body with
  | some n =>
    let i : Int := if negative then -(n : Int) else n
    if fits i then some (.int i) else none
  | none => (realMagnitude? body).map fun x => .real (if negative then -x else x)

/-- A number of two digits within bounds. -/
def isPair (low high : Nat) (a b : Char) : Bool :=
  Text.isDigit a && Text.isDigit b && low ≤ Decimal.value [a, b] && Decimal.value [a, b] ≤ high

/-- The last day of a month. -/
def lastDay (year month : Nat) : Nat :=
  if month = 2 then
    if year % 4 = 0 ∧ (year % 100 ≠ 0 ∨ year % 400 = 0) then 29 else 28
  else if month = 4 ∨ month = 6 ∨ month = 9 ∨ month = 11 then 30
  else 31

/-- What follows a date that exists. -/
def date? : List Char → Option (List Char)
  | y :: e :: a :: r :: '-' :: m :: n :: '-' :: d :: g :: rest =>
    let year := [y, e, a, r]
    if year.all Text.isDigit ∧ isPair 1 12 m n ∧
      isPair 1 (lastDay (Decimal.value year) (Decimal.value [m, n])) d g
    then some rest else none
  | _ => none

/-- What follows the fraction of a second, where there is one. -/
def fraction? : List Char → Option (List Char)
  | '.' :: r => if (r.takeWhile Text.isDigit).isEmpty then none else some (r.dropWhile Text.isDigit)
  | r => some r

/-- What follows a time of day; its seconds may be left out, and there may be a leap second. -/
def time? : List Char → Option (List Char)
  | h :: i :: ':' :: m :: n :: ':' :: s :: t :: r =>
    if isPair 0 23 h i ∧ isPair 0 59 m n ∧ isPair 0 60 s t then fraction? r else none
  | h :: i :: ':' :: m :: n :: r => if isPair 0 23 h i ∧ isPair 0 59 m n then some r else none
  | _ => none

/-- Whether a text is nothing, or the distance of a time from the universal one. -/
def isOffset : List Char → Bool
  | [] => true
  | [z] => z == 'Z' || z == 'z'
  | [s, h, i, ':', m, n] => (s == '+' || s == '-') && isPair 0 23 h i && isPair 0 59 m n
  | _ => false

/-- Whether a text is a date, a time, or a date and a time with or without an offset. -/
def isMoment (cs : List Char) : Bool :=
  match date? cs with
  | some [] => true
  | some (c :: r) => (c == 'T' || c == 't' || c == ' ') && (time? r).any isOffset
  | none => time? cs == some []

/-- Whether a character ends a value without quotes. -/
def endsScalar (c : Char) : Bool := " \t\r\n,[]\x7b\x7d=#\"'".toList.contains c

/-- A value without quotes at the front, and what follows it. A blank goes on with a date where a
time comes after it. -/
def scalar? (cs : List Char) : Option (Value × List Char) :=
  let word := cs.takeWhile (! endsScalar ·)
  let rest := cs.dropWhile (! endsScalar ·)
  if word = "true".toList then some (.bool true, rest)
  else if word = "false".toList then some (.bool false, rest)
  else
    match number? word with
    | some v => some (v, rest)
    | none =>
      match date? word, rest with
      | some [], ' ' :: r =>
        let clock := r.takeWhile (! endsScalar ·)
        if isMoment (word ++ ' ' :: clock) then some (.moment, r.dropWhile (! endsScalar ·))
        else some (.moment, rest)
      | _, _ => if isMoment word then some (.moment, rest) else none

end Marginalia.Toml
