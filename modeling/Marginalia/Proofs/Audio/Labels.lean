import Marginalia.Audio.Time
import Marginalia.Proofs.Decimal.Notation
import Marginalia.Proofs.Xml.Lexing

/-! Labels of times. A label shows the minutes, seconds and milliseconds of a clock, so a time is
read back from it up to whole hours, and in full where it lies in the first hour. -/

namespace Marginalia

namespace Decimal

variable {c : Char} {width n : Nat}

theorem isDigit_of_mem_padded (hc : c ∈ padded width n) : Text.isDigit c = true := by
  rcases List.mem_append.mp hc with hc | hc
  · exact isDigit_zeros c hc
  · exact isDigit_of_mem_digits hc

theorem readDigits?_padded (width n : Nat) : readDigits? (padded width n) = some n := by
  have hne : padded width n ≠ [] := List.append_ne_nil_of_right_ne_nil _ (digits_ne_nil n)
  have hvalue : value (padded width n) = n := by
    rw [padded, value_append, value_zeros, value_digits, Nat.zero_mul, Nat.zero_add]
  rw [readDigits?_eq hne fun c hc => isDigit_of_mem_padded hc, hvalue]

end Decimal

namespace Audio

open Attachment (AudioAnchor)
open Decimal (padded readDigits? isDigit_of_mem_padded readDigits?_padded)
open Text (splitAt? isDigit)

/-- The label of a count of milliseconds. A count that no clock reaches is shown as the start. -/
def label (millis : Nat) : List Char := clockText (if millis ≤ clockLimit then millis else 0)

/-- What the minutes, seconds and milliseconds of a label add up to. -/
def readLabel? (cs : List Char) : Option Nat := do
  let (minutes, rest) ← splitAt? [':'] cs
  let (seconds, millis) ← splitAt? ['.'] rest
  return (← readDigits? minutes) * 60000 + (← readDigits? seconds) * 1000 + (← readDigits? millis)

/-- The times of both ends of a span, read from its label. -/
def readFlag? (cs : List Char) : Option (Nat × Nat) := do
  let (start, stop) ← splitAt? " - ".toList cs
  return (← readLabel? start, ← readLabel? stop)

variable {c : Char} {m n : Nat}

theorem notMem_padded (hc : isDigit c = false) (width n : Nat) : c ∉ padded width n := by
  intro hm
  rw [isDigit_of_mem_padded hm] at hc
  cases hc

theorem readLabel?_clockText (m : Nat) : readLabel? (clockText m) = some (m % 3600000) := by
  have hcolon : isDigit ':' = false := by decide
  have hpoint : isDigit '.' = false := by decide
  have hminutes : splitAt? [':'] (clockText m) = some (padded 2 (m / 60000 % 60),
      padded 2 (m / 1000 % 60) ++ '.' :: padded 3 (m % 1000)) := by
    rw [clockText, List.append_assoc, List.cons_append]
    exact splitAt?_single (notMem_padded hcolon _ _)
  have hseconds : splitAt? ['.'] (padded 2 (m / 1000 % 60) ++ '.' :: padded 3 (m % 1000)) =
      some (padded 2 (m / 1000 % 60), padded 3 (m % 1000)) :=
    splitAt?_single (notMem_padded hpoint _ _)
  have hsum : m / 60000 % 60 * 60000 + m / 1000 % 60 * 1000 + m % 1000 = m % 3600000 := by omega
  simp only [readLabel?, hminutes, hseconds, readDigits?_padded, hsum, Option.bind_eq_bind,
    Option.bind_some, Option.pure_def]

theorem space_notMem_clockText (m : Nat) : ' ' ∉ clockText m := by
  have hpadded := notMem_padded (c := ' ') (by decide)
  simp [clockText, hpadded]

theorem label_of_le (h : m ≤ clockLimit) : label m = clockText m := by rw [label, if_pos h]

theorem label_of_lt (h : clockLimit < m) : label m = clockText 0 := by
  rw [label, if_neg (Nat.not_le.mpr h)]

theorem readLabel?_label (h : m ≤ clockLimit) : readLabel? (label m) = some (m % 3600000) := by
  rw [label_of_le h, readLabel?_clockText]

theorem readLabel?_label_of_lt (h : m < 3600000) : readLabel? (label m) = some m := by
  have hlimit : m ≤ clockLimit := by
    unfold clockLimit
    omega
  rw [readLabel?_label hlimit, Nat.mod_eq_of_lt h]

theorem timestamp_eq_label (t : Float) : timestamp t = label (milliseconds t) := rfl

theorem readFlag?_labels {x y : Nat} (hx : readLabel? (label m) = some x)
    (hy : readLabel? (label n) = some y) :
    readFlag? (label m ++ " - ".toList ++ label n) = some (x, y) := by
  have hsplit : splitAt? " - ".toList (label m ++ " - ".toList ++ label n) =
      some (label m, label n) := by
    rw [List.append_assoc]
    exact splitAt?_lead (space_notMem_clockText _)
  simp only [readFlag?, hsplit, hx, hy, Option.bind_eq_bind, Option.bind_some, Option.pure_def]

/-- Two times that a clock reaches have one label only if they are whole hours apart. -/
theorem mod_eq_of_label_eq (hm : m ≤ clockLimit) (hn : n ≤ clockLimit) (h : label m = label n) :
    m % 3600000 = n % 3600000 := by
  have hread := congrArg readLabel? h
  rw [readLabel?_label hm, readLabel?_label hn] at hread
  exact Option.some.inj hread

/-- A time in the first hour is read back from its label, and from the label of a span where it is
an end. No two times that a clock reaches have one label, unless they are whole hours apart. -/
theorem label_reads_back :
    (∀ m, m < 3600000 → readLabel? (label m) = some m) ∧
    (∀ m n, m ≤ clockLimit → n ≤ clockLimit → label m = label n →
      m % 3600000 = n % 3600000) ∧
    (∀ m, clockLimit < m → label m = "00:00.000".toList) ∧
    (∀ t : Float, timestamp t = label (milliseconds t)) ∧
    ∀ a : AudioAnchor, milliseconds (a.start.getD 0) < 3600000 →
      milliseconds (a.stop.getD 0) < 3600000 → readFlag? (flagText a).toList =
        some (milliseconds (a.start.getD 0), milliseconds (a.stop.getD 0)) := by
  refine ⟨fun m h => readLabel?_label_of_lt h, fun m n hm hn h => mod_eq_of_label_eq hm hn h,
    fun m h => ?_, timestamp_eq_label, fun a hstart hstop => ?_⟩
  · rw [label_of_lt h]
    decide +kernel
  · rw [flagText, String.toList_ofList]
    exact readFlag?_labels (readLabel?_label_of_lt hstart) (readLabel?_label_of_lt hstop)

/-- The last millisecond of the first hour, a time close to it past the full hour, and one that is
hours away. -/
theorem label_reads_back_around_hour :
    3599999 < 3600000 ∧ readLabel? (label 3599999) = some 3599999 ∧
      label 3599999 = "59:59.999".toList ∧ label 3600001 = "00:00.001".toList ∧
      label 3599999 ≠ label 3600001 ∧ label 3599999 ≠ label 10800001 := by
  refine ⟨by decide, label_reads_back.1 3599999 (by decide), by decide +kernel, by decide +kernel,
    fun h => ?_, fun h => ?_⟩
  · have hmod := label_reads_back.2.1 3599999 3600001 (by decide) (by decide) h
    exact absurd hmod (by decide)
  · have hmod := label_reads_back.2.1 3599999 10800001 (by decide) (by decide) h
    exact absurd hmod (by decide)

/-- The first second past the last one of a clock has the label of the start, and so has an hour. -/
theorem label_past_clock :
    label 8210266876801000 = label 0 ∧ label 3600000 = label 0 ∧
      ¬ ∀ m, readLabel? (label m) = some m := by
  have hlimit : label 8210266876801000 = label 0 := by decide +kernel
  refine ⟨hlimit, by decide +kernel, fun h => ?_⟩
  have hread := h 8210266876801000
  rw [hlimit, h 0] at hread
  exact absurd hread (by decide)

end Audio

end Marginalia
