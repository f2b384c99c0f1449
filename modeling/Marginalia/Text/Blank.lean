/-!
White space of a text, and cutting it off at both ends.
-/

namespace Marginalia.Text

/-- The characters with the Unicode property `White_Space`. -/
def isBlank (c : Char) : Bool :=
  let n := c.toNat
  (9 ≤ n && n ≤ 13) || n == 0x20 || n == 0x85 || n == 0xA0 || n == 0x1680 ||
    (0x2000 ≤ n && n ≤ 0x200A) || n == 0x2028 || n == 0x2029 || n == 0x202F ||
    n == 0x205F || n == 0x3000

/-- The list without the longest final run of members that satisfy `p`. -/
def dropEnd {α : Type} (p : α → Bool) (cs : List α) : List α :=
  (cs.reverse.dropWhile p).reverse

def trimStart (cs : List Char) : List Char := cs.dropWhile isBlank

def trimEnd (cs : List Char) : List Char := dropEnd isBlank cs

def trim (cs : List Char) : List Char := trimEnd (trimStart cs)

/-- A text cut of white space at both ends. -/
def trimmed (s : String) : String := String.ofList (trim s.toList)

/-- A line end of either style, whole or broken, cut off the end. -/
def chomp (cs : List Char) : List Char := dropEnd (fun c => c == '\n' || c == '\r') cs

/-- An ASCII letter turned small; every other character stays. -/
def lower (c : Char) : Char :=
  if 'A' ≤ c ∧ c ≤ 'Z' then Char.ofNat (c.toNat + 32) else c

def isDigit (c : Char) : Bool := '0' ≤ c && c ≤ '9'

def isLetter (c : Char) : Bool := ('a' ≤ c && c ≤ 'z') || ('A' ≤ c && c ≤ 'Z')

/-- The value of a hexadecimal digit of either case. -/
def hexValue? (c : Char) : Option Nat :=
  if isDigit c then some (c.toNat - 48)
  else if 'a' ≤ c ∧ c ≤ 'f' then some (c.toNat - 87)
  else if 'A' ≤ c ∧ c ≤ 'F' then some (c.toNat - 55)
  else none

/-- Takes the first list off the front of the second. -/
def dropLead? {α : Type} [BEq α] : List α → List α → Option (List α)
  | [], s => some s
  | _ :: _, [] => none
  | c :: p, d :: s => if c == d then dropLead? p s else none

def startsWith {α : Type} [BEq α] (p s : List α) : Bool := (dropLead? p s).isSome

/-- The parts before and after the first place where `p` stands. -/
def splitAt? {α : Type} [BEq α] (p : List α) : List α → Option (List α × List α)
  | [] => (dropLead? p []).map fun r => ([], r)
  | c :: s =>
    match dropLead? p (c :: s) with
    | some r => some ([], r)
    | none => (splitAt? p s).map fun (a, b) => (c :: a, b)

/-- The parts before and after the last place where `p` stands. -/
def splitAtLast? {α : Type} [BEq α] (p s : List α) : Option (List α × List α) :=
  (splitAt? p.reverse s.reverse).map fun (b, a) => (a.reverse, b.reverse)

theorem dropLead?_eq_some {α : Type} [BEq α] [LawfulBEq α] {p s r : List α} :
    dropLead? p s = some r ↔ s = p ++ r := by
  induction p generalizing s with
  | nil => simp [dropLead?]
  | cons c p ih =>
    cases s with
    | nil => simp [dropLead?]
    | cons d s =>
      by_cases h : c = d
      · subst h; simp [dropLead?, ih]
      · simp [dropLead?, h, Ne.symm h]

theorem append_eq_of_splitAt? {α : Type} [BEq α] [LawfulBEq α] {p s a b : List α}
    (h : splitAt? p s = some (a, b)) : s = a ++ p ++ b := by
  induction s generalizing a b with
  | nil =>
    cases p with
    | nil => simp [splitAt?, dropLead?] at h; simp [h.1, h.2]
    | cons c p => simp [splitAt?, dropLead?] at h
  | cons c s ih =>
    rw [splitAt?] at h
    split at h
    · next r hr =>
      simp only [Option.some.injEq, Prod.mk.injEq] at h
      obtain ⟨rfl, rfl⟩ := h
      simpa using dropLead?_eq_some.1 hr
    · simp only [Option.map_eq_some_iff, Prod.mk.injEq, Prod.exists] at h
      obtain ⟨a', b', hs, rfl, rfl⟩ := h
      simp [ih hs]

end Marginalia.Text
