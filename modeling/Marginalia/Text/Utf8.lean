import Marginalia.Decimal.Natural

/-!
UTF-8 bytes read as characters. Bytes that are no character are grouped into the longest parts
that could have begun one, so that a lenient reading marks each part once.
-/

namespace Marginalia.Text.Utf8

def isTail (b : UInt8) : Bool := 0x80 ≤ b && b ≤ 0xBF

/-- The six value bits of a byte that follows a first one. -/
def tailBits (b : UInt8) : Nat := b.toNat % 64

/-- Which bytes may follow the first byte of a longer character. -/
def followsLead (lead next : UInt8) : Bool :=
  if lead = 0xE0 then 0xA0 ≤ next && next ≤ 0xBF
  else if lead = 0xED then 0x80 ≤ next && next ≤ 0x9F
  else if lead = 0xF0 then 0x90 ≤ next && next ≤ 0xBF
  else if lead = 0xF4 then 0x80 ≤ next && next ≤ 0x8F
  else isTail next

/-- The character at the front, none for a broken one, and how many bytes after the first
belong to it. -/
def front (lead : UInt8) (rest : List UInt8) : Option Char × Nat :=
  if lead < 0x80 then (some (Char.ofNat lead.toNat), 0)
  else if 0xC2 ≤ lead ∧ lead ≤ 0xDF then
    match rest with
    | b :: _ =>
      if isTail b then (some (Char.ofNat (lead.toNat % 32 * 64 + tailBits b)), 1) else (none, 0)
    | [] => (none, 0)
  else if 0xE0 ≤ lead ∧ lead ≤ 0xEF then
    match rest with
    | b :: r =>
      if followsLead lead b then
        match r with
        | c :: _ =>
          if isTail c then
            (some (Char.ofNat ((lead.toNat % 16 * 64 + tailBits b) * 64 + tailBits c)), 2)
          else (none, 1)
        | [] => (none, 1)
      else (none, 0)
    | [] => (none, 0)
  else if 0xF0 ≤ lead ∧ lead ≤ 0xF4 then
    match rest with
    | b :: r =>
      if followsLead lead b then
        match r with
        | c :: r =>
          if isTail c then
            match r with
            | d :: _ =>
              if isTail d then
                (some (Char.ofNat
                  (((lead.toNat % 8 * 64 + tailBits b) * 64 + tailBits c) * 64 + tailBits d)), 3)
              else (none, 2)
            | [] => (none, 2)
          else (none, 1)
        | [] => (none, 1)
      else (none, 0)
    | [] => (none, 0)
  else (none, 0)

/-- The characters and broken parts of a byte sequence, in order. -/
def parts : List UInt8 → List (Option Char)
  | [] => []
  | b :: r =>
    let f := front b r
    f.1 :: parts (r.drop f.2)
termination_by bs => bs.length

/-- The text of a byte sequence that holds nothing broken. -/
def decode? (bytes : List UInt8) : Option (List Char) := (parts bytes).mapM id

/-- The text of any byte sequence, with U+FFFD for each broken part. -/
def decodeLossy (bytes : List UInt8) : List Char :=
  (parts bytes).map fun c => c.getD '\uFFFD'

/-- A place where bytes are no text. -/
structure Fault where
  index : Nat
  /-- How many bytes are wrong there; none where the bytes end within a character. -/
  length : Option Nat
deriving DecidableEq, Repr

def Fault.message (f : Fault) : String :=
  match f.length with
  | some n =>
    "invalid utf-8 sequence of " ++ Decimal.text n ++ " bytes from index " ++ Decimal.text f.index
  | none => "incomplete utf-8 byte sequence from index " ++ Decimal.text f.index

/-- The first fault of bytes that stand `index` bytes after the beginning. -/
def faultFrom? (index : Nat) : List UInt8 → Option Fault
  | [] => none
  | b :: r =>
    match front b r with
    | (some _, k) => faultFrom? (index + k + 1) (r.drop k)
    | (none, k) =>
      let cut := r.length = k ∧ 0xC2 ≤ b ∧ b ≤ 0xF4
      some ⟨index, if cut then none else some (k + 1)⟩
termination_by bs => bs.length

/-- The text of a byte sequence, or its first fault. -/
def read (bytes : List UInt8) : Except Fault (List Char) :=
  match faultFrom? 0 bytes with
  | some f => .error f
  | none => .ok (decodeLossy bytes)

def encode (s : String) : List UInt8 := s.toUTF8.toList

end Marginalia.Text.Utf8
