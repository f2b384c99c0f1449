import Marginalia.Json.Number

/-!
Reading JSON text: one value with nothing but white space around it.
-/

namespace Marginalia.Json

def isSpace (c : Char) : Bool := c == ' ' || c == '\n' || c == '\t' || c == '\r'

def skipSpace (cs : List Char) : List Char := cs.dropWhile isSpace

/-- The code unit of four hexadecimal digits. -/
def unit? : List Char → Option (Nat × List Char)
  | a :: b :: c :: d :: r => do
    let a ← Text.hexValue? a
    let b ← Text.hexValue? b
    let c ← Text.hexValue? c
    let d ← Text.hexValue? d
    return (((a * 16 + b) * 16 + c) * 16 + d, r)
  | _ => none

/-- The character of a short escape. -/
def shortEscape? : Char → Option Char
  | '"' => some '"'
  | '\\' => some '\\'
  | '/' => some '/'
  | 'b' => some '\x08'
  | 'f' => some '\x0c'
  | 'n' => some '\n'
  | 'r' => some '\r'
  | 't' => some '\t'
  | _ => none

/-- One character of a quoted text. -/
inductive Piece where
  /-- A character, written as itself or as an escape. -/
  | char (c : Char)
  /-- Half of a surrogate pair. -/
  | broken
  /-- The closing quote. -/
  | close

/-- The character that begins at the front of the text between quotes, and what follows it. -/
def piece : List Char → Option (Piece × List Char)
  | '"' :: r => some (.close, r)
  | '\\' :: 'u' :: r => do
    let (u, r) ← unit? r
    if 0xD800 ≤ u ∧ u ≤ 0xDBFF then
      match r with
      | '\\' :: 'u' :: r' =>
        let (v, r'') ← unit? r'
        if 0xDC00 ≤ v ∧ v ≤ 0xDFFF then
          return (.char (Char.ofNat (0x10000 + (u - 0xD800) * 0x400 + (v - 0xDC00))), r'')
        else return (.broken, r)
      | _ => return (.broken, r)
    else if 0xDC00 ≤ u ∧ u ≤ 0xDFFF then return (.broken, r)
    else return (.char (Char.ofNat u), r)
  | '\\' :: c :: r => (shortEscape? c).map fun c => (.char c, r)
  | c :: r => if c.toNat < 0x20 ∨ c = '\\' then none else some (.char c, r)
  | [] => none

/-- The text after an opening quote, none inside where it holds half of a surrogate pair, and
what follows the closing quote. -/
def quotedText : Nat → List Char → Option (Option (List Char) × List Char)
  | 0, _ => none
  | fuel + 1, cs =>
    match piece cs with
    | none => none
    | some (.close, r) => some (some [], r)
    | some (.broken, r) => (quotedText fuel r).map fun (_, r) => (none, r)
    | some (.char c, r) => (quotedText fuel r).map fun (s, r) => (s.map (c :: ·), r)

mutual
/-- A value at the front of a text, and what follows it. The fuel bounds the text's length. -/
def readValue : Nat → List Char → Option (Json × List Char)
  | 0, _ => none
  | fuel + 1, cs =>
    match cs with
    | 'n' :: 'u' :: 'l' :: 'l' :: r => some (.null, r)
    | 't' :: 'r' :: 'u' :: 'e' :: r => some (.bool true, r)
    | 'f' :: 'a' :: 'l' :: 's' :: 'e' :: r => some (.bool false, r)
    | '"' :: r =>
      (quotedText (r.length + 1) r).map fun (s, r) =>
        (match s with
          | some s => .text (String.ofList s)
          | none => .unreadable, r)
    | '[' :: r =>
      match skipSpace r with
      | ']' :: r => some (.array [], r)
      | r => (readItems fuel r).map fun (xs, r) => (.array xs, r)
    | '\x7b' :: r =>
      match skipSpace r with
      | '\x7d' :: r => some (.object [], r)
      | r => (readMembers fuel r).map fun (ms, r) =>
        (match ms with
          | some ms => .object ms
          | none => .unreadable, r)
    | cs => Number.read cs
/-- The values of an array up to and with its bracket. -/
def readItems : Nat → List Char → Option (List Json × List Char)
  | 0, _ => none
  | fuel + 1, cs =>
    match readValue fuel cs with
    | none => none
    | some (x, r) =>
      match skipSpace r with
      | ',' :: r => (readItems fuel (skipSpace r)).map fun (xs, r) => (x :: xs, r)
      | ']' :: r => some ([x], r)
      | _ => none
/-- The members of an object up to and with its brace, none inside where a key is unreadable. -/
def readMembers : Nat → List Char → Option (Option (List (String × Json)) × List Char)
  | 0, _ => none
  | fuel + 1, cs =>
    match cs with
    | '"' :: r =>
      match quotedText (r.length + 1) r with
      | none => none
      | some (k, r) =>
        match skipSpace r with
        | ':' :: r =>
          match readValue fuel (skipSpace r) with
          | none => none
          | some (v, r) =>
            let member := k.map fun k => (String.ofList k, v)
            match skipSpace r with
            | ',' :: r =>
              (readMembers fuel (skipSpace r)).map fun (ms, r) =>
                (match member, ms with
                  | some m, some ms => some (m :: ms)
                  | _, _ => none, r)
            | '\x7d' :: r => some (member.map fun m => [m], r)
            | _ => none
        | _ => none
    | _ => none
end

/-- The value that a text holds. -/
def parse? (s : String) : Option Json :=
  let cs := skipSpace s.toList
  match readValue (2 * cs.length + 2) cs with
  | some (v, r) => if skipSpace r = [] then some v else none
  | none => none

end Marginalia.Json
