import Marginalia.Json.Basic

/-!
The compact text of a JSON value: no white space, members in the order they have.
-/

namespace Marginalia.Json

/-- The four digits of an escaped control character. -/
def hex4 (n : Nat) : List Char :=
  let d (k : Nat) : Char := Nat.digitChar (n / Nat.pow 16 k % 16)
  [d 3, d 2, d 1, d 0]

/-- One character inside a quoted text. -/
def escapeChar (c : Char) : List Char :=
  match c with
  | '"' => ['\\', '"']
  | '\\' => ['\\', '\\']
  | '\n' => ['\\', 'n']
  | '\r' => ['\\', 'r']
  | '\t' => ['\\', 't']
  | '\x08' => ['\\', 'b']
  | '\x0c' => ['\\', 'f']
  | c => if c.toNat < 0x20 then '\\' :: 'u' :: hex4 c.toNat else [c]

def quote (s : String) : List Char := '"' :: s.toList.flatMap escapeChar ++ ['"']

mutual
def render : Json → List Char
  | .null => ['n', 'u', 'l', 'l']
  | .bool true => ['t', 'r', 'u', 'e']
  | .bool false => ['f', 'a', 'l', 's', 'e']
  | .int i => (Decimal.intText i).toList
  | .real x => Decimal.Notation.json.write x
  | .text s => quote s
  | .array xs => '[' :: renderItems xs ++ [']']
  | .object ms => '\x7b' :: renderMembers ms ++ ['\x7d']
  | .unreadable => ['n', 'u', 'l', 'l']
def renderItems : List Json → List Char
  | [] => []
  | [x] => render x
  | x :: y :: xs => render x ++ ',' :: renderItems (y :: xs)
def renderMembers : List (String × Json) → List Char
  | [] => []
  | [(k, v)] => quote k ++ ':' :: render v
  | (k, v) :: m :: ms => quote k ++ ':' :: render v ++ ',' :: renderMembers (m :: ms)
end

def compact (j : Json) : String := String.ofList (render j)

end Marginalia.Json
