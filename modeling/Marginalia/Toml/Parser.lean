import Marginalia.Toml.Quoted
import Marginalia.Toml.Scalar

/-!
Reading TOML documents: lines that are a header, a key with its value, or nothing but a comment.
-/

namespace Marginalia.Toml

def skipSpace (cs : List Char) : List Char := cs.dropWhile isSpace

/-- Drops blanks, line ends and comments, and fails at a control character in a comment. -/
def skipFiller? (inComment : Bool) : List Char → Option (List Char)
  | [] => some []
  | '\n' :: r => skipFiller? false r
  | '\r' :: '\n' :: r => skipFiller? false r
  | c :: r =>
    if inComment then if isPlain c then skipFiller? true r else none
    else if c = '#' then skipFiller? true r
    else if isSpace c then skipFiller? false r
    else some (c :: r)

/-- Drops the rest of a line, which is blank or a comment. -/
def finishLine? (inComment : Bool) : List Char → Option (List Char)
  | [] => some []
  | '\n' :: r => some r
  | '\r' :: '\n' :: r => some r
  | c :: r =>
    if inComment then if isPlain c then finishLine? true r else none
    else if c = '#' then finishLine? true r
    else if isSpace c then finishLine? false r
    else none

def isBare (c : Char) : Bool := Text.isLetter c || Text.isDigit c || c == '_' || c == '-'

/-- A key without dots: a bare word, or a text quoted within a line. -/
def simpleKey? : List Char → Option (String × List Char)
  | '"' :: r => (basicText r).map fun (k, r) => (String.ofList k, r)
  | '\'' :: r => (literalText r).map fun (k, r) => (String.ofList k, r)
  | cs =>
    match cs.takeWhile isBare with
    | [] => none
    | k => some (String.ofList k, cs.dropWhile isBare)

/-- A key with its parts between dots, and what follows it and the blanks behind it. The fuel
bounds the number of parts. -/
def key? : Nat → List Char → Option (List String × List Char)
  | 0, _ => none
  | fuel + 1, cs => do
    let (k, r) ← simpleKey? cs
    match skipSpace r with
    | '.' :: r => (key? fuel (skipSpace r)).map fun (ks, r) => (k :: ks, r)
    | r => some ([k], r)

/-- Values nest this deep at most. -/
def maxDepth : Nat := 80

mutual
/-- A value at the front, and what follows it. The fuel bounds the length of the text, and `depth`
is how much deeper values may nest. -/
def value? : Nat → Nat → List Char → Option (Value × List Char)
  | 0, _, _ => none
  | fuel + 1, depth, cs =>
    match cs, depth with
    | '[' :: _, 0 => none
    | '\x7b' :: _, 0 => none
    | '[' :: r, depth + 1 => do
      match ← skipFiller? false r with
      | ']' :: r => return (.array [], r)
      | r => (items? fuel depth r).map fun (xs, r) => (.array xs, r)
    | '\x7b' :: r, depth + 1 => do
      match ← skipFiller? false r with
      | '\x7d' :: r => return (.table .braces [], r)
      | r => (pairs? fuel depth [] r).map fun (ms, r) => (.table .braces ms, r)
    | '"' :: _, _ => (quoted? cs).map fun (s, r) => (.text (String.ofList s), r)
    | '\'' :: _, _ => (quoted? cs).map fun (s, r) => (.text (String.ofList s), r)
    | _, _ => scalar? cs
/-- The values of an array up to and with its bracket; a comma may stand before it. -/
def items? : Nat → Nat → List Char → Option (List Value × List Char)
  | 0, _, _ => none
  | fuel + 1, depth, cs => do
    let (x, r) ← value? fuel depth cs
    match ← skipFiller? false r with
    | ']' :: r => return ([x], r)
    | ',' :: r =>
      match ← skipFiller? false r with
      | ']' :: r => return ([x], r)
      | r => (items? fuel depth r).map fun (xs, r) => (x :: xs, r)
    | _ => none
/-- The members of a table in braces up to and with its brace; a comma may stand before it. -/
def pairs? : Nat → Nat → Members → List Char → Option (Members × List Char)
  | 0, _, _, _ => none
  | fuel + 1, depth, ms, cs => do
    let (ks, r) ← key? cs.length cs
    match r with
    | '=' :: r =>
      let (v, r) ← value? fuel depth (skipSpace r)
      let ms ← ms.assign? v true ks
      match ← skipFiller? false r with
      | '\x7d' :: r => return (ms, r)
      | ',' :: r =>
        match ← skipFiller? false r with
        | '\x7d' :: r => return (ms, r)
        | r => pairs? fuel depth ms r
      | _ => none
    | _ => none
end

/-- A document so far: its members, and the keys of the header that the lines are under. -/
structure Draft where
  members : Members
  header : List String
deriving Repr

namespace Draft

/-- Opens the table of a header. -/
def open? (d : Draft) (ks : List String) (add : String → Members → Option Members) :
    Option Draft := do
  let k ← ks.getLast?
  let ms ← d.members.under? (add k) ks.dropLast
  return ⟨ms, ks⟩

/-- Puts a value under the current header. -/
def assign? (d : Draft) (ks : List String) (v : Value) : Option Draft :=
  (d.members.under? (fun ms => ms.assign? v true ks) d.header).map fun ms => ⟨ms, d.header⟩

end Draft

/-- A header or a key with its value, at the front of a line, and what follows it in the line. -/
def entry? (d : Draft) : List Char → Option (Draft × List Char)
  | '[' :: '[' :: r => do
    match ← key? r.length (skipSpace r) with
    | (ks, ']' :: ']' :: r) => (d.open? ks fun k ms => ms.extend? k).map fun d => (d, r)
    | _ => none
  | '[' :: r => do
    match ← key? r.length (skipSpace r) with
    | (ks, ']' :: r) => (d.open? ks fun k ms => ms.define? k).map fun d => (d, r)
    | _ => none
  | cs => do
    match ← key? cs.length cs with
    | (ks, '=' :: r) =>
      let (v, r) ← value? (2 * cs.length) maxDepth (skipSpace r)
      (d.assign? ks v).map fun d => (d, r)
    | _ => none

/-- The lines of a document, one after the other; the fuel bounds their number. -/
def entries? : Nat → Draft → List Char → Option Draft
  | 0, _, _ => none
  | fuel + 1, d, cs => do
    match ← skipFiller? false cs with
    | [] => return d
    | cs =>
      let (d, r) ← entry? d cs
      entries? fuel d (← finishLine? false r)

/-- The members of a document's root table. A byte order mark may stand before it. -/
def parse? (s : String) : Option Members :=
  let cs := match s.toList with
    | '\uFEFF' :: r => r
    | cs => cs
  (entries? (cs.length + 1) ⟨[], []⟩ cs).map Draft.members

end Marginalia.Toml
