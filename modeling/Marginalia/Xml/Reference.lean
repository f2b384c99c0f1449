import Marginalia.Xml.Name
import Marginalia.Decimal.Natural

/-!
References to characters and entities, and the way line ends and references enter the text of a
document.
-/

namespace Marginalia.Xml

/-- An internal entity: its name, its text as written, and where that ends in the document. -/
structure Entity where
  name : List Char
  value : List Char
  stop : Nat
deriving DecidableEq, Repr

inductive Reference where
  | char (c : Char)
  | entity (name : List Char)
deriving DecidableEq, Repr

/-- The character of a number; a number that is no character gives U+FFFD. -/
def charOfNumber (n : Nat) : Char :=
  if h : n.isValidChar then Char.ofNatAux n h else '\uFFFD'

def hexNumber? (cs : List Char) : Option Nat :=
  if cs = [] then none
  else cs.foldlM (fun n c => (Text.hexValue? c).map fun d => n * 16 + d) 0

def isHexDigit (c : Char) : Bool := (Text.hexValue? c).isSome

/-- The entities that every document has. -/
def predefined? (name : List Char) : Option Char :=
  if name = "quot".toList then some '"'
  else if name = "amp".toList then some '&'
  else if name = "apos".toList then some '\''
  else if name = "lt".toList then some '<'
  else if name = "gt".toList then some '>'
  else none

/-- The character that a number refers to; the number fits a word of thirty-two bits. -/
def numberedChar? (n : Option Nat) : Option Reference :=
  match n with
  | some n =>
    if n < UInt32.size then
      let c := charOfNumber n
      if isLegal c then some (.char c) else none
    else none
  | none => none

/-- A reference after its ampersand, and what follows its semicolon. -/
def reference? (cs : List Char) : Option (Reference × List Char) := do
  let (r, rest) ← match cs with
    | '#' :: 'x' :: r =>
      (numberedChar? (hexNumber? (r.takeWhile isHexDigit))).map (·, r.dropWhile isHexDigit)
    | '#' :: r =>
      (numberedChar? (Decimal.readDigits? (r.takeWhile Text.isDigit))).map
        (·, r.dropWhile Text.isDigit)
    | r => (name? r).map fun (n, r) =>
        (match predefined? n with
          | some c => .char c
          | none => .entity n, r)
  match rest with
  | ';' :: rest => return (r, rest)
  | _ => none

/-- How deep the text being read is inside entities, and how many references the outermost one
has led to. -/
structure Nesting where
  depth : Nat
  references : Nat
deriving DecidableEq, Repr

def Nesting.none : Nesting := ⟨0, 0⟩

/-- The nesting inside one more entity: ten at most stand inside one another, and the outermost
one leads to 255 references at most. -/
def Nesting.enter? (n : Nesting) : Option Nesting :=
  if n.depth ≠ 0 ∧ n.references = 255 then Option.none
  else if n.depth < 10 then
    some ⟨n.depth + 1, if n.depth = 0 then n.references else n.references + 1⟩
  else Option.none

def Nesting.leave (n : Nesting) : Nesting :=
  if n.depth ≤ 1 then ⟨0, 0⟩ else ⟨n.depth - 1, n.references⟩

/-- Characters read so far, the last one first. -/
abbrev Buffer := List Char

/-- A character of running text. A carriage return, alone or before a line feed, becomes a line
feed once the character after it is known. -/
def Buffer.pushText (b : Buffer) (c : Char) (atEnd : Bool) : Buffer :=
  match b with
  | '\r' :: b' =>
    if atEnd && c == '\r' then '\n' :: '\n' :: b'
    else if c ≠ '\n' then c :: '\n' :: b'
    else '\n' :: b'
  | b => if atEnd && c == '\r' then '\n' :: b else c :: b

/-- A character of an attribute value: white space is written as a space each, a line feed with
the carriage return before it as one. -/
def Buffer.pushValue (b : Buffer) (c : Char) (next : Option Char) : Buffer :=
  if c = '\r' ∧ next = some '\n' then b
  else if c = '\n' ∨ c = '\r' ∨ c = '\t' then ' ' :: b
  else c :: b

/-- An attribute value with its references replaced. A character reference in the value itself
stays as it is; inside an entity it is treated like a written character. The fuel bounds the
characters read at any depth. -/
def normalValue (entities : List Entity) :
    Nat → Nesting → List Char → Buffer → Option (Nesting × Buffer)
  | 0, _, _, _ => none
  | fuel + 1, n, cs, b =>
    match cs with
    | [] => some (n, b)
    | '&' :: r =>
      match reference? r with
      | none => none
      | some (.char c, r) =>
        normalValue entities fuel n r (if n.depth = 0 then c :: b else Buffer.pushValue b c none)
      | some (.entity name, r) =>
        match entities.find? fun e => e.name = name with
        | none => none
        | some e =>
          match n.enter? with
          | none => none
          | some inner =>
            match normalValue entities fuel inner e.value b with
            | none => none
            | some (inner, b) => normalValue entities fuel inner.leave r b
    | c :: r => normalValue entities fuel n r (Buffer.pushValue b c r.head?)

end Marginalia.Xml
