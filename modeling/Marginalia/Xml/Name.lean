import Marginalia.Text.Blank

/-!
Characters and names of XML.
-/

namespace Marginalia.Xml

def isSpace (c : Char) : Bool := c == ' ' || c == '\t' || c == '\n' || c == '\r'

/-- The characters that may stand in a document. -/
def isLegal (c : Char) : Bool :=
  if c.toNat < 0x20 then isSpace c else c.toNat ≠ 0xFFFE && c.toNat ≠ 0xFFFF

def isAsciiName (c : Char) : Bool :=
  Text.isLetter c || Text.isDigit c || c == ':' || c == '_' || c == '-' || c == '.'

/-- The ranges beyond ASCII of characters that may begin a name. -/
def nameStartRanges : List (Nat × Nat) :=
  [(0xC0, 0xD6), (0xD8, 0xF6), (0xF8, 0x2FF), (0x370, 0x37D), (0x37F, 0x1FFF), (0x200C, 0x200D),
    (0x2070, 0x218F), (0x2C00, 0x2FEF), (0x3001, 0xD7FF), (0xF900, 0xFDCF), (0xFDF0, 0xFFFD),
    (0x10000, 0xEFFFF)]

/-- The ranges beyond ASCII of characters that may only stand inside a name. -/
def nameInnerRanges : List (Nat × Nat) := [(0xB7, 0xB7), (0x300, 0x36F), (0x203F, 0x2040)]

def inRanges (rs : List (Nat × Nat)) (c : Char) : Bool :=
  rs.any fun r => r.1 ≤ c.toNat && c.toNat ≤ r.2

def isNameStart (c : Char) : Bool :=
  if c.toNat ≤ 128 then Text.isLetter c || c == ':' || c == '_' else inRanges nameStartRanges c

def isNameChar (c : Char) : Bool :=
  if c.toNat ≤ 128 then isAsciiName c
  else inRanges nameStartRanges c || inRanges nameInnerRanges c

def skipSpaces (cs : List Char) : List Char := cs.dropWhile isSpace

/-- At least one space, and what follows all of them. -/
def spaces? : List Char → Option (List Char)
  | c :: cs => if isSpace c then some (skipSpaces cs) else none
  | [] => none

/-- A name at the front, and what follows it. -/
def name? : List Char → Option (List Char × List Char)
  | c :: cs =>
    if isNameStart c then some (c :: cs.takeWhile isNameChar, cs.dropWhile isNameChar) else none
  | [] => none

/-- A name in two parts: a short name of a namespace, empty where there is none, and the name
within it. -/
structure QName where
  space : List Char
  name : List Char
deriving DecidableEq, Repr

def beginsName (cs : List Char) : Bool := cs.head?.all isNameStart

/-- A name with at most one colon, whose parts each begin like a name. Only the part before the
colon may be empty. -/
def qname? (cs : List Char) : Option (QName × List Char) :=
  let word := cs.takeWhile isNameChar
  let rest := cs.dropWhile isNameChar
  let q : Option QName := match Text.splitAt? [':'] word with
    | some (space, name) => if name.contains ':' then none else some ⟨space, name⟩
    | none => some ⟨[], word⟩
  match q with
  | some q =>
    if beginsName q.space && q.name ≠ [] && beginsName q.name then some (q, rest) else none
  | none => none

/-- A quote of either kind. -/
def quote? : List Char → Option (Char × List Char)
  | '"' :: cs => some ('"', cs)
  | '\'' :: cs => some ('\'', cs)
  | _ => none

/-- A quoted text without restrictions, and what follows the closing quote. -/
def quoted? (cs : List Char) : Option (List Char × List Char) := do
  let (q, cs) ← quote? cs
  match cs.dropWhile (· ≠ q) with
  | _ :: rest => return (cs.takeWhile (· ≠ q), rest)
  | [] => none

/-- A quoted attribute value, not yet normalised: it holds legal characters and no `<`. -/
def value? (cs : List Char) : Option (List Char × List Char) := do
  let (v, rest) ← quoted? cs
  if v.all isLegal && !v.contains '<' then return (v, rest) else none

/-- An equals sign with optional spaces around it. -/
def equals? (cs : List Char) : Option (List Char) :=
  match skipSpaces cs with
  | '=' :: cs => some (skipSpaces cs)
  | _ => none

/-- An attribute with its value as written. -/
def attribute? (cs : List Char) : Option (QName × List Char × List Char) := do
  let (q, cs) ← qname? cs
  let cs ← equals? cs
  let (v, cs) ← value? cs
  return (q, v, cs)

/-- Legal characters up to the first place where `mark` stands, and what follows the mark. -/
def upTo? (mark cs : List Char) : Option (List Char × List Char) :=
  match Text.splitAt? mark cs with
  | some (text, rest) => if text.all isLegal then some (text, rest) else none
  | none => none

end Marginalia.Xml
