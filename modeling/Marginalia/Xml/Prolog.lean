import Marginalia.Xml.Document
import Marginalia.Xml.Reference

/-!
What stands before the root element: the XML declaration, comments, processing instructions and
the document type declaration with its entities.
-/

namespace Marginalia.Xml

/-- White space inside the declaration, which may be missing before its end. -/
def declarationSpaces? (cs : List Char) : Option (List Char) :=
  match spaces? cs with
  | some r => some r
  | none => if cs = [] ∨ Text.startsWith "?>".toList cs then some cs else none

/-- An optional pseudo-attribute of the declaration. -/
def pseudo? (name cs : List Char) : Option (List Char) :=
  if Text.startsWith name cs then (attribute? cs).map fun (_, _, r) => r else some cs

/-- What follows the XML declaration; there may be none. -/
def skipDeclaration? (cs : List Char) : Option (List Char) :=
  match Text.dropLead? "<?xml ".toList cs with
  | none => some cs
  | some r => do
    let r ← declarationSpaces? (' ' :: r)
    if !Text.startsWith "version".toList r then none
    let r ← pseudo? "version".toList r
    let r ← declarationSpaces? r
    let r ← if Text.startsWith "encoding".toList r then
        (pseudo? "encoding".toList r).bind declarationSpaces?
      else some r
    let r ← pseudo? "standalone".toList r
    Text.dropLead? "?>".toList (skipSpaces r)

/-- A comment after its opening mark. It holds no double hyphen and does not end in a hyphen. -/
def comment? (cs : List Char) : Option (Node × List Char) := do
  let (text, rest) ← upTo? "-->".toList cs
  if (Text.splitAt? "--".toList text).isSome || text.getLast? == some '-' then none
  return (.comment text, rest)

/-- A processing instruction. -/
def instruction? (cs : List Char) : Option (Node × List Char) := do
  if Text.startsWith "<?xml ".toList cs then none
  let r ← Text.dropLead? "<?".toList cs
  let (target, r) ← name? r
  let (value, rest) ← upTo? "?>".toList (skipSpaces r)
  return (.instruction target (if value = [] then none else some value), rest)

/-- Comments and instructions with white space between them. The fuel bounds their number. -/
def misc? : Nat → List Char → Option (List Node × List Char)
  | 0, cs => some ([], cs)
  | fuel + 1, cs =>
    let cs := skipSpaces cs
    match Text.dropLead? "<!--".toList cs with
    | some r =>
      match comment? r with
      | some (n, r) => (misc? fuel r).map fun (ns, r) => (n :: ns, r)
      | none => none
    | none =>
      if Text.startsWith "<?".toList cs then
        match instruction? cs with
        | some (n, r) => (misc? fuel r).map fun (ns, r) => (n :: ns, r)
        | none => none
      else some ([], cs)

/-- The name of an external entity: `SYSTEM` with one literal or `PUBLIC` with two. -/
def externalId? (cs : List Char) : Option (List Char) := do
  match Text.dropLead? "SYSTEM".toList cs with
  | some r =>
    let r ← spaces? r
    let (_, r) ← quoted? r
    return r
  | none =>
    let r ← Text.dropLead? "PUBLIC".toList cs
    let r ← spaces? r
    let (_, r) ← quoted? r
    let r ← spaces? r
    let (_, r) ← quoted? r
    return r

def isExternalId (cs : List Char) : Bool :=
  Text.startsWith "SYSTEM".toList cs || Text.startsWith "PUBLIC".toList cs

/-- What a declaration defines an entity as: its text, or something outside the document. `stop`
is where the text of `cs` ends in the document. -/
def entityValue? (stop : Nat) (isGeneral : Bool) (name cs : List Char) :
    Option (Option Entity × List Char) :=
  match cs with
  | [] => none
  | c :: _ =>
    if c = '"' ∨ c = '\'' then
      (quoted? cs).map fun (v, r) => (some ⟨name, v, stop - (r.length + 1)⟩, r)
    else if isExternalId cs then do
      let r ← externalId? cs
      if isGeneral then
        match Text.dropLead? "NDATA".toList (skipSpaces r) with
        | some r =>
          let r ← spaces? r
          let (_, r) ← name? r
          return (none, r)
        | none => return (none, r)
      else return (none, r)
    else none

/-- An entity declaration after its mark. -/
def entityDeclaration? (stop : Nat) (cs : List Char) : Option (Option Entity × List Char) := do
  let cs ← spaces? cs
  let (isGeneral, cs) ← match cs with
    | '%' :: r => (spaces? r).map (false, ·)
    | _ => some (true, cs)
  let (name, cs) ← name? cs
  let cs ← spaces? cs
  let (e, cs) ← entityValue? stop isGeneral name cs
  match skipSpaces cs with
  | '>' :: r => return (e, r)
  | _ => none

/-- The document type declaration's contents: its entities in order, and its comments and
instructions. -/
structure Subset where
  entities : List Entity
  nodes : List Node

def isPassedDeclaration (cs : List Char) : Bool :=
  Text.startsWith "<!ELEMENT".toList cs || Text.startsWith "<!ATTLIST".toList cs ||
    Text.startsWith "<!NOTATION".toList cs

/-- The internal subset up to its bracket and the declaration's end. A subset that the text ends
in is let pass. The fuel bounds the number of declarations. -/
def subset? (stop : Nat) : Nat → List Char → Option (Subset × List Char)
  | 0, cs => if cs = [] then some (⟨[], []⟩, []) else none
  | fuel + 1, cs =>
    if cs = [] then some (⟨[], []⟩, [])
    else
      let cs := skipSpaces cs
      match Text.dropLead? "<!ENTITY".toList cs with
      | some r =>
        match entityDeclaration? stop r with
        | some (e, r) =>
          (subset? stop fuel r).map fun (s, r) => ({ s with entities := e.toList ++ s.entities }, r)
        | none => none
      | none =>
        match Text.dropLead? "<!--".toList cs with
        | some r =>
          match comment? r with
          | some (n, r) =>
            (subset? stop fuel r).map fun (s, r) => ({ s with nodes := n :: s.nodes }, r)
          | none => none
        | none =>
          if Text.startsWith "<?".toList cs then
            match instruction? cs with
            | some (n, r) =>
              (subset? stop fuel r).map fun (s, r) => ({ s with nodes := n :: s.nodes }, r)
            | none => none
          else
            match cs with
            | ']' :: r =>
              match skipSpaces r with
              | '>' :: r => some (⟨[], []⟩, r)
              | _ => none
            | _ =>
              if isPassedDeclaration cs then
                match cs.dropWhile (· ≠ '>') with
                | _ :: r => subset? stop fuel r
                | [] => none
              else none

/-- The document type declaration, if there is one. -/
def doctype? (stop : Nat) (cs : List Char) : Option (Subset × List Char) :=
  match Text.dropLead? "<!DOCTYPE".toList cs with
  | none => some (⟨[], []⟩, cs)
  | some r => do
    let r ← spaces? r
    let (_, r) ← name? r
    let r := skipSpaces r
    let r ← if isExternalId r then externalId? r else some r
    match skipSpaces r with
    | '>' :: r => return (⟨[], []⟩, r)
    | '[' :: r => subset? stop (r.length + 1) r
    | _ => none

end Marginalia.Xml
