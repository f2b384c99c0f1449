import Marginalia.Text.CaseFold
import Marginalia.Text.Punctuation
import Marginalia.Markdown.Entity
import Marginalia.Markdown.Tag

/-!
The parts of links: targets, titles and labels, links written between angle brackets, and the
definitions of labels.
-/

namespace Marginalia.Markdown

open Text (isLetter isDigit isAsciiPunctuation)

/-- A text with its escapes and references replaced. The first argument counts the characters
that belong to a reference already replaced. -/
def unescapeFrom : Nat → List Char → List Char
  | _, [] => []
  | skip + 1, _ :: cs => unescapeFrom skip cs
  | 0, '\\' :: c :: cs =>
    if isAsciiPunctuation c then c :: unescapeFrom 0 cs else '\\' :: unescapeFrom 0 (c :: cs)
  | 0, '&' :: cs =>
    match reference? cs with
    | some (value, rest) => value ++ unescapeFrom (cs.length - rest.length) cs
    | none => '&' :: unescapeFrom 0 cs
  | 0, c :: cs => c :: unescapeFrom 0 cs

def unescape (cs : List Char) : List Char := unescapeFrom 0 cs

/-- The target between angle brackets, as written, and what follows it. -/
def bracketedTarget? : List Char → Option (List Char × List Char)
  | [] => none
  | '>' :: cs => some ([], cs)
  | '\\' :: c :: cs =>
    if isAsciiPunctuation c then
      (bracketedTarget? cs).map fun (t, r) => ('\\' :: c :: t, r)
    else (bracketedTarget? (c :: cs)).map fun (t, r) => ('\\' :: t, r)
  | c :: cs =>
    if c = '\n' ∨ c = '<' then none else (bracketedTarget? cs).map fun (t, r) => (c :: t, r)

/-- The target up to a blank or a closing bracket that nothing in it opened, as written, and what
follows it. `open` brackets are still to be closed; `limit` is the most that may be. -/
def bareTarget? (limit : Nat) : Nat → List Char → Option (List Char × List Char)
  | nest, [] => if nest = 0 then some ([], []) else none
  | nest, '\\' :: c :: cs =>
    if isAsciiPunctuation c then
      (bareTarget? limit nest cs).map fun (t, r) => ('\\' :: c :: t, r)
    else (bareTarget? limit nest (c :: cs)).map fun (t, r) => ('\\' :: t, r)
  | nest, c :: cs =>
    let step (nest : Nat) := (bareTarget? limit nest cs).map fun (t, r) => (c :: t, r)
    if c ≤ ' ' then (if nest = 0 then some ([], c :: cs) else none)
    else if c = '(' then (if limit < nest then none else step (nest + 1))
    else if c = ')' then
      match nest with
      | 0 => some ([], c :: cs)
      | nest + 1 => step nest
    else step nest

/-- A link's target as written, and what follows it. -/
def target? (limit : Nat) : List Char → Option (List Char × List Char)
  | '<' :: cs => bracketedTarget? cs
  | cs => bareTarget? limit 0 cs

/-- The text up to a closing mark, as written, and what follows it. -/
def quotedUpTo? (opening closing : Char) : List Char → Option (List Char × List Char)
  | [] => none
  | '\\' :: c :: cs =>
    if isAsciiPunctuation c then
      (quotedUpTo? opening closing cs).map fun (t, r) => ('\\' :: c :: t, r)
    else (quotedUpTo? opening closing (c :: cs)).map fun (t, r) => ('\\' :: t, r)
  | c :: cs =>
    if c = closing then some ([], cs)
    else if c = opening then none
    else (quotedUpTo? opening closing cs).map fun (t, r) => (c :: t, r)

/-- The text with the blanks at the start of its lines cut off. -/
def unindent (cs : List Char) : List Char :=
  match Text.splitOn '\n' cs with
  | [] => []
  | l :: ls => Text.joinWith ['\n'] (l :: ls.map trimSpaces)

/-- A link's title, and what follows its closing mark. -/
def title? : List Char → Option (List Char × List Char)
  | '(' :: cs => (quotedUpTo? '(' ')' cs).map fun (t, r) => (unescape (unindent t), r)
  | c :: cs =>
    if c = '"' ∨ c = '\'' then
      (quotedUpTo? c c cs).map fun (t, r) => (unescape (unindent t), r)
    else none
  | [] => none

/-- Blanks with at most one line end among them: the number of line ends, and what follows. -/
def skipGap? (cs : List Char) : Option (Nat × List Char) :=
  match trimSpaces cs with
  | '\n' :: r =>
    match trimSpaces r with
    | '\n' :: _ => none
    | [] => none
    | r => some (1, r)
  | r => some (0, r)

/-- Blanks with at most one line end among them, as far as they reach. -/
def skipGap (cs : List Char) : List Char :=
  match trimSpaces cs with
  | '\n' :: r => trimSpaces r
  | r => r

/-- The target and title in the parentheses behind a link's text, and what follows them. -/
def destination? : List Char → Option (List Char × List Char × List Char)
  | '(' :: cs => do
    let (target, r) ← target? 32 (skipGap cs)
    let r := skipGap r
    let (title, r) := match title? r with
      | some (t, r) => (t, skipGap r)
      | none => ([], r)
    let r ← Text.dropLead? [')'] r
    return (unescape target, title, r)
  | _ => none

/-- The text of a label up to its closing bracket, as written, and what follows. -/
def labelText? : List Char → Option (List Char × List Char)
  | [] => none
  | ']' :: cs => some ([], cs)
  | '\\' :: c :: cs => (labelText? cs).map fun (t, r) => ('\\' :: c :: t, r)
  | c :: cs => if c = '[' then none else (labelText? cs).map fun (t, r) => (c :: t, r)

/-- The longest label. -/
def labelLimit : Nat := 999

/-- Runs of blanks made one space each. -/
def collapseBlanks : List Char → List Char
  | [] => []
  | c :: cs =>
    if isSpace c || c == '\n' then
      match collapseBlanks cs with
      | ' ' :: r => ' ' :: r
      | r => ' ' :: r
    else c :: collapseBlanks cs

/-- The form in which labels are compared; a blank text is no label. -/
def label? (text : List Char) : Option (List Char) :=
  let isGap (c : Char) := c == ' '
  let trimmed := Text.dropEnd isGap ((collapseBlanks text).dropWhile isGap)
  if trimmed = [] ∨ labelLimit < text.length then none else some (Text.foldCase trimmed)

/-- A label in brackets, and what follows it. -/
def bracketedLabel? : List Char → Option (List Char × List Char)
  | '[' :: cs => do
    let (text, r) ← labelText? cs
    let label ← label? text
    return (label, r)
  | _ => none

/-- The title of a definition behind its target, and what follows the line it ends on. -/
def definitionTitle? (cs : List Char) : Option (List Char × List Char) := do
  let (title, r) ← title? cs
  match trimSpaces r with
  | [] => return (title, [])
  | '\n' :: _ => return (title, trimSpaces r)
  | _ => none

/-- The definition of a label that a text begins with, and what follows it from the end of its
last line on. A title on the next line that does not end there is no part of it. -/
def Definition.read? (cs : List Char) : Option (Definition × List Char) := do
  let (label, r) ← bracketedLabel? cs
  let r ← Text.dropLead? [':'] r
  let (_, r) ← skipGap? r
  let (target, rest) ← target? 1 r
  if rest.length = r.length then none
  let bare : Definition := ⟨label, unescape target, []⟩
  match trimSpaces rest with
  | [] => return (bare, [])
  | '\n' :: next =>
    match definitionTitle? (trimSpaces next) with
    | some (title, r) => return ({ bare with title := title }, r)
    | none => return (bare, '\n' :: next)
  | r =>
    if r.length = rest.length then none
    let (title, r) ← definitionTitle? r
    return ({ bare with title := title }, r)

/-- The address between angle brackets, from behind the opening one: a scheme of two to
thirty-two characters, and what follows it. -/
def absoluteAddress? (cs : List Char) : Option (List Char × List Char) :=
  let isSchemeChar (c : Char) := isLetter c || isDigit c || c == '.' || c == '-' || c == '+'
  let scheme := cs.takeWhile isSchemeChar
  let rest := cs.dropWhile isSchemeChar
  if cs.head?.any isLetter ∧ 2 ≤ scheme.length ∧ scheme.length ≤ 32 ∧ rest.head? = some ':' then
    let isInner (c : Char) := !(c ≤ ' ' || c == '<' || c == '>')
    match rest.dropWhile isInner with
    | '>' :: r => some (scheme ++ rest.takeWhile isInner, r)
    | _ => none
  else none

/-- The characters of a mailbox name. -/
def isMailboxChar (c : Char) : Bool :=
  isLetter c || isDigit c || ".!#$%&'*+/=?^_\x60\x7b|\x7d~-".toList.contains c

/-- Whether a text is one label of a host name. -/
def isHostLabel (l : List Char) : Bool :=
  l != [] && l.length ≤ 63 && l.head? != some '-' && l.getLast? != some '-' &&
    l.all fun c => isLetter c || isDigit c || c == '-'

/-- The mail address between angle brackets, from behind the opening one, and what follows. -/
def mailAddress? (cs : List Char) : Option (List Char × List Char) :=
  let name := cs.takeWhile isMailboxChar
  match cs.dropWhile isMailboxChar with
  | '@' :: r =>
    let isHostChar (c : Char) := isLetter c || isDigit c || c == '-' || c == '.'
    let host := r.takeWhile isHostChar
    match r.dropWhile isHostChar with
    | '>' :: rest =>
      if name ≠ [] ∧ (Text.splitOn '.' host).all isHostLabel then
        some (name ++ '@' :: host, rest)
      else none
    | _ => none
  | _ => none

end Marginalia.Markdown
