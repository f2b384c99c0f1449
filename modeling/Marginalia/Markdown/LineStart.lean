import Marginalia.Markdown.Cursor
import Marginalia.Markdown.Link

/-!
What a line begins: rules, headings, fences, items of lists, quotes, and what may begin in the
middle of a paragraph.
-/

namespace Marginalia.Markdown

open Text (isDigit)

/-- Whether a line is a rule: three or more of one mark, and blanks. -/
def isRule : List Char → Bool
  | [] => false
  | c :: cs =>
    (c == '*' || c == '-' || c == '_') &&
      cs.all (fun d => d == c || d == ' ' || d == '\t') && 2 ≤ cs.count c

/-- The level of a heading, one to six, and the line behind its marks. -/
def headingMark? (cs : List Char) : Option (Nat × List Char) :=
  let level := (cs.takeWhile (· == '#')).length
  let rest := cs.drop level
  if 1 ≤ level ∧ level ≤ 6 ∧ (rest = [] ∨ rest.head?.any isSpace) then some (level, rest) else none

/-- The text of a heading without the marks that may close it. -/
def headingText (rest : List Char) : List Char :=
  let text := Text.dropEnd isSpace (trimSpaces rest)
  let open? := Text.dropEnd (· == '#') text
  if open? = [] ∨ open?.getLast?.any isSpace then Text.dropEnd isSpace open? else text

/-- The level of the heading that a line under a paragraph makes of it. -/
def underline? : List Char → Option Nat
  | c :: cs =>
    if (c == '=' || c == '-') && isBlank (cs.dropWhile (· == c)) then
      some (if c = '=' then 1 else 2)
    else none
  | [] => none

/-- The opening line of fenced code. -/
structure Fence where
  mark : Char
  length : Nat
  /-- How far the fence is indented; its lines may be as far. -/
  indent : Nat
  language : List Char
deriving DecidableEq, Repr

/-- The first word behind a fence. -/
def languageOf (info : List Char) : List Char :=
  (unescape (Text.dropEnd isSpace (trimSpaces info))).takeWhile (· ≠ ' ')

def fence? (indent : Nat) : List Char → Option Fence
  | [] => none
  | c :: cs =>
    let length := (cs.takeWhile (· == c)).length + 1
    let info := cs.drop (length - 1)
    if (c = '\x60' ∨ c = '~') ∧ 3 ≤ length ∧ ¬(c = '\x60' ∧ '\x60' ∈ info) then
      some ⟨c, length, indent, languageOf info⟩
    else none

/-- Whether a line, behind the blanks that the fence is indented by, closes it. -/
def Fence.isClosedBy (f : Fence) (c : Cursor) : Bool :=
  let (missing, c) := c.take (4 - f.indent)
  let length := (c.rest.takeWhile (· == f.mark)).length
  missing ≠ 0 && f.length ≤ length && (c.rest.drop length).all (· == ' ')

/-- The mark of a list's item, its number, and the line behind it. -/
def itemMark? (cs : List Char) : Option (Char × Nat × List Char) :=
  let ends (r : List Char) := r.head?.all fun c => c == ' ' || c == '\t'
  match cs with
  | [] => none
  | c :: r =>
    if c = '-' ∨ c = '+' ∨ c = '*' then (if ends r then some (c, 0, r) else none)
    else
      let digits := cs.takeWhile isDigit
      match cs.dropWhile isDigit with
      | d :: r =>
        if digits ≠ [] ∧ digits.length ≤ 9 ∧ (d = '.' ∨ d = ')') ∧ ends r then
          some (d, digits.foldl (fun n c => n * 10 + (c.toNat - 48)) 0, r)
        else none
      | [] => none

def isBullet (mark : Char) : Bool := mark == '-' || mark == '+' || mark == '*'

/-- The start of an item: its mark and number, how far its lines are indented, and the place
behind its mark. Five or more blanks belong to the item's text but for the first. -/
structure ItemStart where
  mark : Char
  number : Nat
  indent : Nat
  place : Cursor
deriving DecidableEq, Repr

def itemStart? (c : Cursor) : Option ItemStart :=
  let (missing, c) := c.take 4
  if missing = 0 ∨ isRule c.rest then none
  else
    match itemMark? c.rest with
    | none => none
    | some (mark, number, rest) =>
      let width := c.rest.length - rest.length
      let (_, behind) := (c.skip width).take 1
      let indent := 4 - missing + width + 1
      if isBlank behind.rest then some ⟨mark, number, indent, behind⟩
      else
        match behind.take 4 with
        | (0, _) => some ⟨mark, number, indent, behind⟩
        | (more, place) => some ⟨mark, number, indent + (4 - more), place⟩

/-- The place behind the mark of a quote and one blank. -/
def quoteMark? (c : Cursor) : Option Cursor :=
  let (missing, c) := c.take 4
  if missing = 0 then none
  else
    match c.rest with
    | '>' :: _ => some ((c.skip 1).take 1).2
    | _ => none

/-- What a line is beside: whether it continues all that is open, and whether that is a table. -/
structure Setting where
  continues : Bool
  inTable : Bool

/-- Whether a list begins here though a paragraph is open. A numbered one begins with one, and an
item is not empty. -/
def listInterrupts (s : Setting) (cs : List Char) (next : Option Line) : Bool :=
  match itemMark? cs with
  | none => false
  | some (mark, number, rest) =>
    !s.continues || s.inTable ||
      ((isBullet mark || number == 1) && !(isBlank rest && next.all fun l => isBlank l.text))

/-- Whether a line, behind its blanks, ends a paragraph or a table. -/
def interrupts (s : Setting) (cs : List Char) (next : Option Line) : Bool :=
  cs == [] || isRule cs || (headingMark? cs).isSome || (fence? 0 cs).isSome ||
    cs.head? == some '>' || listInterrupts s cs next ||
    match cs with
    | '<' :: r => (markupStart? r).isSome
    | _ => false

end Marginalia.Markdown
