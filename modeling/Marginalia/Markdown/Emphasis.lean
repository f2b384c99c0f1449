import Marginalia.Text.Blank
import Marginalia.Text.Punctuation
import Marginalia.Markdown.Basic

/-!
Pairing the marks of emphasis. A run of marks may open, close or do both, by the characters on
its two sides; a closing run takes the nearest opening one that it may be paired with, and what
stays without partner is text.
-/

namespace Marginalia.Markdown

/-- A run of one mark. -/
structure Run where
  mark : Char
  length : Nat
  opens : Bool
  closes : Bool
deriving DecidableEq, Repr

/-- A part of a text on its way: finished, or a run of marks. -/
inductive Piece where
  | done (i : Inline)
  | run (r : Run)
deriving Inhabited, Repr

def isMark (c : Char) : Bool := c == '*' || c == '_' || c == '~'

/-- Whether a run may open: no blank follows, and where the run could stand inside a word, its
mark is one that may. -/
def mayOpen (mark : Char) (length : Nat) (before after : Option Char) : Bool :=
  match after with
  | none => false
  | some a =>
    !Text.isBlank a &&
      ((mark == '*' && !Text.isPunctuation a) || (mark == '~' && 1 < length) ||
        match before with
        | none => true
        | some b =>
          (mark == '~' && b == '~' && !Text.isPunctuation a) || Text.isBlank b ||
            Text.isPunctuation b)

/-- Whether a run may close: no blank stands before it, and where the run could stand inside a
word, its mark is one that may. -/
def mayClose (mark : Char) (length : Nat) (before after : Option Char) : Bool :=
  match before with
  | none => false
  | some b =>
    !Text.isBlank b &&
      match after with
      | none => true
      | some a =>
        ((mark == '*' || (mark == '~' && 1 < length)) && !Text.isPunctuation b) ||
          (mark == '~' && b == '~') || Text.isBlank a || Text.isPunctuation a

/-- The run of marks between two characters. More than two tildes are text. -/
def Run.between? (mark : Char) (length : Nat) (before after : Option Char) : Option Run :=
  let r : Run := ⟨mark, length, mayOpen mark length before after, mayClose mark length before after⟩
  if (r.opens || r.closes) && (mark != '~' || length ≤ 2) then some r else none

/-- An open run: how many of its marks have no partner yet, and what follows it, last first. -/
structure Opener where
  run : Run
  left : Nat
  inner : List Inline
deriving Repr

def marks (mark : Char) (n : Nat) : List Inline :=
  if n = 0 then [] else [.text (List.replicate n mark)]

/-- What an open run comes to where nothing closes it, last first. -/
def Opener.asText (o : Opener) : List Inline := o.inner ++ marks o.run.mark o.left

/-- Whether an opening and a closing run may be paired. Tildes need runs of one length. Where one
of two runs could both open and close, their lengths must not add up to a multiple of three,
unless both are such multiples. -/
def mayPair (o c : Run) : Bool :=
  o.mark == c.mark &&
    (if c.mark == '~' then o.length == c.length
     else !((o.opens && o.closes) || (c.opens && c.closes)) ||
       (o.length + c.length) % 3 != 0 || c.length % 3 == 0)

/-- The nearest opener that a closing run may be paired with: what stands between them, last
first, the opener, and the ones outside it. -/
def findOpener? (c : Run) : List Opener → Option (List Inline × Opener × List Opener)
  | [] => none
  | o :: os =>
    if mayPair o.run c then some ([], o, os)
    else
      match findOpener? c os with
      | some (between, p, rest) => some (o.asText ++ between, p, rest)
      | none => none

/-- The text between `n` pairs of marks; two pairs at a time count as one strong one, from the
inside out. -/
def wrap (mark : Char) : Nat → List Inline → Inline
  | 0, inner => .styled .emphasis inner
  | 1, inner => .styled (if mark = '~' then .deleted else .emphasis) inner
  | 2, inner => .styled (if mark = '~' then .deleted else .strong) inner
  | n + 3, inner =>
    wrap mark (n + 1) [.styled (if mark = '~' then .deleted else .strong) inner]

/-- The parts of a text being paired: the open runs, innermost first, and what stands before all
of them, last first. -/
structure Pairing where
  base : List Inline
  openers : List Opener
deriving Repr

def Pairing.add (p : Pairing) (is : List Inline) : Pairing :=
  match p.openers with
  | [] => { p with base := is ++ p.base }
  | o :: os => { p with openers := { o with inner := is ++ o.inner } :: os }

/-- Opening runs of tildes turned into text. -/
def settleTildes : List Opener → List Inline × List Opener
  | [] => ([], [])
  | o :: os =>
    let (text, os) := settleTildes os
    if o.run.mark = '~' then
      match os with
      | [] => (o.asText ++ text, [])
      | p :: ps => (text, { p with inner := o.asText ++ p.inner } :: ps)
    else (text, o :: os)

/-- A closing run with `left` marks takes partners as long as it finds any: how many marks are
left over, and the parts after that. Where a run of tildes finds no partner, none behind it may
find one before it. -/
def Pairing.close (c : Run) : Nat → Nat → Pairing → Nat × Pairing
  | 0, left, p => (left, p)
  | _ + 1, 0, p => (0, p)
  | fuel + 1, left, p =>
    match findOpener? c p.openers with
    | none =>
      if c.mark = '~' then
        let (text, os) := settleTildes p.openers
        (left, ⟨text ++ p.base, os⟩)
      else (left, p)
    | some (between, o, os) =>
      let n := min left o.left
      let whole := wrap c.mark n (between ++ o.inner).reverse
      let p : Pairing := ⟨p.base, os⟩
      let p :=
        if o.left = n then p.add [whole]
        else { p with openers := { o with left := o.left - n, inner := [whole] } :: p.openers }
      Pairing.close c fuel (left - n) p

def Pairing.step (p : Pairing) : Piece → Pairing
  | .done i => p.add [i]
  | .run r =>
    let (left, p) := if r.closes then p.close r r.length r.length else (r.length, p)
    if left = 0 then p
    else if r.opens then { p with openers := ⟨r, left, []⟩ :: p.openers }
    else p.add (marks r.mark left)

/-- What is left open turned into text. -/
def Pairing.finish (p : Pairing) : List Inline :=
  ((p.openers.flatMap Opener.asText) ++ p.base).reverse

/-- The inlines of a row of pieces. -/
def pair (ps : List Piece) : List Inline := (ps.foldl Pairing.step ⟨[], []⟩).finish

end Marginalia.Markdown
