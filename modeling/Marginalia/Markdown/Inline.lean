import Marginalia.Markdown.Emphasis
import Marginalia.Markdown.Link

/-!
Reading the inlines of a text. Code, markup and links bind tighter than emphasis, and the first
of them that is complete wins.
-/

namespace Marginalia.Markdown

open Text (isAsciiPunctuation)

/-- An opening bracket, of a link or an image, whose closing one has not come yet. -/
structure Bracket where
  image : Bool
  /-- Whether it may begin a link: one inside another does not. -/
  active : Bool
  /-- The pieces before it, last first. -/
  before : List Piece
  /-- The text after it. -/
  after : List Char
deriving Repr

def Bracket.mark (b : Bracket) : Piece :=
  .done (.text (if b.image then ['!', '['] else ['[']))

/-- A text being read: the pieces since the innermost open bracket, last first, and the open
brackets, innermost first. -/
structure Reading where
  pieces : List Piece
  brackets : List Bracket
  /-- How many characters follow the label that was tried last and names nothing. -/
  tried : Option Nat
deriving Repr

def Reading.push (s : Reading) (i : Inline) : Reading :=
  { s with pieces := .done i :: s.pieces }

/-- The characters that may be more than text. -/
def isSpecial (c : Char) : Bool :=
  c == '\n' || c == '\\' || c == '\x60' || c == '<' || c == '&' || c == '!' || c == '[' ||
    c == ']' || isMark c

/-- The text before the next run of exactly `n` backticks, and what follows that run. `inRun`
counts the backticks just before. -/
def codeUpTo? (n : Nat) : Nat → List Char → Option (List Char × List Char)
  | inRun, [] => if inRun = n then some ([], []) else none
  | inRun, c :: cs =>
    if c = '\x60' then (codeUpTo? n (inRun + 1) cs).map fun (t, r) => (c :: t, r)
    else if inRun = n then some ([], c :: cs)
    else (codeUpTo? n 0 cs).map fun (t, r) => (c :: t, r)

/-- A text on one line: a space for each line end and the blanks behind it. -/
def onOneLine (cs : List Char) : List Char :=
  match Text.splitOn '\n' cs with
  | [] => []
  | l :: ls =>
    Text.joinWith [' '] (l :: ls.map fun l => l.dropWhile fun c => c == ' ' || c == '\t')

/-- The text of a code span: one space at both ends is cut off, unless there is nothing else. -/
def codeText (cs : List Char) : List Char :=
  let cs := onOneLine cs
  if cs.all (· == ' ') then cs
  else if cs.head? = some ' ' ∧ cs.getLast? = some ' ' then (cs.drop 1).dropLast
  else cs

/-- The code span that a run of `n` backticks opens, and what follows it. -/
def codeSpan? (n : Nat) (cs : List Char) : Option (List Char × List Char) :=
  if n = 0 then none
  else (codeUpTo? n 0 cs).map fun (t, r) => (codeText (t.take (t.length - n)), r)

/-- What an opening angle bracket begins: a link that is its own text, or markup, which shows as
text. -/
def angle? (cs : List Char) : Option (Inline × List Char) :=
  match absoluteAddress? cs with
  | some (a, r) => some (.link a [] [.text a], r)
  | none =>
    match mailAddress? cs with
    | some (a, r) => some (.link ("mailto:".toList ++ a) [] [.text a], r)
    | none =>
      (markup? cs).map fun r => (.text ('<' :: cs.take (cs.length - r.length)), r)

/-- What a closing bracket behind an open one leads to: the target, the title and the text that
follows. `shortcut` says whether the bracketed text may be a label by itself; where a label
that names nothing follows, what comes after it is given. -/
def link? (ds : List Definition) (shortcut : Bool) (inner rest : List Char) :
    Option (List Char × List Char × List Char) × Option Nat :=
  match destination? rest with
  | some (target, title, r) => (some (target, title, r), none)
  | none =>
    let byLabel (text r : List Char) :=
      if shortcut && (Text.splitAt? ['['] (dropEscapes text)).isNone then do
        let d ← (label? text).bind (Definition.find? ds)
        return (d.target, d.title, r)
      else none
    match rest with
    | '[' :: ']' :: r => (byLabel inner r, none)
    | _ =>
      match bracketedLabel? rest with
      | some (label, r) =>
        match Definition.find? ds label with
        | some d => (some (d.target, d.title, r), none)
        | none => (none, some r.length)
      | none => (byLabel inner rest, none)
where
  /-- The text without its escaped characters. -/
  dropEscapes : List Char → List Char
    | [] => []
    | '\\' :: _ :: cs => dropEscapes cs
    | c :: cs => c :: dropEscapes cs

/-- Brackets of links can no longer begin one. -/
def deactivate (bs : List Bracket) : List Bracket :=
  bs.map fun b => if b.image then b else { b with active := false }

/-- A closing bracket, with the text behind it: the new state and the text after what was
read. -/
def Reading.close (ds : List Definition) (rest : List Char) (s : Reading) :
    Reading × List Char :=
  match s.brackets with
  | [] => (s.push (.text [']']), rest)
  | b :: bs =>
    let asText (tried : Option Nat) : Reading × List Char :=
      (⟨.done (.text [']']) :: (s.pieces ++ b.mark :: b.before), bs, tried⟩, rest)
    if !b.active then asText s.tried
    else
      let inner := b.after.take (b.after.length - (rest.length + 1))
      match link? ds (s.tried ≠ some rest.length) inner rest with
      | (some (target, title, r), _) =>
        let contents := pair s.pieces.reverse
        let made : Inline :=
          if b.image then .image target title contents else .link target title contents
        (⟨.done made :: b.before, if b.image then bs else deactivate bs, s.tried⟩, r)
      | (none, tried) => asText (match tried with
        | some n => some n
        | none => s.tried)

/-- A line end with `blanks` blanks before it; the ones behind it belong to it. -/
def Reading.breakLine (s : Reading) (hard : Bool) (rest : List Char) : Reading × List Char :=
  (s.push (.lineBreak hard), rest.dropWhile fun c => c == ' ' || c == '\t')

/-- One step through a text: the character `c` stands behind `before` and in front of `rest`. -/
def Reading.step (ds : List Definition) (before : Option Char) (c : Char) (rest : List Char)
    (s : Reading) : Reading × List Char :=
  if c = '\n' then s.breakLine false rest
  else if c = '\\' then
    match rest with
    | '\n' :: r => s.breakLine true r
    | d :: r => if isAsciiPunctuation d then (s.push (.text [d]), r) else (s.push (.text [c]), rest)
    | [] => (s.push (.text [c]), rest)
  else if c = '\x60' then
    let run := rest.takeWhile (· == '\x60')
    let behind := rest.drop run.length
    match codeSpan? (run.length + 1) behind with
    | some (t, r) => (s.push (.code t), r)
    | none => (s.push (.text (c :: run)), behind)
  else if c = '<' then
    match angle? rest with
    | some (i, r) => (s.push i, r)
    | none => (s.push (.text [c]), rest)
  else if c = '&' then
    match reference? rest with
    | some (value, r) => (s.push (.text value), r)
    | none => (s.push (.text [c]), rest)
  else if c = '[' then
    ({ s with pieces := [], brackets := ⟨false, true, s.pieces, rest⟩ :: s.brackets }, rest)
  else if c = '!' then
    match rest with
    | '[' :: r =>
      ({ s with pieces := [], brackets := ⟨true, true, s.pieces, r⟩ :: s.brackets }, r)
    | _ => (s.push (.text [c]), rest)
  else if c = ']' then s.close ds rest
  else if isMark c then
    let length := (rest.takeWhile (· == c)).length + 1
    let behind := rest.drop (length - 1)
    match Run.between? c length before behind.head? with
    | some r => ({ s with pieces := .run r :: s.pieces }, behind)
    | none => (s.push (.text (List.replicate length c)), behind)
  else
    let run := c :: rest.takeWhile fun d => !isSpecial d
    let behind := rest.drop (run.length - 1)
    match behind with
    | '\n' :: r =>
      let text := Text.dropEnd isSpace run
      let s := if text = [] then s else s.push (.text text)
      s.breakLine (text.length + 2 ≤ run.length) r
    | _ => (s.push (.text run), behind)

/-- Steps through a text. The first argument counts the characters that were read already. -/
def Reading.run (ds : List Definition) : Nat → Option Char → List Char → Reading → Reading
  | _, _, [], s => s
  | skip + 1, _, c :: cs, s => Reading.run ds skip (some c) cs s
  | 0, before, c :: cs, s =>
    let (s, rest) := s.step ds before c cs
    Reading.run ds (cs.length - rest.length) (some c) cs s

/-- All pieces, brackets that were never closed turned into text. -/
def Reading.finish (s : Reading) : List Piece :=
  (s.brackets.foldl (fun ps b => ps ++ b.mark :: b.before) s.pieces).reverse

/-- The inlines of a text, where labels lead as defined. -/
def Inline.read (ds : List Definition) (text : List Char) : List Inline :=
  pair ((Reading.run ds 0 none text ⟨[], [], none⟩).finish)

end Marginalia.Markdown
