import Marginalia.Markdown.LineStart
import Marginalia.Markdown.Table

/-!
The blocks of a document, read line by line. Quotes, lists and items stay open as long as lines
continue them; paragraphs, code and markup take the lines they need.
-/

namespace Marginalia.Markdown

/-- What is open, its blocks or items so far, the last one first. -/
inductive Frame where
  | quote (done : List Block)
  | list (mark : Char) (first : Nat) (tight : Bool) (items : List (List Block))
  /-- An item, and how far its lines are indented. -/
  | item (indent : Nat) (done : List Block)
deriving Repr

/-- The place behind what a line has to begin with to continue a frame. A blank line continues
every item. -/
def Frame.continue? (c : Cursor) : Frame → Option Cursor
  | .quote _ => quoteMark? c
  | .list .. => some c
  | .item indent _ =>
    let (missing, c) := c.take indent
    if missing = 0 ∨ c.rest = [] then some c else none

/-- How many frames, from the outside, a line continues, and the place behind what that takes. -/
def continueAll (c : Cursor) : List Frame → Nat × Cursor
  | [] => (0, c)
  | f :: fs =>
    match f.continue? c with
    | none => (0, c)
    | some c =>
      let (n, c) := continueAll c fs
      (n + 1, c)

/-- The place in a line behind what it takes to continue all frames. -/
def inside? (frames : List Frame) (l : Line) : Option Cursor :=
  match continueAll (.start l) frames with
  | (n, c) => if n = frames.length then some c else none

/-- A document being read. -/
structure Builder where
  /-- What is open, innermost first. -/
  frames : List Frame
  /-- The blocks outside all frames, last first. -/
  top : List Block
  /-- Whether the last line was blank, so that a list it stands in is loose. -/
  blank : Bool
  /-- Whether the innermost item has nothing but its mark so far. -/
  bareItem : Bool
  /-- The definitions so far, last first. -/
  definitions : List Definition
deriving Repr

namespace Builder

def start : Builder := ⟨[], [], false, false, []⟩

/-- A block added inside the innermost frame. -/
def add (b : Builder) (x : Block) : Builder :=
  match b.frames with
  | [] => { b with top := x :: b.top }
  | .quote done :: fs => { b with frames := .quote (x :: done) :: fs }
  | .item indent done :: fs => { b with frames := .item indent (x :: done) :: fs }
  | .list mark first tight items :: fs =>
    { b with frames := .list mark first tight ([x] :: items) :: fs }

def push (b : Builder) (f : Frame) : Builder := { b with frames := f :: b.frames }

/-- The innermost frame closed. -/
def close (b : Builder) : Builder :=
  match b.frames with
  | [] => b
  | .quote done :: fs => { b with frames := fs }.add (.quote done.reverse)
  | .item _ done :: .list mark first tight items :: fs =>
    { b with frames := .list mark first tight (done.reverse :: items) :: fs }
  | .item _ done :: fs => { b with frames := fs }.add (.list none true [done.reverse])
  | .list mark first tight items :: fs =>
    { b with frames := fs, bareItem := if tight then false else b.bareItem }.add
      (.list (if isBullet mark then none else some first) tight items.reverse)

/-- Frames closed from the inside until `n` are left. -/
def closeTo (n : Nat) (b : Builder) : Builder := (b.frames.drop n).foldl (fun b _ => b.close) b

/-- An item that holds a blank line and nothing else ends there. -/
def finishBareItem (b : Builder) : Builder :=
  let b := if b.bareItem && b.blank then
      match b.frames with
      | .item .. :: _ => b.close
      | _ => b
    else b
  { b with bareItem := false }

/-- Makes ready for a block that is no item: a list without open item ends, and a blank line
before the block makes the list around it loose. -/
def finishList (b : Builder) : Builder :=
  let b := b.finishBareItem
  let b := match b.frames with
    | .list .. :: _ => b.close
    | _ => b
  if b.blank then
    match b.frames with
    | .item indent done :: .list mark first _ items :: fs =>
      { b with frames := .item indent done :: .list mark first false items :: fs, blank := false }
    | _ => { b with blank := false }
  else b

/-- Makes ready for an item: an open list with the same mark goes on, and a blank line makes it
loose; else a list begins. -/
def continueList (b : Builder) (mark : Char) (number : Nat) : Builder :=
  let b := b.finishBareItem
  let anew (b : Builder) : Builder :=
    { b.finishList with blank := false }.push (.list mark number true [])
  match b.frames with
  | .list mark' first tight items :: fs =>
    if mark' = mark then
      { b with frames := .list mark first (tight && !b.blank) items :: fs, blank := false }
    else anew b
  | _ => anew b

/-- Opens the items and quotes that begin at a place of a line, and gives the place behind them
unless an item uses up the line. The fuel bounds their number. -/
def openAll : Nat → Builder → Cursor → Builder × Option Cursor
  | 0, b, c => (b, some c)
  | fuel + 1, b, c =>
    match itemStart? c with
    | some i =>
      let b := (b.continueList i.mark i.number).push (.item i.indent [])
      if isBlank i.place.rest then ({ b with bareItem := true }, none)
      else openAll fuel b i.place
    | none =>
      match quoteMark? c with
      | some c => openAll fuel (b.finishList.push (.quote [])) c
      | none => (b, some c)

/-- A blank line. An item that is bare so far can hold no more. -/
def addBlank (b : Builder) : Builder :=
  match b.frames with
  | .quote _ :: _ => b
  | .item indent done :: fs =>
    { b with frames := .item (if b.bareItem then 0 else indent) done :: fs, blank := true }
  | _ => { b with blank := true }

end Builder

/-- The lines of indented code after its first one, each with whether it is blank. -/
def indentedLines (frames : List Frame) : List Line → List (List Char × Bool)
  | [] => []
  | l :: ls =>
    match inside? frames l with
    | none => []
    | some c =>
      let (missing, c) := c.take 4
      if missing = 0 ∨ c.rest = [] then
        (c.line ++ l.ending, isBlank c.rest) :: indentedLines frames ls
      else []

/-- The text of fenced code, and how many lines it takes with the closing fence. -/
def fencedLines (frames : List Frame) (f : Fence) : List Line → List Char × Nat
  | [] => ([], 0)
  | l :: ls =>
    match inside? frames l with
    | none => ([], 0)
    | some c =>
      let (_, c) := c.take f.indent
      if f.isClosedBy c then ([], 1)
      else
        let (text, n) := fencedLines frames f ls
        (c.line ++ l.ending ++ text, n + 1)

/-- The text of a block of markup after a line of it, and how many lines it takes. -/
def markupLines (frames : List Frame) (e : MarkupEnd) (last : List Char) :
    List Line → List Char × Nat
  | [] => ([], 0)
  | l :: ls =>
    match inside? frames l with
    | none => ([], 0)
    | some c =>
      let closed := match e with
        | .mark closing => (Text.splitAt? closing last).isSome
        | .blankLine => isBlank c.rest
      if closed then ([], 0)
      else
        let (text, n) := markupLines frames e c.line ls
        (c.line ++ l.ending ++ text, n + 1)

/-- The rows of a table with a number of columns, and how many lines they take. -/
def tableRows (frames : List Frame) (columns : Nat) : List Line → List (List (List Char)) × Nat
  | [] => ([], 0)
  | l :: ls =>
    match inside? frames l with
    | none => ([], 0)
    | some c =>
      let row := c.behindBlanks
      if interrupts ⟨true, true⟩ row ls.head? ∨ cells row = [] then ([], 0)
      else
        let (rows, n) := tableRows frames columns ls
        (rowCells columns (cells row) :: rows, n + 1)

/-- The table that a line and the ones after it are, and how many it takes after the first. -/
def table? (frames : List Frame) (head : List Char) : List Line → Option (Block × Nat)
  | [] => none
  | l :: ls => do
    let c ← inside? frames l
    let columns ← columns? c
    if barCount head = 0 ∨ (cells head).length ≠ columns.length then none
    let (rows, n) := tableRows frames columns.length ls
    return (.table columns (cells head) rows, n + 1)

/-- Whether a line, behind its blanks, ends a paragraph. A table does so where its first line
begins with a bar. -/
def endsParagraph (frames : List Frame) (continues : Bool) (cs : List Char) (next : List Line) :
    Bool :=
  interrupts ⟨continues, false⟩ cs next.head? ||
    (cs.head? == some '|' && (table? frames cs next).isSome)

/-- The lines that go on with a paragraph: their text, the level of the heading that the last one
makes of it, and their number. A line need not continue what is open around the paragraph. -/
def paragraphLines (frames : List Frame) : List Line → List Char × Option Nat × Nat
  | [] => ([], none, 0)
  | l :: ls =>
    let (n, c) := continueAll (.start l) frames
    let continues := n = frames.length
    let (missing, near) := c.take 4
    let level := if missing ≠ 0 ∧ continues then underline? near.rest else none
    if level.isSome then ([], level, 1)
    else if (missing ≠ 0 ∧ endsParagraph frames continues near.rest ls) ∨
        c.behindBlanks = [] then ([], none, 0)
    else
      let (text, level, n) := paragraphLines frames ls
      ('\n' :: c.rest ++ text, level, n + 1)

/-- The lines that a definition may take after its first one. -/
def definitionLines (frames : List Frame) : List Line → List Char
  | [] => []
  | l :: ls =>
    match inside? frames l with
    | none => []
    | some c =>
      if endsParagraph frames true c.behindBlanks ls then []
      else '\n' :: c.rest ++ definitionLines frames ls

namespace Builder

/-- Indented code that begins at a place of a line. Blank lines at its end are no part of it. -/
def addIndented (b : Builder) (c : Cursor) (l : Line) (rest : List Line) : Nat × Builder :=
  let more := indentedLines b.frames.reverse rest
  let kept := Text.dropEnd Prod.snd more
  let text := c.line ++ l.ending ++ kept.flatMap Prod.fst
  (more.length, { b with blank := more.length ≠ kept.length }.add (.code [] text))

/-- The paragraph, or the heading, that a line begins. -/
def addParagraph (b : Builder) (first : List Char) (rest : List Line) : Nat × Builder :=
  let (text, level, n) := paragraphLines b.frames.reverse rest
  let whole := Text.dropEnd isSpace (first ++ text)
  match level with
  | some k => (n, b.add (.heading k whole))
  | none => (n, b.add (.paragraph whole))

/-- A block that begins at a place of a line, and how many lines it takes after that. -/
def addBlock (b : Builder) (c : Cursor) (l : Line) (rest : List Line) : Nat × Builder :=
  let b := b.finishList
  let frames := b.frames.reverse
  let (missing, c) := c.take 4
  if missing = 0 then b.addIndented c l rest
  else
    let cs := c.rest
    let markup := match cs with
      | '<' :: r => markupBlock? r
      | _ => none
    match markup with
    | some e =>
      let (text, n) := markupLines frames e cs rest
      (n, b.add (.markup (List.replicate (4 - missing) ' ' ++ cs ++ l.ending ++ text)))
    | none =>
      if isRule cs then (0, b.add .rule)
      else
        match headingMark? cs with
        | some (level, r) => (0, b.add (.heading level (headingText r)))
        | none =>
          let source := cs ++ definitionLines frames rest
          match Definition.read? source with
          | some (d, after) =>
            let taken := (source.take (source.length - after.length)).count '\n'
            (taken, { b with definitions := d :: b.definitions })
          | none =>
            match fence? (4 - missing) cs with
            | some f =>
              let (text, n) := fencedLines frames f rest
              (n, b.add (.code f.language text))
            | none =>
              match table? frames cs rest with
              | some (t, n) => (n, b.add t)
              | none => b.addParagraph cs rest

/-- One line outside of blocks that take several, and how many more its block takes. -/
def addLine (b : Builder) (l : Line) (rest : List Line) : Nat × Builder :=
  let (n, c) := continueAll (.start l) b.frames.reverse
  match (b.closeTo n).openAll (l.text.length + 1) c with
  | (b, none) => (0, b)
  | (b, some c) => if isBlank c.rest then (0, b.addBlank) else b.addBlock c l rest

/-- Reads lines. The first argument counts the ones that a block took already. -/
def addLines : Nat → List Line → Builder → Builder
  | _, [], b => b
  | skip + 1, _ :: ls, b => addLines skip ls b
  | 0, l :: ls, b =>
    let (n, b) := b.addLine l ls
    addLines n ls b

end Builder

/-- A document: its blocks, and what its labels lead to. -/
structure Document where
  blocks : List Block
  definitions : List Definition
deriving Repr

/-- The document that a text is. Every text is one. -/
def Document.read (text : List Char) : Document :=
  let b := (Builder.start.addLines 0 (Line.ofText text)).closeTo 0
  ⟨b.top.reverse, b.definitions.reverse⟩

end Marginalia.Markdown
