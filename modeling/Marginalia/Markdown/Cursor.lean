import Marginalia.Markdown.Basic

/-!
Lines, and places in the blanks at their start. A tab fills up to the next column that is a
multiple of four, and may be taken in parts.
-/

namespace Marginalia.Markdown

/-- A line without its end. -/
structure Line where
  text : List Char
  /-- Whether a line end follows. -/
  ended : Bool
deriving DecidableEq, Repr

/-- The lines of a text; a line feed, a carriage return or both end one. -/
def Line.ofText : List Char → List Line
  | [] => []
  | '\r' :: '\n' :: cs => ⟨[], true⟩ :: Line.ofText cs
  | c :: cs =>
    if c = '\n' ∨ c = '\r' then ⟨[], true⟩ :: Line.ofText cs
    else
      match Line.ofText cs with
      | [] => [⟨[c], false⟩]
      | l :: ls => ⟨c :: l.text, l.ended⟩ :: ls

/-- The end of a line as text. -/
def Line.ending (l : Line) : List Char := if l.ended then ['\n'] else []

/-- A place in a line: what follows it, its column, and how much of the tab before it is left. -/
structure Cursor where
  rest : List Char
  column : Nat
  pending : Nat
deriving DecidableEq, Repr

def Cursor.start (l : Line) : Cursor := ⟨l.text, 0, 0⟩

def Cursor.takeFrom (n : Nat) (column pending : Nat) : List Char → Nat × Cursor
  | [] => (n, ⟨[], column, pending⟩)
  | c :: cs =>
    if n = 0 then (0, ⟨c :: cs, column, pending⟩)
    else if c = ' ' then takeFrom (n - 1) (column + 1) 0 cs
    else if c = '\t' then
      let width := 4 - column % 4
      takeFrom (n - min width n) (column + width) (width - n) cs
    else (n, ⟨c :: cs, column, pending⟩)

/-- Takes columns of blanks as long as there are any, and says how many were missing. -/
def Cursor.take (c : Cursor) (n : Nat) : Nat × Cursor :=
  Cursor.takeFrom (n - c.pending) c.column (c.pending - n) c.rest

/-- Takes one character. -/
def Cursor.skip (c : Cursor) (n : Nat) : Cursor := ⟨c.rest.drop n, c.column + n, 0⟩

/-- The rest of the line, the tab in front of it filled up with spaces. -/
def Cursor.line (c : Cursor) : List Char := List.replicate c.pending ' ' ++ c.rest

/-- The rest of the line behind its blanks. -/
def Cursor.behindBlanks (c : Cursor) : List Char :=
  c.rest.dropWhile fun ch => ch == ' ' || ch == '\t'

end Marginalia.Markdown
