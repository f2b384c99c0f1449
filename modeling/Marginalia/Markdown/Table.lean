import Marginalia.Text.Blank
import Marginalia.Text.Punctuation
import Marginalia.Markdown.Cursor

/-!
Tables: a row of heads, a row of dashes that says how the columns are set, and rows of cells.
-/

namespace Marginalia.Markdown

/-- A column of the row of dashes while it is read. -/
structure Column where
  alignment : Alignment
  /-- Whether nothing has been read. -/
  bare : Bool
  dashed : Bool
deriving DecidableEq, Repr

def Column.start : Column := ⟨.unset, true, false⟩

/-- A colon in front sets a column left, one behind right, and both set it in the middle. -/
def Column.colon (c : Column) : Column :=
  let alignment := match c.bare, c.alignment with
    | true, .unset => .left
    | false, .left => .center
    | false, .unset => .right
    | _, a => a
  { c with alignment := alignment, bare := false }

/-- The columns from a place in the row of dashes on; each column holds a dash. -/
def columnsFrom? (c : Column) : List Char → Option (List Alignment)
  | [] =>
    if c.bare then some []
    else if c.dashed then some [c.alignment]
    else none
  | ' ' :: cs => columnsFrom? c cs
  | ':' :: cs => columnsFrom? c.colon cs
  | '-' :: cs => columnsFrom? { c with bare := false, dashed := true } cs
  | '|' :: cs =>
    if c.dashed then (columnsFrom? .start cs).map (c.alignment :: ·) else none
  | _ :: _ => none

/-- The columns that a row of dashes sets. -/
def columns? (c : Cursor) : Option (List Alignment) :=
  let (missing, c) := c.take 4
  if missing = 0 then none
  else
    let cs := match c.rest with
      | '|' :: cs => cs
      | cs => cs
    match columnsFrom? .start cs with
    | some [] => none
    | r => r

/-- The cells of a row from inside a cell on. A bar behind a backslash belongs to the cell, and
the backslash goes away. -/
def cellsFrom (cell : List Char) : List Char → List (List Char)
  | [] => [cell.reverse]
  | '\\' :: '|' :: cs => cellsFrom ('|' :: cell) cs
  | '\\' :: '\\' :: '|' :: cs => cellsFrom ('|' :: '\\' :: cell) cs
  | '\\' :: c :: cs =>
    if Text.isAsciiPunctuation c then cellsFrom (c :: '\\' :: cell) cs
    else cellsFrom ('\\' :: cell) (c :: cs)
  | '|' :: cs => if isBlank cs then [cell.reverse] else cell.reverse :: cellsFrom [] cs
  | c :: cs => cellsFrom (c :: cell) cs

/-- The cells of a row; a bar at either end of the line is not part of any. -/
def cells (line : List Char) : List (List Char) :=
  let line := trimSpaces line
  let inner := match line with
    | '|' :: cs => cs
    | cs => cs
  if isBlank inner then []
  else (cellsFrom [] inner).map fun c => Text.dropEnd isSpace (trimSpaces c)

/-- How many bars of a line divide it. -/
def barCount : List Char → Nat
  | [] => 0
  | '\\' :: c :: cs => if Text.isAsciiPunctuation c then barCount cs else barCount (c :: cs)
  | c :: cs => barCount cs + if c = '|' then 1 else 0

/-- The cells of a row, as many as there are columns. -/
def rowCells (columns : Nat) (cells : List (List Char)) : List (List Char) :=
  cells.take columns ++ List.replicate (columns - cells.length) []

end Marginalia.Markdown
