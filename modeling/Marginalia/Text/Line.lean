import Marginalia.Text.Blank

/-!
Cutting a text into lines. A line ends at a line feed; whether a carriage return before it
belongs to the line, and whether the end is kept, is up to the reader of the lines.
-/

namespace Marginalia.Text

/-- The pieces of a text, each up to and with its line feed; a last piece may lack one. -/
def lineSegments : List Char → List (List Char)
  | [] => []
  | c :: cs =>
    if c = '\n' then [c] :: lineSegments cs
    else
      match lineSegments cs with
      | [] => [[c]]
      | l :: ls => (c :: l) :: ls

/-- A segment without its line end, a line feed with at most one carriage return before it. -/
def stripLineEnd (l : List Char) : List Char :=
  match l.reverse with
  | '\n' :: '\r' :: r => r.reverse
  | '\n' :: r => r.reverse
  | _ => l

/-- The lines of a text without their ends. -/
def lines (cs : List Char) : List (List Char) := (lineSegments cs).map stripLineEnd

def linesOf (s : String) : List String := (lines s.toList).map String.ofList

/-- The parts of a list between the members equal to `sep`; there is always one part. -/
def splitOn {α : Type} [BEq α] (sep : α) : List α → List (List α)
  | [] => [[]]
  | c :: cs =>
    if c == sep then [] :: splitOn sep cs
    else
      match splitOn sep cs with
      | [] => [[c]]
      | p :: ps => (c :: p) :: ps

def joinWith (sep : List Char) : List (List Char) → List Char
  | [] => []
  | [p] => p
  | p :: ps => p ++ sep ++ joinWith sep ps

end Marginalia.Text
