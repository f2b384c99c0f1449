import Marginalia.Json.Parser
import Marginalia.Json.Printer
import Marginalia.Json.Record
import Marginalia.Markdown.Html
import Marginalia.Text.Line

/-!
Notebooks: cells of marked-down text, of code with its outputs, or of plain text, and the lines
that show them. Of an output in several forms, the first one that is not plain text is shown.
-/

namespace Marginalia

/-- A text of a notebook, written as one string or as a list of parts. -/
inductive NotebookText where
  | whole (s : String)
  | parts (ss : List String)
deriving DecidableEq, Repr

namespace NotebookText

def ofJson? : Json → Option NotebookText
  | .array xs => (xs.mapM Json.text?).map .parts
  | .text s => some (.whole s)
  | _ => none

/-- The lines as they are written, with their ends: the parts of a list, or the lines of a
string. -/
def lines : NotebookText → List (List Char)
  | .whole s => Text.lineSegments s.toList
  | .parts ss => ss.map String.toList

def joined : NotebookText → List Char
  | .whole s => s.toList
  | .parts ss => ss.flatMap String.toList

end NotebookText

/-- What a cell of code led to. -/
inductive CellOutput where
  /-- The value of the cell in several forms, sorted by media type. -/
  | value (forms : List (String × Json)) (count : Option UInt64)
  | shown (forms : List (String × Json))
  | stream (text : NotebookText)
  | failure (reason : String)

inductive NotebookCell where
  | markdown (source : NotebookText)
  | code (source : NotebookText) (count : Option UInt64) (outputs : List CellOutput)
  | raw (source : NotebookText)

structure Notebook where
  cells : List NotebookCell

namespace CellOutput

open Json (nullable? uint64? text?)

/-- The forms of an output, one of each media type. -/
def formsOfJson? (j : Json) : Option (List (String × Json)) :=
  match j.settled? with
  | some (.object ms) => some ms
  | _ => none

def ofJson? (j : Json) : Option CellOutput := do
  let (kind, j) ← Json.tagged? "output_type" j
  match kind with
  | "execute_result" =>
    let r ← Json.record? ["data", "execution_count"] j
    let forms ← r.fieldOr? "data" [] formsOfJson?
    let count ← r.fieldOr? "execution_count" none (nullable? uint64?)
    return .value forms count
  | "display_data" =>
    let r ← Json.record? ["data"] j
    let forms ← r.fieldOr? "data" [] formsOfJson?
    return .shown forms
  | "stream" =>
    let r ← Json.record? ["text"] j
    let text ← r.fieldOr? "text" (.parts []) NotebookText.ofJson?
    return .stream text
  | "error" =>
    let r ← Json.record? ["evalue"] j
    let reason ← r.fieldOr? "evalue" "" text?
    return .failure reason
  | _ => none

/-- How often code had been run when this output came; only values tell. -/
def count : CellOutput → Option UInt64
  | .value _ n => n
  | _ => none

end CellOutput

namespace NotebookCell

open Json (nullable? uint64? items?)

/-- A cell is kept as it is while its kind is looked for, so that all of it has to be
readable. -/
def ofJson? (j : Json) : Option NotebookCell := do
  if !j.isKeepable 2 then none
  let (kind, j) ← Json.tagged? "cell_type" j
  match kind with
  | "markdown" =>
    let r ← Json.record? ["source"] j
    return .markdown (← r.fieldOr? "source" (.parts []) NotebookText.ofJson?)
  | "code" =>
    let r ← Json.record? ["source", "execution_count", "outputs"] j
    let source ← r.fieldOr? "source" (.parts []) NotebookText.ofJson?
    let count ← r.fieldOr? "execution_count" none (nullable? uint64?)
    let outputs ← r.fieldOr? "outputs" [] (items? CellOutput.ofJson?)
    return .code source count outputs
  | "raw" =>
    let r ← Json.record? ["source"] j
    return .raw (← r.fieldOr? "source" (.parts []) NotebookText.ofJson?)
  | _ => none

def kind : NotebookCell → List Char
  | .markdown _ => "markdown".toList
  | .code .. => "code".toList
  | .raw _ => "raw".toList

end NotebookCell

namespace Notebook

def ofJson? (j : Json) : Option Notebook := do
  let r ← Json.record? ["cells"] j
  let cells ← r.fieldOr? "cells" [] (Json.items? NotebookCell.ofJson?)
  return ⟨cells⟩

def parse? (s : String) : Option Notebook := (Json.parse? s).bind ofJson?

open Text (escapeChars)

def inDiv (inner : List Char) : List Char := "<div>".toList ++ inner ++ "</div>".toList

/-- A text in which blanks and line ends show. -/
def spaced (inner : List Char) : List Char :=
  "<div class=\"cell-with-whitespace\">".toList ++ inner ++ "</div>".toList

/-- The label of a cell's code or output; code that never ran has no number. -/
def label (name : List Char) (count : Option UInt64) : List Char :=
  let number := match count with
    | some n => if n = 0 then [' '] else Decimal.digits n.toNat
    | none => [' ']
  name ++ " [".toList ++ number ++ "]:".toList

/-- The text of a form: a string, the strings of a list, or any other value as JSON. -/
def formText : Json → List Char
  | .text s => s.toList
  | .array xs => xs.flatMap fun x => (x.text?.getD "").toList
  | j => (Json.compact j).toList

/-- The form that is shown out of several. -/
def chosenForm? (forms : List (String × Json)) : Option (String × Json) :=
  match forms.find? fun f => f.1 != "text/plain" with
  | some f => some f
  | none => forms.head?

def formLine (forms : List (String × Json)) : List Char :=
  match chosenForm? forms with
  | none => inDiv []
  | some (media, value) =>
    if Text.startsWith "image/".toList media.toList then
      "<img src=\"data:".toList ++ media.toList ++ ";base64, ".toList ++
        Text.trim (formText value) ++ "\" alt=\"cell output\" />".toList
    else inDiv (escapeChars (formText value))

def outputBody : CellOutput → List Char
  | .value forms _ => formLine forms
  | .shown forms => formLine forms
  | .stream text => spaced (escapeChars text.joined)
  | .failure reason => inDiv (escapeChars reason.toList)

def outputLines (o : CellOutput) : List (List Char) :=
  [inDiv (label "Out".toList o.count), outputBody o]

def cellBody : NotebookCell → List (List Char)
  | .markdown source => source.lines.map fun l => inDiv (Markdown.html l)
  | .code source count outputs =>
    label "In".toList count ::
      source.lines.map (fun l =>
        "<div class=\"input-area\">".toList ++ spaced (escapeChars l) ++ "</div>".toList) ++
      outputs.flatMap outputLines
  | .raw source => source.lines.map fun l => inDiv (escapeChars l)

def heading (number : Nat) (kind : List Char) : List Char :=
  "<div style=\"text-align: center\">Cell ".toList ++ Decimal.digits number ++ " (".toList ++
    kind ++ ")</div>".toList

/-- The lines of a cell, between its heading and a rule. -/
def cellLines (number : Nat) (c : NotebookCell) : List (List Char) :=
  heading number c.kind :: cellBody c ++ ["<hr />".toList]

/-- The lines of all cells, numbered from `number` on. -/
def linesFrom (number : Nat) : List NotebookCell → List (List Char)
  | [] => []
  | c :: cs => cellLines number c ++ linesFrom (number + 1) cs

/-- The lines that show a notebook. -/
def lines (n : Notebook) : List String := (linesFrom 1 n.cells).map String.ofList

end Notebook

end Marginalia
