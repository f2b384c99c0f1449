/-!
Marked-down text: a document is a row of blocks, and the text of a block is a row of inlines.
-/

namespace Marginalia.Markdown

/-- What a pair of marks says about the text between them. -/
inductive Style where
  | emphasis
  | strong
  | deleted
deriving DecidableEq, Repr

inductive Inline where
  | text (s : List Char)
  | code (s : List Char)
  /-- A line end; a hard one is shown as such. -/
  | lineBreak (hard : Bool)
  | styled (style : Style) (inner : List Inline)
  | link (target title : List Char) (inner : List Inline)
  | image (target title : List Char) (inner : List Inline)
deriving Inhabited, Repr

/-- How the cells of a column are set. -/
inductive Alignment where
  | unset
  | left
  | center
  | right
deriving DecidableEq, Repr

/-- A block. The text of paragraphs, headings and cells holds inlines; that of code and markup
stands for itself. -/
inductive Block where
  | paragraph (text : List Char)
  | heading (level : Nat) (text : List Char)
  | rule
  | code (language : List Char) (text : List Char)
  /-- Tags and what stands between them, up to a line that ends the run. -/
  | markup (text : List Char)
  | quote (blocks : List Block)
  /-- A list, with the number of its first item where it is numbered. In a tight one no blank
  line stands between the blocks. -/
  | list (first : Option Nat) (tight : Bool) (items : List (List Block))
  | table (columns : List Alignment) (head : List (List Char)) (rows : List (List (List Char)))
deriving Inhabited, Repr

/-- Where the links of a label lead. -/
structure Definition where
  label : List Char
  target : List Char
  title : List Char
deriving DecidableEq, Repr

/-- The definition of a label; the first one counts. -/
def Definition.find? (ds : List Definition) (label : List Char) : Option Definition :=
  ds.find? fun d => d.label = label

/-- A blank inside a line. -/
def isSpace (c : Char) : Bool := c == ' ' || c == '\t' || c == '\x0b' || c == '\x0c'

def trimSpaces (cs : List Char) : List Char := cs.dropWhile isSpace

/-- Whether a line, or what is left of it, is blank. -/
def isBlank (cs : List Char) : Bool := cs.all isSpace

end Marginalia.Markdown
