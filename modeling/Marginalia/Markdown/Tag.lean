import Marginalia.Text.Blank
import Marginalia.Markdown.Basic

/-!
Tags, comments, instructions and declarations in marked-down text, and the lines that begin a
block of them.
-/

namespace Marginalia.Markdown

open Text (isLetter isDigit dropLead? splitAt?)

/-- Blanks and line ends between the parts of a tag. -/
def skipGaps (cs : List Char) : List Char := cs.dropWhile fun c => isSpace c || c == '\n'

/-- What follows the name of an element. -/
def elementName? : List Char → Option (List Char)
  | c :: cs =>
    if isLetter c then some (cs.dropWhile fun c => isLetter c || isDigit c || c == '-') else none
  | [] => none

def isAttributeChar (c : Char) : Bool :=
  isLetter c || isDigit c || c == '_' || c == '.' || c == ':' || c == '-'

/-- The characters of an attribute value without quotes. -/
def isBareChar (c : Char) : Bool :=
  !(c == '\'' || c == '"' || c == ' ' || c == '=' || c == '>' || c == '<' || c == '\x60' ||
    c == '\n')

/-- What follows an attribute value. -/
def attributeValue? : List Char → Option (List Char)
  | [] => none
  | c :: cs =>
    if c = '"' ∨ c = '\'' then (splitAt? [c] cs).map Prod.snd
    else if isBareChar c then some (cs.dropWhile isBareChar)
    else none

/-- What follows an attribute. -/
def attribute? : List Char → Option (List Char)
  | [] => none
  | c :: cs =>
    if isLetter c || c == '_' || c == ':' then
      let r := cs.dropWhile isAttributeChar
      match skipGaps r with
      | '=' :: v => attributeValue? (skipGaps v)
      | _ => some r
    else none

/-- What follows the attributes of a tag. The fuel bounds their number. -/
def attributes? : Nat → List Char → Option (List Char)
  | 0, _ => none
  | fuel + 1, cs =>
    let r := skipGaps cs
    match r with
    | [] => none
    | '/' :: _ => some r
    | '>' :: _ => some r
    | _ => if r.length = cs.length then none else (attribute? r).bind (attributes? fuel)

/-- What follows a tag, from behind its opening bracket. -/
def tag? : List Char → Option (List Char)
  | '/' :: cs => do
    let r ← elementName? cs
    dropLead? ['>'] (trimSpaces r)
  | cs => do
    let r ← elementName? cs
    let r ← attributes? (r.length + 1) r
    match r with
    | '/' :: '>' :: r => return r
    | '>' :: r => return r
    | _ => none

/-- What follows the end of something. -/
def after? (closing : String) (cs : List Char) : Option (List Char) :=
  (splitAt? closing.toList cs).map Prod.snd

/-- What follows a comment, a declaration or a character data section, from behind `<!`. -/
def declaration? : List Char → Option (List Char)
  | '-' :: '-' :: '>' :: cs => some cs
  | '-' :: '-' :: '-' :: '>' :: cs => some cs
  | '-' :: '-' :: cs => after? "-->" cs
  | cs =>
    match dropLead? "[CDATA[".toList cs with
    | some r => after? "]]>" r
    | none => if cs.head?.any isLetter then after? ">" cs else none

/-- What follows a piece of markup, from behind its opening bracket. -/
def markup? : List Char → Option (List Char)
  | '!' :: cs => declaration? cs
  | '?' :: cs => after? "?>" cs
  | cs => tag? cs

/-- Where a block of markup ends. -/
inductive MarkupEnd where
  /-- With the line that holds a text. -/
  | mark (closing : List Char)
  /-- Before a blank line. -/
  | blankLine
deriving DecidableEq, Repr

/-- The elements whose text is kept as it is. -/
def rawElements : List String := ["pre", "style", "script", "textarea"]

/-- The elements that begin a block. -/
def blockElements : List String := [
    "address", "article", "aside", "base", "basefont", "blockquote", "body", "caption", "center",
    "col", "colgroup", "dd", "details", "dialog", "dir", "div", "dl", "dt", "fieldset",
    "figcaption", "figure", "footer", "form", "frame", "frameset", "h1", "h2", "h3", "h4", "h5",
    "h6", "head", "header", "hr", "html", "iframe", "legend", "li", "link", "main", "menu",
    "menuitem", "nav", "noframes", "ol", "optgroup", "option", "p", "param", "search", "section",
    "summary", "table", "tbody", "td", "tfoot", "th", "thead", "title", "tr", "track", "ul"]

/-- The name of an element in front, in small letters, and what follows it. -/
def leadingName (cs : List Char) : List Char × List Char :=
  let isNamed (c : Char) := isLetter c || isDigit c
  ((cs.takeWhile isNamed).map Text.lower, cs.dropWhile isNamed)

/-- Whether a name of a block's element ends here. -/
def endsName : List Char → Bool
  | [] => true
  | '/' :: '>' :: _ => true
  | c :: _ => c == ' ' || c == '\t' || c == '>'

/-- The end of an element whose text is kept, where a line begins with one. -/
def rawElement? (cs : List Char) : Option (List Char) :=
  rawElements.findSome? fun name =>
    let name := name.toList
    let rest := cs.drop name.length
    if (cs.take name.length).map Text.lower = name ∧
        (rest = [] ∨ rest.head?.any fun c => isSpace c || c == '>') then
      some ("</".toList ++ name ++ ['>'])
    else none

/-- The block of markup that a line begins, even inside a paragraph. The line is given from
behind its opening bracket. -/
def markupStart? (cs : List Char) : Option MarkupEnd :=
  match rawElement? cs with
  | some closing => some (.mark closing)
  | none =>
    if Text.startsWith "!--".toList cs then some (.mark "-->".toList)
    else if Text.startsWith ['?'] cs then some (.mark "?>".toList)
    else if Text.startsWith "![CDATA[".toList cs then some (.mark "]]>".toList)
    else if cs.head? = some '!' ∧ cs.tail.head?.any isLetter then some (.mark ['>'])
    else
      let (name, rest) := leadingName (if cs.head? = some '/' then cs.drop 1 else cs)
      if blockElements.contains (String.ofList name) && endsName rest then some .blankLine
      else none

/-- The block of markup that a line begins where no paragraph is open: a whole tag on a line of
its own begins one as well. -/
def markupBlock? (cs : List Char) : Option MarkupEnd :=
  match markupStart? cs with
  | some e => some e
  | none => match tag? cs with
    | some r => if isBlank r then some .blankLine else none
    | none => none

end Marginalia.Markdown
