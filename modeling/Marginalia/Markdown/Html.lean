import Marginalia.Decimal.Natural
import Marginalia.Text.Markup
import Marginalia.Text.Utf8
import Marginalia.Markdown.Document
import Marginalia.Markdown.Inline

/-!
Documents as HTML. Markup in a document shows as text.
-/

namespace Marginalia.Markdown

open Text (escapeChars escapeAttributeChar)

/-- The bytes that stand for themselves in an address. -/
def isAddressByte (b : Nat) : Bool :=
  let c := Char.ofNat b
  b < 0x7F && 0x20 < b && !("\"<>\\[]^\x60\x7b|\x7d".toList.contains c)

/-- Two hexadecimal digits behind a percent sign. -/
def percent (b : Nat) : List Char :=
  let digit (n : Nat) := Char.ofNat (if n < 10 then 48 + n else 55 + n)
  ['%', digit (b / 16), digit (b % 16)]

/-- A character of an address inside a quoted attribute value. -/
def addressChar (c : Char) : List Char :=
  if c = '&' then "&amp;".toList
  else if c = '\'' then "&#x27;".toList
  else if isAddressByte c.toNat then [c]
  else (Text.Utf8.encode (String.singleton c)).flatMap fun b => percent b.toNat

def address (cs : List Char) : List Char := cs.flatMap addressChar

def attributeText (cs : List Char) : List Char := cs.flatMap escapeAttributeChar

/-- The attribute that tells a title, if there is one. -/
def titleAttribute (title : List Char) : List Char :=
  if title = [] then [] else "\" title=\"".toList ++ attributeText title

mutual
/-- An inline as the text that stands for an image. -/
def Inline.plain : Inline → List Char
  | .text s => attributeText s
  | .code s => attributeText s
  | .lineBreak _ => [' ']
  | .styled _ inner => Inline.plainAll inner
  | .link _ _ inner => Inline.plainAll inner
  | .image _ _ inner => Inline.plainAll inner
def Inline.plainAll : List Inline → List Char
  | [] => []
  | i :: is => i.plain ++ Inline.plainAll is
end

def Style.tag : Style → List Char
  | .emphasis => "em".toList
  | .strong => "strong".toList
  | .deleted => "del".toList

def inTag (tag inner : List Char) : List Char :=
  '<' :: tag ++ '>' :: inner ++ "</".toList ++ tag ++ ['>']

mutual
def Inline.html : Inline → List Char
  | .text s => escapeChars s
  | .code s => inTag "code".toList (escapeChars s)
  | .lineBreak hard => if hard then "<br />\n".toList else ['\n']
  | .styled style inner => inTag style.tag (Inline.htmlAll inner)
  | .link target title inner =>
    "<a href=\"".toList ++ address target ++ titleAttribute title ++ "\">".toList ++
      Inline.htmlAll inner ++ "</a>".toList
  | .image target title inner =>
    "<img src=\"".toList ++ address target ++ "\" alt=\"".toList ++ Inline.plainAll inner ++
      titleAttribute title ++ "\" />".toList
def Inline.htmlAll : List Inline → List Char
  | [] => []
  | i :: is => i.html ++ Inline.htmlAll is
end

/-- A text of inlines, where labels lead as defined. -/
def inlineHtml (ds : List Definition) (text : List Char) : List Char :=
  Inline.htmlAll (Inline.read ds text)

def Alignment.attribute : Alignment → List Char
  | .unset => []
  | .left => " style=\"text-align: left\"".toList
  | .center => " style=\"text-align: center\"".toList
  | .right => " style=\"text-align: right\"".toList

/-- The cells of a row, each in the setting of its column. -/
def rowHtml (ds : List Definition) (tag : List Char) (columns : List Alignment)
    (cells : List (List Char)) : List Char :=
  (columns.zip cells).flatMap fun (a, cell) =>
    '<' :: tag ++ a.attribute ++ '>' :: inlineHtml ds cell ++ "</".toList ++ tag ++ ['>']

def tableHtml (ds : List Definition) (columns : List Alignment) (head : List (List Char))
    (rows : List (List (List Char))) : List Char :=
  "<table><thead><tr>".toList ++ rowHtml ds "th".toList columns head ++
    "</tr></thead><tbody>\n".toList ++
    rows.flatMap (fun row =>
      "<tr>".toList ++ rowHtml ds "td".toList columns row ++ "</tr>\n".toList) ++
    "</tbody></table>\n".toList

def codeHtml (language text : List Char) : List Char :=
  let classes :=
    if language = [] then []
    else " class=\"language-".toList ++ attributeText language ++ ['"']
  "<pre><code".toList ++ classes ++ '>' :: escapeChars text ++ "</code></pre>\n".toList

/-- Whether a line begins after a text; `fresh` says whether one begins before it. -/
def beginsLine (fresh : Bool) (text : List Char) : Bool :=
  match text.getLast? with
  | none => fresh
  | some c => c == '\n'

/-- A line end where no line begins. -/
def newLine (fresh : Bool) : List Char := if fresh then [] else ['\n']

mutual
/-- A block, written where a line begins if `fresh`. In the items of a tight list, paragraphs
have no tags of their own. -/
def Block.html (ds : List Definition) (tight fresh : Bool) : Block → List Char
  | .paragraph text =>
    if tight then inlineHtml ds text
    else newLine fresh ++ "<p>".toList ++ inlineHtml ds text ++ "</p>\n".toList
  | .heading level text =>
    newLine fresh ++ inTag ('h' :: Decimal.digits level) (inlineHtml ds text) ++ ['\n']
  | .rule => newLine fresh ++ "<hr />\n".toList
  | .code language text => newLine fresh ++ codeHtml language text
  | .markup text => escapeChars text
  | .quote blocks =>
    newLine fresh ++ "<blockquote>\n".toList ++ Block.htmlAll ds false true blocks ++
      "</blockquote>\n".toList
  | .list first tight items =>
    let (opening, closing) := match first with
      | none => ("<ul>\n".toList, "</ul>\n".toList)
      | some n =>
        (if n = 1 then "<ol>\n".toList
         else "<ol start=\"".toList ++ Decimal.digits n ++ "\">\n".toList, "</ol>\n".toList)
    newLine fresh ++ opening ++ Block.itemsHtml ds tight items ++ closing
  | .table columns head rows => tableHtml ds columns head rows
def Block.htmlAll (ds : List Definition) (tight fresh : Bool) : List Block → List Char
  | [] => []
  | b :: bs =>
    let text := b.html ds tight fresh
    text ++ Block.htmlAll ds tight (beginsLine fresh text) bs
def Block.itemsHtml (ds : List Definition) (tight : Bool) : List (List Block) → List Char
  | [] => []
  | item :: items =>
    "<li>".toList ++ Block.htmlAll ds tight false item ++ "</li>\n".toList ++
      Block.itemsHtml ds tight items
end

/-- A document as HTML. -/
def Document.html (d : Document) : List Char := Block.htmlAll d.definitions false true d.blocks

/-- A text as HTML, without the line ends at its end. -/
def html (text : List Char) : List Char := Text.dropEnd (· == '\n') (Document.read text).html

end Marginalia.Markdown
