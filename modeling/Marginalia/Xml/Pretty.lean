import Marginalia.Text.Line
import Marginalia.Text.Markup
import Marginalia.Xml.Encoding
import Marginalia.Xml.Parser

/-!
The pretty form of an XML document: one element, comment or instruction a line, four spaces a
level. An element with text alone keeps it between its tags or has it on lines of its own; text
beside other nodes is left out.
-/

namespace Marginalia.Xml

def indentation (level : Nat) : List Char := List.replicate (4 * level) ' '

def escapeValue (v : List Char) : List Char := v.flatMap Text.escapeAttributeChar

/-- A name with the short name that stands for its namespace, where there is one. -/
def Head.qualified (h : Head) (uri : Option (List Char)) (name : List Char) : List Char :=
  match uri.bind h.shortFor? with
  | some short => if short = [] then name else short ++ ':' :: name
  | none => name

def Head.label (h : Head) : List Char := h.qualified h.uri h.name

/-- One attribute of a tag, with a space before it. -/
def assignment (name value : List Char) : List Char :=
  ' ' :: name ++ "=\"".toList ++ escapeValue value ++ ['"']

def Binding.assignment (b : Binding) : List Char :=
  match b.short with
  | some short => Xml.assignment ("xmlns:".toList ++ short) b.uri
  | none => Xml.assignment "xmlns".toList b.uri

/-- A start tag without its end: the namespaces that are not in force outside, and the attributes
in order. -/
def Head.openTag (h : Head) (outer : List Binding) : List Char :=
  let declared := h.bindings.filter fun b => b.short ≠ some "xml".toList && !outer.contains b
  '<' :: h.label ++ declared.flatMap Binding.assignment ++
    h.attributes.flatMap fun a => assignment (h.qualified a.uri a.name) a.value

/-- The text after the first `>` outside quotes, if there is one. -/
def afterTag? : Option Char → List Char → Option (List Char)
  | _, [] => none
  | some q, c :: cs => afterTag? (if c = q then none else some q) cs
  | none, c :: cs =>
    if c = '"' ∨ c = '\'' then afterTag? (some c) cs
    else if c = '>' then some cs
    else afterTag? none cs

/-- What stands between an element's tags in the text. -/
def innerSource (source : List Char) (h : Head) : List Char :=
  let whole := (source.drop h.start).take (h.stop - h.start)
  match afterTag? none whole with
  | none => []
  | some inner =>
    let before := match Text.splitAtLast? "</".toList whole with
      | some (before, _) => before
      | none => whole
    before.drop (whole.length - inner.length)

/-- The trimmed text of an element without other children. A character data section is kept as
it was written. -/
def elementText (source : List Char) (h : Head) (children : List Node) : List Char :=
  let inner := innerSource source h
  if (Text.splitAt? "<![CDATA[".toList inner).isSome then Text.trim inner
  else
    match children with
    | .text s :: _ => Text.escapeChars (Text.trim s)
    | _ => []

/-- Each line of a text behind the indentation of a level. -/
def indentText (level : Nat) (text : List Char) : List Char :=
  Text.joinWith ['\n'] ((Text.splitOn '\n' text).map fun l => indentation level ++ l)

/-- How a document is laid out. -/
structure Layout where
  source : List Char
  /-- Whether text stays on the line of its tags. -/
  sameLine : Bool

def Layout.closedElement (o : Layout) (level : Nat) (h : Head) (outer : List Binding)
    (text : List Char) : List Char :=
  let indent := indentation level
  let tag := indent ++ h.openTag outer
  let close := "</".toList ++ h.label ++ ">\n".toList
  if text = [] then tag ++ " />\n".toList
  else if o.sameLine then tag ++ '>' :: text ++ close
  else tag ++ ">\n".toList ++ indentText (level + 1) text ++ '\n' :: indent ++ close

mutual
def Layout.node (o : Layout) (level : Nat) (outer : List Binding) : Node → List Char
  | .element h children =>
    if children.all Node.isText then
      o.closedElement level h outer (elementText o.source h children)
    else
      let indent := indentation level
      indent ++ h.openTag outer ++ ">\n".toList ++ o.nodes (level + 1) h.bindings children ++
        indent ++ "</".toList ++ h.label ++ ">\n".toList
  | .text _ => []
  | .comment s => indentation level ++ "<!--".toList ++ s ++ "-->\n".toList
  | .instruction target value =>
    let value := match value with
      | some v => ' ' :: v
      | none => []
    indentation level ++ "<?".toList ++ target ++ value ++ "?>\n".toList
def Layout.nodes (o : Layout) (level : Nat) (outer : List Binding) : List Node → List Char
  | [] => []
  | n :: ns => o.node level outer n ++ o.nodes level outer ns
end

/-- A text up to and with the first place of a character. -/
def through? (c : Char) (cs : List Char) : Option (List Char × List Char) :=
  (Text.splitAt? [c] cs).map fun (a, b) => (a ++ [c], b)

/-- The document type declaration in the text before the root element. It ends at the first `>`,
or where a bracket opens before that, at the first `>` after the first closing bracket. -/
def findDoctype? (prolog : List Char) : Option (List Char) := do
  let (_, r) ← Text.splitAt? "<!DOCTYPE".toList prolog
  let rest := "<!DOCTYPE".toList ++ r
  let (simple, _) ← through? '>' rest
  match Text.splitAt? ['['] simple with
  | some (before, _) =>
    let (subset, r) ← through? ']' (rest.drop before.length)
    -- the bracket itself cannot be the end
    let (tail, _) ← through? '>' r
    return before ++ subset ++ tail
  | none => return simple

/-- The declarations of an internal subset: each begins at a `<` and ends after the first `>`
outside quotes, a comment after its closing mark. A last one without end is trimmed. The fuel
bounds their number. -/
def splitDeclarations : Nat → List Char → List (List Char)
  | 0, _ => []
  | fuel + 1, subset =>
    match subset.dropWhile (· ≠ '<') with
    | [] => []
    | rest =>
      let after? :=
        if Text.startsWith "<!--".toList rest then (Text.splitAt? "-->".toList rest).map Prod.snd
        else afterTag? none rest
      match after? with
      | some after =>
        rest.take (rest.length - after.length) :: splitDeclarations fuel after
      | none => [Text.trim rest]

/-- The lines of a document type declaration. -/
def doctypeLines (doctype : List Char) : List Char :=
  match Text.splitAt? ['['] doctype, Text.splitAtLast? [']'] doctype with
  | some (before, _), some (upTo, _) =>
    let subset := upTo.drop (before.length + 1)
    Text.trimEnd before ++ " [\n".toList ++
      ((splitDeclarations (subset.length + 1) subset).flatMap fun d =>
        indentation 1 ++ d ++ ['\n']) ++ "]>\n".toList
  | _, _ => doctype ++ ['\n']

/-- The pretty form of a text; there is none where the text is no document. -/
def prettify? (sameLine : Bool) (xml : List Char) : Option (List Char) :=
  if xml = [] then some []
  else do
    let d ← Document.parse? xml
    let root ← d.root?
    let declared := declaration xml
    let declared := if declared = [] then [] else declared ++ ['\n']
    let doctype := match findDoctype? (xml.take root.start) with
      | some t => doctypeLines t
      | none => []
    return declared ++ doctype ++ Layout.nodes ⟨xml, sameLine⟩ 0 [] d.nodes

/-- A line for display. -/
def preformatted (line : List Char) : List Char :=
  "<pre>".toList ++ Text.escapeChars line ++ "</pre>".toList

/-- The lines of the pretty form that are not blank, ready for display. -/
def renderLines? (sameLine : Bool) (xml : List Char) : Option (List (List Char)) :=
  (prettify? sameLine xml).map fun pretty =>
    ((Text.lines pretty).filter fun l => Text.trim l ≠ []).map preformatted

end Marginalia.Xml
