import Marginalia.Xml.Prolog
import Marginalia.Xml.Tree

/-!
Reading XML documents: well-formed, with namespaces, entities of the internal subset replaced.
-/

namespace Marginalia.Xml

/-- How a start tag ends. -/
inductive TagEnd where
  /-- The element has no contents. -/
  | empty
  /-- Contents follow. -/
  | opened
  /-- The text ends before the tag does. -/
  | missing
deriving DecidableEq, Repr

/-- The attributes of a start tag and its end. `limit` is where the text ends in the document, the
fuel bounds the number of attributes. -/
def startTag? (limit : Nat) :
    Nat → List Char → Builder → Option (TagEnd × List Char × Builder)
  | 0, _, _ => none
  | fuel + 1, cs, b =>
    if cs = [] then some (.missing, [], b)
    else
      match skipSpaces cs with
      | [] => none
      | '/' :: r =>
        match r with
        | '>' :: r => (b.beginElement? (limit - r.length) true).map fun b => (.empty, r, b)
        | _ => none
      | '>' :: r => (b.beginElement? (limit - r.length) false).map fun b => (.opened, r, b)
      | r =>
        if cs.head?.all fun c => !isSpace c then none
        else do
          let (q, raw, r) ← attribute? r
          let b ← b.addAttribute? q raw
          startTag? limit fuel r b

/-- A closing tag after its mark. -/
def closingTag? (cs : List Char) : Option (QName × List Char) := do
  let (q, r) ← qname? cs
  match skipSpaces r with
  | '>' :: r => return (q, r)
  | _ => none

def Builder.flush (b : Builder) (text : Buffer) : Builder :=
  if text = [] then b else b.appendText text.reverse

/-- The text of a character data section, line ends made uniform. -/
def sectionText : List Char → Buffer → Buffer
  | [], b => b
  | c :: cs, b => sectionText cs (Buffer.pushText b c cs.isEmpty)

mutual
/-- The contents of an element up to and with its closing tag, or up to the end of the text. The
fuel bounds the steps through the text and the entities inside one another. -/
def content? (limit : Nat) : Nat → List Char → Builder → Option (List Char × Builder)
  | 0, _, _ => none
  | fuel + 1, cs, b =>
    match cs with
    | [] => some ([], b)
    | '<' :: '!' :: _ =>
      match Text.dropLead? "<!--".toList cs with
      | some r =>
        match comment? r with
        | some (n, r) => content? limit fuel r (b.append n)
        | none => none
      | none =>
        match Text.dropLead? "<![CDATA[".toList cs with
        | some r =>
          match upTo? "]]>".toList r with
          | some (text, r) => content? limit fuel r (b.appendText (sectionText text []).reverse)
          | none => none
        | none => none
    | '<' :: '?' :: _ =>
      match instruction? cs with
      | some (n, r) => content? limit fuel r (b.append n)
      | none => none
    | '<' :: '/' :: r =>
      match closingTag? r with
      | some (q, r) => (b.endElement? q (limit - r.length)).map fun b => (r, b)
      | none => none
    | ['<'] => none
    | '<' :: _ =>
      match element? limit fuel cs b with
      | some (r, b) => content? limit fuel r b
      | none => none
    | _ =>
      let text := cs.takeWhile (· ≠ '<')
      if text.all isLegal && (Text.splitAt? "]]>".toList text).isNone then
        match text? limit fuel text [] false b with
        | some b => content? limit fuel (cs.dropWhile (· ≠ '<')) b
        | none => none
      else none
/-- An element from its opening mark on. -/
def element? (limit : Nat) : Nat → List Char → Builder → Option (List Char × Builder)
  | 0, _, _ => none
  | fuel + 1, cs, b =>
    match qname? (cs.drop 1) with
    | none => none
    | some (q, r) =>
      if q.space = "xmlns".toList then none
      else
        let b := { b with tag := some (q, limit - cs.length), afterText := false }
        match startTag? limit (r.length + 1) r b with
        | none => none
        | some (.opened, r, b) => content? limit fuel r b
        | some (_, r, b) => some (r, b)
/-- A run of text with its references. `asWritten` says that the character before came from a
character reference, so that the next one does not join it to a line end. -/
def text? (limit : Nat) : Nat → List Char → Buffer → Bool → Builder → Option Builder
  | 0, _, _, _, _ => none
  | fuel + 1, cs, text, asWritten, b =>
    match cs with
    | [] => some (b.flush text)
    | '&' :: r =>
      match reference? r with
      | none => none
      | some (.char c, r) =>
        if b.nesting.depth = 0 then text? limit fuel r (c :: text) true b
        else text? limit fuel r (Buffer.pushText text c r.isEmpty) asWritten b
      | some (.entity name, r) =>
        let b := b.flush text
        match b.entities.find? fun e => e.name = name with
        | none => none
        | some e =>
          match b.nesting.enter? with
          | none => none
          | some inner =>
            match content? e.stop fuel e.value { b with nesting := inner, tag := none } with
            | none => none
            | some (_, b') =>
              text? limit fuel r [] false { b' with nesting := b'.nesting.leave, tag := b.tag }
    | c :: r =>
      if asWritten then text? limit fuel r (c :: text) false b
      else text? limit fuel r (Buffer.pushText text c r.isEmpty) false b
end

/-- The text without a byte order mark in front. -/
def skipMark : List Char → List Char
  | '\uFEFF' :: cs => cs
  | cs => cs

/-- The document that a text holds. -/
def Document.parse? (source : List Char) : Option Document := do
  let limit := source.length
  let cs ← skipDeclaration? (skipMark source)
  let (before, cs) ← misc? limit cs
  let (subset, cs) ← doctype? limit (skipSpaces cs)
  let (between, cs) ← misc? limit cs
  let b := Builder.start source subset.entities (before ++ subset.nodes ++ between)
  let (cs, b) ← match skipSpaces cs with
    | '<' :: r => element? limit b.budget ('<' :: r) b
    | r => some (r, b)
  let (after, cs) ← misc? limit cs
  if cs ≠ [] then none
  let nodes := b.top ++ after
  if !nodes.any Node.isElement || !b.frames.isEmpty then none
  return ⟨source, nodes⟩

end Marginalia.Xml
