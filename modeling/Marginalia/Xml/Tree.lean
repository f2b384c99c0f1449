import Marginalia.Xml.Document
import Marginalia.Xml.Reference

/-!
A document while it is read: the elements that are open, the start tag that is being read, and
how names find their namespaces.
-/

namespace Marginalia.Xml

/-- An open element with the children it has so far. -/
structure Frame where
  name : QName
  head : Head
  children : List Node
deriving Repr

/-- What has been read so far. -/
structure Builder where
  entities : List Entity
  /-- The steps that reading takes at most: no text of the document has more characters than the
  document, and no more than eleven texts stand inside one another. -/
  budget : Nat
  /-- The nodes at the top, and the open elements, innermost first. -/
  top : List Node
  frames : List Frame
  /-- The name of the start tag read last and where it began; none where an entity begins. -/
  tag : Option (QName × Nat)
  /-- The declarations and attributes read since the last tag ended. -/
  bindings : List Binding
  attributes : List (QName × List Char)
  /-- Whether a text that follows joins the last one. -/
  afterText : Bool
  nesting : Nesting
deriving Repr

namespace Builder

def start (source : List Char) (entities : List Entity) (top : List Node) : Builder :=
  ⟨entities, 12 * (source.length + 2), top, [], none, [], [], false, .none⟩

/-- The children of the innermost open element, or the nodes at the top. -/
def modifyChildren (b : Builder) (f : List Node → List Node) : Builder :=
  match b.frames with
  | [] => { b with top := f b.top }
  | fr :: rest => { b with frames := { fr with children := f fr.children } :: rest }

def append (b : Builder) (n : Node) : Builder :=
  { b.modifyChildren (· ++ [n]) with afterText := false }

/-- The last text with more text added. -/
def extendLast (s : List Char) (ns : List Node) : List Node :=
  match ns.getLast? with
  | some (.text t) => ns.dropLast ++ [.text (t ++ s)]
  | _ => ns

/-- Text joins a text directly before it. -/
def appendText (b : Builder) (s : List Char) : Builder :=
  if b.afterText then b.modifyChildren (extendLast s)
  else { b.append (.text s) with afterText := true }

/-- An attribute of the tag being read, which may declare a namespace. -/
def addAttribute? (b : Builder) (q : QName) (raw : List Char) : Option Builder := do
  let (nesting, value) ← normalValue b.entities b.budget b.nesting raw []
  let value := value.reverse
  let b := { b with nesting := nesting }
  if q.space = "xmlns".toList then
    if value = xmlnsUri then none
    if q.name = "xml".toList ∧ value ≠ xmlUri then none
    if q.name ≠ "xml".toList ∧ value = xmlUri then none
    if b.bindings.any fun x => x.short == some q.name then none
    if value = xmlUri then return b
    return { b with bindings := b.bindings ++ [⟨some q.name, value⟩] }
  else if q.name = "xmlns".toList then
    if value = xmlUri ∨ value = xmlnsUri then none
    return { b with bindings := b.bindings ++ [⟨none, value⟩] }
  else return { b with attributes := b.attributes ++ [(q, value)] }

/-- The namespaces around the tag being read. -/
def outerBindings (b : Builder) : List Binding :=
  match b.frames with
  | fr :: _ => fr.head.bindings
  | [] => []

/-- A namespace joins a list unless its short name is taken. -/
def inherit (bs : List Binding) (x : Binding) : List Binding :=
  if bs.any fun y => y.short == x.short then bs else bs ++ [x]

/-- The namespaces in force at a tag: those it declares, then those around it that it does not
declare anew. -/
def bindingsInForce (b : Builder) : List Binding :=
  if b.bindings = [] then b.outerBindings else b.outerBindings.foldl inherit b.bindings

/-- What a short name stands for. Only no short name at all may stand for nothing. -/
def resolve? (bs : List Binding) (space : List Char) : Option (Option (List Char)) :=
  let short := if space = [] then none else some space
  match bs.find? fun x => x.short = short with
  | some x => some (some x.uri)
  | none => if space = [] then some none else none

/-- An attribute's name has no namespace unless it has a short name. -/
def resolveAttribute? (bs : List Binding) (a : QName × List Char) : Option Attribute :=
  if a.1.space = "xml".toList then some ⟨some xmlUri, a.1.name, a.2⟩
  else if a.1.space = [] then some ⟨none, a.1.name, a.2⟩
  else (resolve? bs a.1.space).map fun uri => ⟨uri, a.1.name, a.2⟩

/-- The attributes of a tag, none of them twice. -/
def resolveAttributes? (b : Builder) (bs : List Binding) : Option (List Attribute) := do
  let as ← b.attributes.mapM (resolveAttribute? bs)
  if (as.map fun a => (a.uri, a.name)).Nodup then return as else none

/-- The tag has been read: its declarations and attributes are used up. -/
def clearTag (b : Builder) : Builder := { b with bindings := [], attributes := [], afterText := false }

/-- The element that the tag begins. -/
def head? (b : Builder) (q : QName) (start stop : Nat) : Option Head := do
  let bs := b.bindingsInForce
  let attributes ← b.resolveAttributes? bs
  let uri ← resolve? bs q.space
  return ⟨uri, q.name, attributes, bs, start, stop⟩

/-- An element without contents, or the begin of one with contents. -/
def beginElement? (b : Builder) (stop : Nat) (isEmpty : Bool) : Option Builder := do
  let (q, start) ← b.tag
  let h ← b.head? q start stop
  let b := b.clearTag
  if isEmpty then return b.append (.element h [])
  else return { b with frames := ⟨q, h, []⟩ :: b.frames }

/-- The end of the innermost open element. -/
def endElement? (b : Builder) (q : QName) (stop : Nat) : Option Builder := do
  let _ ← b.tag
  let _ ← b.resolveAttributes? b.bindingsInForce
  match b.frames with
  | [] => none
  | fr :: rest =>
    if fr.name ≠ q then none
    let b := { b.clearTag with frames := rest }
    return b.append (.element { fr.head with stop := stop } fr.children)

end Builder

end Marginalia.Xml
