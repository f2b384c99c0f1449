import Marginalia.Xml.Name

/-!
XML documents as trees.
-/

namespace Marginalia.Xml

/-- A namespace declaration: a short name, none for the default one, and what it stands for. -/
structure Binding where
  short : Option (List Char)
  uri : List Char
deriving DecidableEq, Repr

structure Attribute where
  uri : Option (List Char)
  name : List Char
  value : List Char
deriving DecidableEq, Repr

/-- An element without its children. -/
structure Head where
  uri : Option (List Char)
  name : List Char
  attributes : List Attribute
  /-- The namespaces in force: its own declarations, then those it inherits. -/
  bindings : List Binding
  /-- Where the element stands in the text: its first character and the one after its last. -/
  start : Nat
  stop : Nat
deriving DecidableEq, Repr

inductive Node where
  | element (head : Head) (children : List Node)
  | text (s : List Char)
  | comment (s : List Char)
  | instruction (target : List Char) (value : Option (List Char))
deriving Repr

/-- A document: its text, and the nodes at its top. Comments and instructions of the document
type declaration are among them. -/
structure Document where
  source : List Char
  nodes : List Node
deriving Repr

def Node.isText : Node → Bool
  | .text _ => true
  | _ => false

def Node.isElement : Node → Bool
  | .element _ _ => true
  | _ => false

def Node.head? : Node → Option Head
  | .element h _ => some h
  | _ => none

/-- The element at the top. -/
def Document.root? (d : Document) : Option Head := d.nodes.findSome? Node.head?

def xmlUri : List Char := "http://www.w3.org/XML/1998/namespace".toList

def xmlnsUri : List Char := "http://www.w3.org/2000/xmlns/".toList

/-- The short name that stands for a namespace at an element: the first one listed with it. -/
def Head.shortFor? (h : Head) (uri : List Char) : Option (List Char) :=
  if uri = xmlUri then some "xml".toList
  else (h.bindings.find? fun b => b.uri = uri).bind Binding.short

end Marginalia.Xml
