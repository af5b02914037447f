import SoapServer.Markup.Text
import SoapServer.QName

/-! The tree of an XML document, as the tree parser of the libraries gives it. -/

set_option autoImplicit false

namespace SoapServer

open Markup (Text splitOnce)

structure DomAttribute where
  ns : Option Text
  name : Text
  value : Text
  deriving DecidableEq, Repr

/-- An element without its children. `namespaces` are the declarations in scope, each
prefix once; no prefix is the default namespace. -/
structure DomElement where
  ns : Option Text
  name : Text
  attributes : List DomAttribute
  namespaces : List (Option Text × Text)
  deriving DecidableEq, Repr

/-- A forest, by first child and next sibling; `other` is a comment or an instruction. -/
inductive DomForest where
  | nil
  | text (s : Text) (rest : DomForest)
  | other (rest : DomForest)
  | element (e : DomElement) (children rest : DomForest)
  deriving DecidableEq, Repr

structure DomNode where
  element : DomElement
  children : DomForest
  deriving DecidableEq, Repr

/-- The value of an attribute without a namespace. -/
def DomElement.attribute (e : DomElement) (name : Text) : Option Text :=
  (e.attributes.find? fun a => a.ns = none ∧ a.name = name).map (·.value)

def DomElement.lookupNamespaceUri (e : DomElement) (pre : Option Text) : Option Text :=
  e.namespaces.lookup pre

/-- The children that are elements, in order. -/
def DomForest.elements : DomForest → List DomNode
  | .nil => []
  | .text _ rest | .other rest => rest.elements
  | .element e children rest => ⟨e, children⟩ :: rest.elements

/-- An element whose attributes have no namespace. -/
def DomElement.plain (ns name : Text) (namespaces : List (Option Text × Text))
    (attributes : List (Text × Text)) : DomElement :=
  ⟨some ns, name, attributes.map fun a => ⟨none, a.1, a.2⟩, namespaces⟩

/-- Nodes as siblings. -/
def DomForest.ofNodes : List DomNode → DomForest
  | [] => .nil
  | node :: rest => .element node.element node.children (ofNodes rest)

def DomNode.plain (ns name : Text) (namespaces : List (Option Text × Text))
    (attributes : List (Text × Text)) (children : List DomNode) : DomNode :=
  ⟨.plain ns name namespaces attributes, .ofNodes children⟩

end SoapServer
