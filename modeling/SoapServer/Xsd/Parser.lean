import SoapServer.Dom
import SoapServer.Xsd.Types

/-! From a schema document to its components, without looking at any other document. -/

set_option autoImplicit false

namespace SoapServer

open Markup (Text splitOnce)
open Maps

namespace Xsd

def xsNs : Text := "http://www.w3.org/2001/XMLSchema".toList

inductive SchemaError where
  | malformedXml (reason : Text)
  | unknownRef (reason : Text)
  | cycleDetected (reason : Text)
  deriving DecidableEq, Repr

structure SchemaImport where
  ns : Option Text
  schemaLocation : Option Text
  deriving DecidableEq, Repr

structure SchemaInclude where
  schemaLocation : Text
  deriving DecidableEq, Repr

structure RawSchema where
  targetNamespace : Option Text
  types : HashMap QName XsdType
  elements : HashMap QName XsdElement
  attributeGroups : HashMap QName AttributeGroup
  groups : HashMap QName Group
  imports : List SchemaImport
  includes : List SchemaInclude

/-- The elements of the schema language that some visitor looks for. -/
inductive XsName where
  | complexType | simpleType | element | attribute | attributeGroup | group
  | schemaImport | schemaInclude
  | sequence | all | choice | any
  | complexContent | simpleContent | extension | restriction
  | other
  deriving DecidableEq, Repr

def xsNames : List (Text × XsName) :=
  [("complexType".toList, .complexType), ("simpleType".toList, .simpleType), ("element".toList, .element),
    ("attribute".toList, .attribute), ("attributeGroup".toList, .attributeGroup), ("group".toList, .group),
    ("import".toList, .schemaImport), ("include".toList, .schemaInclude), ("sequence".toList, .sequence),
    ("all".toList, .all), ("choice".toList, .choice), ("any".toList, .any),
    ("complexContent".toList, .complexContent), ("simpleContent".toList, .simpleContent),
    ("extension".toList, .extension), ("restriction".toList, .restriction)]

end Xsd

/-- Which element of the schema language this is; `other` outside its namespace. -/
def DomElement.xs (e : DomElement) : Xsd.XsName :=
  if e.ns = some Xsd.xsNs then (Xsd.xsNames.lookup e.name).getD .other else .other

namespace Xsd

/-- An undeclared prefix stands for itself as the namespace. -/
def resolveQname (value : Text) (e : DomElement) : QName :=
  match splitOnce ':' value with
  | some (pre, l) =>
    match e.lookupNamespaceUri (some pre) with
    | some uri => .new uri l
    | none => ⟨some pre, l⟩
  | none =>
    match e.lookupNamespaceUri none with
    | some uri => .new uri value
    | none => .local value

/-- `str::parse::<u64>`: decimal digits after an optional plus sign, below 2^64. -/
def parseU64 (s : Text) : Option Nat :=
  let digits : Text := match s with
    | '+' :: rest => rest
    | _ => s
  let n := digits.foldl (fun n c => 10 * n + (c.toNat - '0'.toNat)) 0
  if digits ≠ [] ∧ digits.all Char.isDigit ∧ n < 2 ^ 64 then some n else none

def parseMinOccurs (e : DomElement) : Nat := ((e.attribute "minOccurs".toList).bind parseU64).getD 1

def parseMaxOccurs (e : DomElement) : MaxOccurs :=
  match e.attribute "maxOccurs".toList with
  | some v => if v = "unbounded".toList then .unbounded else .bounded ((parseU64 v).getD 1)
  | none => .bounded 1

def qualifyName (l : Text) (targetNamespace : Option Text) : QName :=
  match targetNamespace with
  | some ns => .new ns l
  | none => .local l

/-! The visitors. -/

def visitAttribute (e : DomElement) : XsdAttribute where
  name := e.attribute "name".toList
  typeRef := (e.attribute "type".toList).map (resolveQname · e)
  useAttr :=
    match e.attribute "use".toList with
    | some v =>
      if v = "required".toList then .required else if v = "prohibited".toList then .prohibited else .optional
    | none => .optional
  default := e.attribute "default".toList
  fixed := e.attribute "fixed".toList
  refAttr := (e.attribute "ref".toList).map (resolveQname · e)

/-- A reference to an attribute group, kept as an attribute without a name. -/
def attributeGroupRef (q : QName) : XsdAttribute := ⟨none, none, .optional, none, none, some q⟩

/-- The attributes among the children of a complex type. -/
def visitAttributes (children : DomForest) : List XsdAttribute :=
  children.elements.filterMap fun child =>
    match child.element.xs with
    | .attribute => some (visitAttribute child.element)
    | .attributeGroup =>
      (child.element.attribute "ref".toList).map fun r => attributeGroupRef (resolveQname r child.element)
    | _ => none

/-- `visit_simple_content`: the first extension that names a base. -/
def visitSimpleContent (children : DomForest) : ComplexContent :=
  (children.elements.findSome? fun child =>
    match child.element.xs with
    | .extension => (child.element.attribute "base".toList).map fun base =>
        ComplexContent.simpleContent ⟨resolveQname base child.element,
          child.children.elements.filterMap fun node =>
            if node.element.xs = .attribute then some (visitAttribute node.element) else none⟩
    | _ => none).getD .empty

def visitSimpleType (e : DomElement) : SimpleType := ⟨e.attribute "name".toList⟩

def extensionBase (e : DomElement) : QName :=
  match e.attribute "base".toList with
  | some base => resolveQname base e
  | none => .local []

def anyName : Text := "__any__".toList

/-- A wildcard, kept as an element of a reserved name. -/
def visitAny (e : DomElement) : XsdElement :=
  ⟨some anyName, none, none, parseMinOccurs e, parseMaxOccurs e, false, none, none, none⟩

/-- `visit_element`, given the type found among the element's children. -/
def elementWith (e : DomElement) (inlineType : Option XsdType) : XsdElement where
  name := e.attribute "name".toList
  typeRef := (e.attribute "type".toList).map (resolveQname · e)
  inlineType := inlineType
  minOccurs := parseMinOccurs e
  maxOccurs := parseMaxOccurs e
  nillable := e.attribute "nillable".toList = some "true".toList
  default := e.attribute "default".toList
  fixed := e.attribute "fixed".toList
  refAttr := (e.attribute "ref".toList).map (resolveQname · e)

mutual

/-- The particles under a group, which is what `visit_sequence`, `visit_all` and
`visit_choice` all return: a nested group gives its own particles, whatever its kind
and its bounds. -/
def visitParticleChildren : DomForest → List XsdElement
  | .nil => []
  | .text _ rest | .other rest => visitParticleChildren rest
  | .element e children rest =>
    (match e.xs with
      | .element => [elementWith e (inlineType children)]
      | .any => [visitAny e]
      | .sequence | .choice | .all => visitParticleChildren children
      | _ => []) ++ visitParticleChildren rest

/-- The first type definition among the children of an element. -/
def inlineType : DomForest → Option XsdType
  | .nil => none
  | .text _ rest | .other rest => inlineType rest
  | .element e children rest =>
    match e.xs with
    | .complexType =>
      some (.complex ⟨e.attribute "name".toList, typeContent .empty children, visitAttributes children⟩)
    | .simpleType => some (.simple (visitSimpleType e))
    | _ => inlineType rest

/-- The content of a complex type: the last child that has one decides. -/
def typeContent : ComplexContent → DomForest → ComplexContent
  | content, .nil => content
  | content, .text _ rest | content, .other rest => typeContent content rest
  | content, .element e children rest =>
    typeContent
      (match e.xs with
        | .sequence => .sequence (visitParticleChildren children)
        | .all => .all (visitParticleChildren children)
        | .choice => .choice (visitParticleChildren children)
        | .complexContent => visitComplexContent children
        | .simpleContent => visitSimpleContent children
        | _ => content) rest

def visitComplexContent : DomForest → ComplexContent
  | .nil => .empty
  | .text _ rest | .other rest => visitComplexContent rest
  | .element e children rest =>
    match e.xs, e.attribute "base".toList with
    | .extension, _ => .complexExtension (extensionBase e) (extensionContent .empty children)
    | .restriction, some base =>
      .complexRestriction (resolveQname base e) (visitComplexRestrictionContent children)
    | _, _ => visitComplexContent rest

/-- The content `visit_extension` returns: the last group decides. -/
def extensionContent : ComplexContent → DomForest → ComplexContent
  | content, .nil => content
  | content, .text _ rest | content, .other rest => extensionContent content rest
  | content, .element e children rest =>
    extensionContent
      (match e.xs with
        | .sequence => .sequence (visitParticleChildren children)
        | .all => .all (visitParticleChildren children)
        | .choice => .choice (visitParticleChildren children)
        | _ => content) rest

/-- The first group of a restriction. -/
def visitComplexRestrictionContent : DomForest → ComplexContent
  | .nil => .empty
  | .text _ rest | .other rest => visitComplexRestrictionContent rest
  | .element e children rest =>
    match e.xs with
    | .sequence => .sequence (visitParticleChildren children)
    | .all => .all (visitParticleChildren children)
    | .choice => .choice (visitParticleChildren children)
    | _ => visitComplexRestrictionContent rest

end

def visitElement (node : DomNode) : XsdElement := elementWith node.element (inlineType node.children)

def visitComplexType (node : DomNode) : ComplexType :=
  ⟨node.element.attribute "name".toList, typeContent .empty node.children, visitAttributes node.children⟩

def visitAttributeGroupDef (node : DomNode) : Option AttributeGroup :=
  (node.element.attribute "name".toList).map fun name =>
    { name
      attributes := node.children.elements.filterMap fun child =>
        if child.element.xs = .attribute then some (visitAttribute child.element) else none
      attributeGroups := node.children.elements.filterMap fun child =>
        if child.element.xs = .attributeGroup then
          (child.element.attribute "ref".toList).map (resolveQname · child.element)
        else none }

/-- The content of a group definition: the last group among its children decides. -/
def groupContent (children : DomForest) : GroupContent :=
  children.elements.foldl (fun content child =>
    match child.element.xs with
    | .sequence => .sequence (visitParticleChildren child.children)
    | .all => .all (visitParticleChildren child.children)
    | .choice => .choice (visitParticleChildren child.children)
    | _ => content) (.sequence [])

def visitGroupDef (node : DomNode) : Option Group :=
  (node.element.attribute "name".toList).map fun name => ⟨name, groupContent node.children⟩

/-- One child of the schema element. -/
def RawSchema.visit (schema : RawSchema) (child : DomNode) : RawSchema :=
  let e := child.element
  let name := (e.attribute "name".toList).map (qualifyName · schema.targetNamespace)
  match e.xs, name with
  | .complexType, some q => { schema with types := schema.types.insert q (.complex (visitComplexType child)) }
  | .simpleType, some q => { schema with types := schema.types.insert q (.simple (visitSimpleType e)) }
  | .element, some q => { schema with elements := schema.elements.insert q (visitElement child) }
  | .attributeGroup, some q =>
    match visitAttributeGroupDef child with
    | some ag => { schema with attributeGroups := schema.attributeGroups.insert q ag }
    | none => schema
  | .group, some q =>
    match visitGroupDef child with
    | some g => { schema with groups := schema.groups.insert q g }
    | none => schema
  | .schemaImport, _ =>
    { schema with imports := schema.imports ++
        [⟨e.attribute "namespace".toList, e.attribute "schemaLocation".toList⟩] }
  | .schemaInclude, _ =>
    match e.attribute "schemaLocation".toList with
    | some loc => { schema with includes := schema.includes ++ [⟨loc⟩] }
    | none => schema
  | _, _ => schema

def RawSchema.initial (targetNamespace : Option Text) : RawSchema :=
  ⟨targetNamespace, ∅, ∅, ∅, ∅, [], []⟩

/-- `parse_schema`, which never fails. -/
def parseSchema (node : DomNode) : RawSchema :=
  node.children.elements.foldl RawSchema.visit (.initial (node.element.attribute "targetNamespace".toList))

end Xsd

end SoapServer
