import SoapServer.Library.Maps
import SoapServer.QName

/-! XML Schema components: elements, attributes, groups and types. -/

set_option autoImplicit false

namespace SoapServer.Xsd

open Markup (Text)
open Maps

inductive MaxOccurs where
  | bounded (n : Nat)
  | unbounded
  deriving DecidableEq, Repr

inductive AttributeUse where
  | required
  | optional
  | prohibited
  deriving DecidableEq, Repr

structure XsdAttribute where
  name : Option Text
  typeRef : Option QName
  useAttr : AttributeUse
  default : Option Text
  fixed : Option Text
  refAttr : Option QName
  deriving DecidableEq, Repr

structure AttributeGroup where
  name : Text
  attributes : List XsdAttribute
  attributeGroups : List QName
  deriving DecidableEq, Repr

structure SimpleContentDef where
  base : QName
  attributes : List XsdAttribute
  deriving DecidableEq, Repr

structure SimpleType where
  name : Option Text
  deriving DecidableEq, Repr

mutual

inductive XsdType where
  | complex (ct : ComplexType)
  | simple (st : SimpleType)

structure ComplexType where
  name : Option Text
  content : ComplexContent
  attributes : List XsdAttribute

/-- The content model of a complex type, with the nesting of its groups flattened. -/
inductive ComplexContent where
  | sequence (elements : List XsdElement)
  | all (elements : List XsdElement)
  | choice (elements : List XsdElement)
  | empty
  | simpleContent (definition : SimpleContentDef)
  | complexExtension (base : QName) (content : ComplexContent)
  | complexRestriction (base : QName) (content : ComplexContent)

structure XsdElement where
  name : Option Text
  typeRef : Option QName
  inlineType : Option XsdType
  minOccurs : Nat
  maxOccurs : MaxOccurs
  nillable : Bool
  default : Option Text
  fixed : Option Text
  refAttr : Option QName

end

inductive GroupContent where
  | sequence (elements : List XsdElement)
  | all (elements : List XsdElement)
  | choice (elements : List XsdElement)

structure Group where
  name : Text
  content : GroupContent

abbrev TypeRegistry := HashMap QName XsdType

end SoapServer.Xsd
