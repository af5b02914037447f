import SoapServer.Library.Loops
import SoapServer.Xsd.Parser

/-! Resolving a schema and the documents it loads into a registry of types: extension
chains are flattened and references replaced by what they name.

Maps are iterated in an order that is a parameter. Recursion that the code does not
bound runs on fuel; where a bound follows from the data it is the fuel, so that running
out means the code would not return.
-/

set_option autoImplicit false

namespace SoapServer

open Markup (Text)
open Maps
open Loops (appendAll)

/-- How a computation ends that does not return `Ok`: with an error, or never. -/
inductive Failure (ε : Type) where
  | error (e : ε)
  | hang
  deriving DecidableEq, Repr

/-- The maps whose iteration order can be seen. -/
inductive MapSite where
  | types | elements | resolved
  | portTypes | bindings | services
  | handlers | serviceTables
  deriving DecidableEq, Repr

abbrev MapOrder := Iteration MapSite

/-- The tree parser: the root of a document, or the message of its error. -/
abbrev TreeParser := Text → Except Text DomNode

namespace Xsd

abbrev Resolution (α : Type) := Except (Failure SchemaError) α

abbrev SchemaLoader := Option Text → Text → Except SchemaError Text

def resolutionError {α : Type} (e : SchemaError) : Resolution α := .error (.error e)

structure FlatTypeMap where
  types : HashMap QName XsdType
  attributeGroups : HashMap QName AttributeGroup
  groups : HashMap QName Group
  elements : HashMap QName XsdElement

def FlatTypeMap.empty : FlatTypeMap := ⟨∅, ∅, ∅, ∅⟩

def FlatTypeMap.merge (flat : FlatTypeMap) (schema : RawSchema) : FlatTypeMap where
  types := extend flat.types schema.types
  attributeGroups := extend flat.attributeGroups schema.attributeGroups
  groups := extend flat.groups schema.groups
  elements := extend flat.elements schema.elements

/-! Loading. -/

/-- What a schema asks to load, in order: the imports with a location, then the includes. -/
def RawSchema.references (schema : RawSchema) : List (Option Text × Text) :=
  (schema.imports.filterMap fun i => i.schemaLocation.map fun loc => (i.ns, loc)) ++
    schema.includes.map fun i => (none, i.schemaLocation)

/-- The locations loaded so far, and the stack of schemas to process, its top first. -/
abbrev LoadState := List Text × List RawSchema

def loadReference (parseXml : TreeParser) (loader : SchemaLoader) (st : LoadState)
    (reference : Option Text × Text) : Resolution LoadState :=
  let (alreadyLoaded, queue) := st
  let (ns, location) := reference
  if location ∈ alreadyLoaded then .ok st
  else
    match loader ns location with
    | .error e => resolutionError e
    | .ok xmlText =>
      match parseXml xmlText with
      | .error e => resolutionError (.malformedXml e)
      -- marked before its own references are followed, so a circle of imports ends
      | .ok doc => .ok (location :: alreadyLoaded, parseSchema doc :: queue)

def collectLoop (parseXml : TreeParser) (loader : SchemaLoader) :
    Nat → FlatTypeMap → LoadState → Resolution (FlatTypeMap × List Text)
  | _, flat, (alreadyLoaded, []) => .ok (flat, alreadyLoaded)
  -- a schema is still on the stack
  | 0, _, (_, _ :: _) => .error .hang
  | fuel + 1, flat, (alreadyLoaded, schema :: queue) => do
    let st ← schema.references.foldlM (loadReference parseXml loader) (alreadyLoaded, queue)
    collectLoop parseXml loader fuel (flat.merge schema) st

def collectAllSchemas (parseXml : TreeParser) (loader : SchemaLoader) (fuel : Nat) (raw : RawSchema)
    (alreadyLoaded : List Text) : Resolution (FlatTypeMap × List Text) :=
  collectLoop parseXml loader fuel .empty (alreadyLoaded, [raw])

/-! References. -/

def GroupContent.elements : GroupContent → List XsdElement
  | .sequence els | .all els | .choice els => els

/-- One element of a list, given how the elements of a group are resolved. -/
def resolveElement (flat : FlatTypeMap) (inline : List XsdElement → Resolution (List XsdElement))
    (el : XsdElement) : Resolution (List XsdElement) :=
  if el.name = some anyName then .ok [el]
  else
    match el.refAttr with
    | none => .ok [el]
    | some q =>
      match flat.groups.lookup q with
      | some group => inline group.content.elements
      | none =>
        match flat.elements.lookup q with
        -- the declaration as it stands: the bounds at the reference are dropped
        | some globalEl => .ok [globalEl]
        -- a reference to nothing known leaves no element
        | none => .ok []

def resolveElements (flat : FlatTypeMap) : Nat → List XsdElement → Resolution (List XsdElement)
  | 0, _ => .error .hang
  | fuel + 1, elements => appendAll (resolveElement flat (resolveElements flat fuel)) elements

/-- Groups nested more deeply than there are groups repeat without end. -/
def resolveElementList (flat : FlatTypeMap)
    (elements : List XsdElement) : Resolution (List XsdElement) :=
  resolveElements flat (flat.groups.entries.length + 1) elements

def expandAttributeGroupWithin (flat : FlatTypeMap) :
    Nat → AttributeGroup → Resolution (List XsdAttribute)
  | 0, _ => .error .hang
  | fuel + 1, ag => do
    let nested ← appendAll (fun q =>
      match flat.attributeGroups.lookup q with
      | some nestedAg => expandAttributeGroupWithin flat fuel nestedAg
      | none => .ok []) ag.attributeGroups
    -- own attributes first, then those of the groups referred to
    .ok (ag.attributes ++ nested)

def expandAttributeGroup (flat : FlatTypeMap)
    (ag : AttributeGroup) : Resolution (List XsdAttribute) :=
  expandAttributeGroupWithin flat (flat.attributeGroups.entries.length + 1) ag

def resolveAttributes (flat : FlatTypeMap)
    (attributes : List XsdAttribute) : Resolution (List XsdAttribute) :=
  appendAll (fun attr =>
    match attr.refAttr.bind flat.attributeGroups.lookup with
    | some ag => expandAttributeGroup flat ag
    | none => .ok [attr]) attributes

/-! Types. -/

def extractElements : ComplexContent → List XsdElement
  | .sequence els | .all els | .choice els => els
  | .complexExtension _ _ | .complexRestriction _ _ | .simpleContent _ | .empty => []

abbrev Resolved := HashMap QName ComplexType

/-- Content, given how a base is resolved. -/
def resolveContent (flat : FlatTypeMap)
    (resolveBase : Resolved → QName → Resolution (ComplexType × Resolved)) :
    ComplexContent → Resolved → Resolution (ComplexContent × Resolved)
  | .complexExtension base content, resolved => do
    let (baseCt, resolved) ← resolveBase resolved base
    let (child, resolved) ← resolveContent flat resolveBase content resolved
    -- one sequence, whatever the groups of base and extension were
    .ok (.sequence (extractElements baseCt.content ++ extractElements child), resolved)
  -- a restriction repeats what it keeps, so its base is not looked at
  | .complexRestriction _ content, resolved => resolveContent flat resolveBase content resolved
  | .sequence els, resolved => do
    let els ← resolveElementList flat els
    .ok (.sequence els, resolved)
  | .all els, resolved => do
    let els ← resolveElementList flat els
    .ok (.all els, resolved)
  | .choice els, resolved => do
    let els ← resolveElementList flat els
    .ok (.choice els, resolved)
  | .simpleContent definition, resolved => .ok (.simpleContent definition, resolved)
  | .empty, resolved => .ok (.empty, resolved)

def resolveComplexTypeWith (flat : FlatTypeMap)
    (resolveBase : Resolved → QName → Resolution (ComplexType × Resolved))
    (raw : ComplexType) (resolved : Resolved) : Resolution (ComplexType × Resolved) := do
  let (content, resolved) ← resolveContent flat resolveBase raw.content resolved
  let attributes ← resolveAttributes flat raw.attributes
  .ok (⟨raw.name, content, attributes⟩, resolved)

/-- What stands for a base that is not a complex type of the map. -/
def opaqueType : ComplexType := ⟨none, .empty, []⟩

/-- `resolving` holds the types being resolved; a type leaves it when it is done. -/
def resolveNamedTypeWithin (flat : FlatTypeMap) :
    Nat → List QName → Resolved → QName → Resolution (ComplexType × Resolved)
  | 0, _, _, _ => .error .hang
  | fuel + 1, resolving, resolved, q =>
    match resolved.lookup q with
    | some ct => .ok (ct, resolved)
    | none =>
      if q ∈ resolving then resolutionError (.cycleDetected q.toText)
      else
        match flat.types.lookup q with
        -- an unknown or simple base contributes nothing, and is no error
        | none | some (.simple _) => .ok (opaqueType, resolved)
        | some (.complex raw) => do
          let (ct, resolved) ←
            resolveComplexTypeWith flat (resolveNamedTypeWithin flat fuel (q :: resolving)) raw resolved
          .ok (ct, resolved.insert q ct)

/-- The types being resolved are distinct, so they are never more than all types. -/
def resolveNamedType (flat : FlatTypeMap) (resolved : Resolved) (q : QName) :
    Resolution (ComplexType × Resolved) :=
  resolveNamedTypeWithin flat (flat.types.entries.length + 1) [] resolved q

def resolveComplexType (flat : FlatTypeMap) (raw : ComplexType) : Resolution ComplexType := do
  -- an inline type is resolved with a memo of its own
  let (ct, _) ← resolveComplexTypeWith flat (resolveNamedType flat) raw ∅
  .ok ct

/-! The registry. -/

def XsdType.isComplex : XsdType → Bool
  | .complex _ => true
  | .simple _ => false

def resolveNext (flat : FlatTypeMap) (resolved : Resolved) (q : QName) : Resolution Resolved :=
  if (resolved.lookup q).isSome then .ok resolved
  else do
    let (ct, resolved) ← resolveNamedType flat resolved q
    .ok (resolved.insert q ct)

/-- An element with an inline complex type enters the registry under its own name, unless
the name is taken or its type has an error. -/
def registerElement (flat : FlatTypeMap) (registry : TypeRegistry) (q : QName) (el : XsdElement) :
    Resolution TypeRegistry :=
  if (registry.lookup q).isSome then .ok registry
  else
    match el.inlineType with
    | some (.complex raw) =>
      match resolveComplexType flat raw with
      | .ok ct => .ok (registry.insert q (.complex ct))
      -- the error of an inline type is swallowed
      | .error (.error _) => .ok registry
      | .error .hang => .error .hang
    | some (.simple _) | none => .ok registry

/-- The registry of a flat map. -/
def resolveFlat (iter : MapOrder) (flat : FlatTypeMap) : Resolution TypeRegistry := do
  let types := (iter.order .types flat.types).entries
  let simple := types.filter fun e => !e.2.isComplex
  let registry := simple.foldl (fun registry e => registry.insert e.1 e.2) (∅ : TypeRegistry)
  -- the simple types are in; the complex ones are resolved in the order of the map
  let complexQnames := (types.filter fun e => e.2.isComplex).map Sigma.fst
  let resolved ← complexQnames.foldlM (resolveNext flat) ∅
  let registry := (iter.order .resolved resolved).entries.foldl
    (fun registry e => registry.insert e.1 (.complex e.2)) registry
  (iter.order .elements flat.elements).entries.foldlM (fun registry e => registerElement flat registry e.1 e.2) registry

def resolveSchema (iter : MapOrder) (parseXml : TreeParser) (loader : SchemaLoader) (fuel : Nat)
    (raw : RawSchema) (alreadyLoaded : List Text) : Resolution (TypeRegistry × List Text) := do
  let (flat, alreadyLoaded) ← collectAllSchemas parseXml loader fuel raw alreadyLoaded
  let registry ← resolveFlat iter flat
  .ok (registry, alreadyLoaded)

end Xsd

end SoapServer
