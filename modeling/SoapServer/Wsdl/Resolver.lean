import SoapServer.Wsdl.Parser

/-! Resolving a WSDL document: imported documents are merged into it, and the inline
schemas of all of them fill one registry of types. -/

set_option autoImplicit false

namespace SoapServer

open Markup (Text)
open Maps

def Xsd.SchemaError.toText : Xsd.SchemaError → Text
  | .malformedXml reason => "Malformed XML: ".toList ++ reason
  | .unknownRef reason => "Unknown reference: ".toList ++ reason
  | .cycleDetected reason => "Cycle detected: ".toList ++ reason

namespace Wsdl

open Xsd (XsdElement RawSchema SchemaLoader TypeRegistry parseSchema resolveSchema)

def WsdlError.toText : WsdlError → Text
  | .malformedXml reason => "Malformed WSDL XML: ".toList ++ reason
  | .missingAttribute reason => "Missing required attribute: ".toList ++ reason
  | .unknownNamespace reason => "Unknown namespace prefix: ".toList ++ reason

abbrev WsdlLoader := Text → Except WsdlError Text

abbrev Loading (α : Type) := Except (Failure WsdlError) α

def loadingError {α : Type} (e : WsdlError) : Loading α := .error (.error e)

/-- `elementTypeMap` sends an element to the name its type has in the registry. -/
structure ResolvedWsdl where
  definition : WsdlDefinition
  typeRegistry : TypeRegistry
  elementTypeMap : HashMap QName QName
  rawBytes : Text

/-- What the inline schemas of all documents of one resolution share. -/
structure SchemaState where
  alreadyLoadedSchemas : List Text
  accumulatedTypes : TypeRegistry
  accumulatedElementTypeMap : HashMap QName QName

/-- `visited` holds the locations of the documents loaded so far. -/
structure ResolveState where
  visited : List Text
  schemas : SchemaState

/-- Where documents come from, and the order in which maps are iterated. The fuel bounds
how deeply imports nest, and the number of schemas one inline schema loads. -/
structure Sources where
  iter : MapOrder
  parseXml : TreeParser
  loader : WsdlLoader
  fuel : Nat

/-- The loader of schemas that a loader of WSDL documents makes. -/
def schemaLoader (loader : WsdlLoader) : SchemaLoader := fun _ location =>
  match loader location with
  | .ok text => .ok text
  | .error e => .error (.unknownRef ("WsdlLoader error for ".toList ++ location ++ ": ".toList ++ e.toText))

/-- The definitions of an imported document; a name that is taken stays as it is. -/
def WsdlDefinition.mergeImported (definition imported : WsdlDefinition) : WsdlDefinition :=
  { definition with
    messages := definition.messages ∪ imported.messages
    portTypes := definition.portTypes ∪ imported.portTypes
    bindings := definition.bindings ∪ imported.bindings
    services := definition.services ∪ imported.services }

/-- The name under which the registry has an element's type, if the element names or
holds one. -/
def typeName (q : QName) (el : XsdElement) : Option QName :=
  if el.inlineType.isSome then some q else el.typeRef

def recordElement (map : HashMap QName QName) (q : QName) (el : XsdElement) : HashMap QName QName :=
  match typeName q el with
  | some t => orInsert map q t
  | none => map

def recordElements (iter : MapOrder) (raw : RawSchema)
    (map : HashMap QName QName) : HashMap QName QName :=
  (iter.order .elements raw.elements).entries.foldl (fun map e => recordElement map e.1 e.2) map

/-- One inline schema: its own elements are recorded, then it is resolved with what it loads. -/
def resolveInlineSchema (src : Sources) (st : SchemaState)
    (schemaStr : Text) : Loading SchemaState :=
  match src.parseXml schemaStr with
  | .error e => loadingError (.malformedXml ("inline schema parse error: ".toList ++ e))
  | .ok doc =>
    let raw := parseSchema doc
    match resolveSchema src.iter src.parseXml (schemaLoader src.loader) src.fuel raw st.alreadyLoadedSchemas with
    | .error (.error e) => loadingError (.malformedXml ("schema resolution error: ".toList ++ e.toText))
    | .error .hang => .error .hang
    | .ok (registry, alreadyLoaded) =>
      .ok
        { alreadyLoadedSchemas := alreadyLoaded
          -- what is known stays: a type of the same name resolved here is dropped
          accumulatedTypes := st.accumulatedTypes ∪ registry
          accumulatedElementTypeMap := recordElements src.iter raw st.accumulatedElementTypeMap }

/-- One `wsdl:import`, given how a document is resolved. -/
def resolveImport (loader : WsdlLoader)
    (resolve : ResolveState → Text → Loading (ResolvedWsdl × ResolveState))
    (acc : WsdlDefinition × ResolveState) (wsdlImport : WsdlImport) :
    Loading (WsdlDefinition × ResolveState) :=
  let (definition, st) := acc
  match wsdlImport.location with
  | none => .ok acc
  | some location =>
    if location ∈ st.visited then .ok acc
    else
      match loader location with
      | .error e => loadingError e
      | .ok bytes => do
        -- marked before it is resolved, so an import of an ancestor is passed over
        let (imported, st) ← resolve { st with visited := location :: st.visited } bytes
        -- the schemas of the import are in the shared state, not in the definition
        .ok (definition.mergeImported imported.definition, st)

def resolveWsdlInner (src : Sources) :
    Nat → ResolveState → Text → Loading (ResolvedWsdl × ResolveState)
  | 0, _, _ => .error .hang
  | depth + 1, st, bytes =>
    match parseWsdl src.parseXml bytes with
    | .error e => loadingError e
    | .ok rootDef => do
      let (definition, st) ←
        rootDef.imports.foldlM (resolveImport src.loader (resolveWsdlInner src depth)) (rootDef, st)
      -- the document's own schemas come after those of all it imports
      let schemas ← definition.schemas.foldlM (resolveInlineSchema src) st.schemas
      .ok (⟨definition, schemas.accumulatedTypes, schemas.accumulatedElementTypeMap, bytes⟩, { st with schemas })

def ResolveState.initial (visited : List Text) : ResolveState := ⟨visited, ⟨[], ∅, ∅⟩⟩

def resolveWsdl (src : Sources) (bytes : Text)
    (visited : List Text) : Loading (ResolvedWsdl × List Text) := do
  let (resolved, st) ← resolveWsdlInner src src.fuel (.initial visited) bytes
  .ok (resolved, st.visited)

/-- The sources that know the given documents, and load those that have a location. -/
def Sources.ofDocuments (documents : List DomNode) (located : List (Text × DomNode)) : Sources where
  iter := .stored
  parseXml := parsesWritten (documents ++ located.map Prod.snd)
  loader location :=
    match located.lookup location with
    | some document => .ok (nodeToString document)
    | none => .error (.malformedXml location)
  fuel := 3

end Wsdl

end SoapServer
