import SoapServer.Dispatch.InputElements
import SoapServer.Dispatch.Shadowing

/-! Which input elements are validated: the map from elements to types holds what the
inline schemas declare, and nothing of the schemas they load. -/

set_option autoImplicit false

namespace SoapServer.Wsdl

open Markup (Text)
open Maps Loops
open Xsd (XsdElement RawSchema parseSchema)
open Dispatch

variable {src : Sources}

/-! The map. -/

theorem lookup_recordElement (map : HashMap QName QName) (q : QName) (el : XsdElement) (e : QName) :
    (recordElement map q el).lookup e = (map.lookup e).or (if e = q then typeName q el else none) := by
  unfold recordElement
  cases typeName q el with
  | none => simp
  | some t => rw [lookup_orInsert]

theorem lookup_foldl_recordElement {entries : List (Sigma fun _ : QName => XsdElement)}
    (nodup : entries.NodupKeys) (map : HashMap QName QName) (e : QName) :
    (entries.foldl (fun map entry => recordElement map entry.1 entry.2) map).lookup e =
      (map.lookup e).or ((entries.dlookup e).bind (typeName e)) := by
  induction entries generalizing map with
  | nil => simp
  | cons entry rest ih =>
    obtain ⟨q, el⟩ := entry
    obtain ⟨fresh, nodup⟩ := List.nodupKeys_cons.mp nodup
    rw [List.foldl_cons, ih nodup, lookup_recordElement, Option.or_assoc]
    congr 1
    by_cases same : e = q
    · subst same
      rw [if_pos rfl, List.dlookup_cons_eq, List.dlookup_eq_none.mpr fresh]
      simp
    · rw [if_neg same, Option.none_or, List.dlookup_cons_ne rest ⟨q, el⟩ same]

theorem lookup_recordElements (iter : MapOrder) (raw : RawSchema) (map : HashMap QName QName)
    (e : QName) :
    (recordElements iter raw map).lookup e = (map.lookup e).or ((raw.elements.lookup e).bind (typeName e)) := by
  rw [recordElements, lookup_foldl_recordElement (iter.order .elements raw.elements).nodupKeys]
  rw [← iter.lookup_order .elements raw.elements e]
  rfl

/-- The type an inline schema gives an element. -/
def inlineTypeName (src : Sources) (schemaStr : Text) (e : QName) : Option QName :=
  match src.parseXml schemaStr with
  | .ok doc => ((parseSchema doc).elements.lookup e).bind (typeName e)
  | .error _ => none

/-- Each inline schema adds the elements it types itself. -/
theorem lookup_resolveInlineSchema {st st' : SchemaState} {schemaStr : Text}
    (step : resolveInlineSchema src st schemaStr = .ok st') (e : QName) :
    st'.accumulatedElementTypeMap.lookup e =
      (st.accumulatedElementTypeMap.lookup e).or (inlineTypeName src schemaStr e) := by
  simp only [resolveInlineSchema] at step
  simp only [inlineTypeName]
  split at step
  next => cases step
  next doc parsed =>
    split at step
    next => cases step
    next => cases step
    next =>
      obtain rfl := Except.ok.inj step
      rw [parsed]
      exact lookup_recordElements src.iter (parseSchema doc) _ e

theorem lookup_inlineSchemas {schemas : List Text} {st st' : SchemaState}
    (run : schemas.foldlM (resolveInlineSchema src) st = .ok st') (e : QName) :
    st'.accumulatedElementTypeMap.lookup e =
      (st.accumulatedElementTypeMap.lookup e).or (schemas.findSome? (inlineTypeName src · e)) := by
  induction schemas generalizing st with
  | nil =>
    obtain rfl := foldlM_nil_eq_ok.mp run
    simp
  | cons schemaStr rest ih =>
    obtain ⟨mid, step, run⟩ := foldlM_cons_eq_ok.mp run
    rw [ih run, lookup_resolveInlineSchema step, Option.or_assoc, List.findSome?_cons]
    cases inlineTypeName src schemaStr e <;> rfl

/-- The map of a resolved WSDL: the first inline schema that types an element. -/
theorem resolveWsdl_elementTypeMap {bytes : Text} {visited visited' : List Text}
    {resolved : ResolvedWsdl} {loaded : LoadedWsdl}
    (run : resolveWsdl src bytes visited = .ok (resolved, visited'))
    (loads : Loads src bytes visited loaded) (e : QName) :
    resolved.elementTypeMap.lookup e = loaded.schemas.findSome? (inlineTypeName src · e) := by
  obtain ⟨loaded', schemas, loads', _, inline, _, elements⟩ := resolveWsdl_loads run
  obtain rfl := Option.some.inj (loads.symm.trans loads')
  rw [elements, lookup_inlineSchemas inline e]
  simp

/-! Declarations. -/

/-- The schema documents of a resolution: the inline schemas and all they load. -/
inductive LoadedSchema (src : Sources) (loaded : LoadedWsdl) : RawSchema → Prop
  | inline {schemaStr : Text} {doc : DomNode} (member : schemaStr ∈ loaded.schemas)
      (parsed : src.parseXml schemaStr = .ok doc) : LoadedSchema src loaded (parseSchema doc)
  | reference {raw : RawSchema} {ns : Option Text} {location text : Text} {doc : DomNode}
      (by_ : LoadedSchema src loaded raw) (member : (ns, location) ∈ raw.references)
      (found : src.loader location = .ok text) (parsed : src.parseXml text = .ok doc) :
      LoadedSchema src loaded (parseSchema doc)

/-- Some loaded schema declares the element with a complex type: inline, or by a name that
some loaded schema declares. -/
def DeclaredComplex (src : Sources) (loaded : LoadedWsdl) (e : QName) : Prop :=
  ∃ raw el, LoadedSchema src loaded raw ∧ raw.elements.lookup e = some el ∧
    ((∃ ct, el.inlineType = some (.complex ct)) ∨
      (el.inlineType = none ∧ ∃ t other ct, el.typeRef = some t ∧ LoadedSchema src loaded other ∧
        other.types.lookup t = some (.complex ct)))

/-- Some inline schema itself declares the element with a type. -/
def TypedInline (src : Sources) (loaded : LoadedWsdl) (e : QName) : Prop :=
  ∃ schemaStr ∈ loaded.schemas, (inlineTypeName src schemaStr e).isSome

/-- The entry's body is checked against a type of the registry. -/
def Checked {H : Type} (resolved : ResolvedWsdl) (entry : DispatchEntry H) : Prop :=
  ∃ q, entry.validationType = some q ∧ (resolved.typeRegistry.lookup q).isSome

/-- A document-style operation that an entry is made for, with the element the WSDL gives it. -/
structure GivenInput (iter : MapOrder) (definition : WsdlDefinition)
    (documents : List WsdlDefinition) (serviceName : Option Text) (op : CollectedOp) (e : QName) :
    Prop where
  kept : ∃ binding, (binding, op) ∈ keptOps iter serviceName definition ∧
    givenElement documents binding.portType op.name = some e
  document : op.style = .document

/-- The first port type that is met with an operation of the name leads, by the local name of its
message, to an element that an inline schema types. -/
def LeadsToTyped (src : Sources) (loaded : LoadedWsdl) (iter : MapOrder)
    (definition : WsdlDefinition) (opName : Text) : Prop :=
  ∃ o e, (iter.values .portTypes definition.portTypes).findSome? (findOperation · opName) = some o ∧
    localMessageElement loaded.definitions o = some e ∧ TypedInline src loaded e

variable {bytes : Text} {visited visited' : List Text} {loaded : LoadedWsdl} {H : Type}
    {inputs : TableInputs H}

/-- The type recorded for an element, and whether there is one. -/
theorem elementType_isSome_iff (run : resolveWsdl src bytes visited = .ok (inputs.resolved, visited'))
    (loads : Loads src bytes visited loaded) {element : Option QName} :
    (elementType inputs.resolved element).isSome ↔ ∃ e, element = some e ∧ TypedInline src loaded e := by
  cases element with
  | none => simp [elementType]
  | some e =>
    have recorded := resolveWsdl_elementTypeMap run loads e
    simp only [elementType, Option.bind_some, recorded, List.findSome?_isSome_iff, TypedInline,
      Option.some.injEq, exists_eq_left']

/-- The entry of a document-style operation is checked exactly where the lookup leads to a typed
element. -/
theorem checked_iff (run : resolveWsdl src bytes visited = .ok (inputs.resolved, visited'))
    (loads : Loads src bytes visited loaded) {op : CollectedOp} (document : op.style = .document)
    {entry : DispatchEntry H} (made : dispatchEntry inputs op = .ok entry) :
    Checked inputs.resolved entry ↔ LeadsToTyped src loaded inputs.iter inputs.resolved.definition op.name := by
  obtain ⟨loaded', _, loads', merges, _⟩ := resolveWsdl_loads run
  obtain rfl := Option.some.inj (loads.symm.trans loads')
  obtain ⟨_, types, _⟩ := dispatchEntry_eq_ok.mp made
  obtain ⟨input, validation, typed⟩ := (inputTypes_document_eq_ok document).mp types
  have checked : Checked inputs.resolved entry ↔ entry.validationType.isSome := by
    constructor
    · rintro ⟨q, known, _⟩
      rw [known]
      rfl
    · intro some_
      obtain ⟨q, known⟩ := Option.isSome_iff_exists.mp some_
      exact ⟨q, known, typed q known⟩
  rw [checked, validation, elementType_isSome_iff run loads, input,
    resolveInputElement_eq inputs.iter merges]
  simp only [Option.bind_eq_some_iff, LeadsToTyped]
  constructor
  · rintro ⟨e, ⟨o, first, leads⟩, inline⟩
    exact ⟨o, e, first, leads, inline⟩
  · rintro ⟨o, e, first, leads, inline⟩
    exact ⟨e, ⟨o, first, leads⟩, inline⟩

/-- In a table that is built all declared input elements are checked exactly when, for each
operation with such an element, the lookup leads to an element that an inline schema types. -/
theorem declared_checked_iff (run : resolveWsdl src bytes visited = .ok (inputs.resolved, visited'))
    (loads : Loads src bytes visited loaded) {serviceName : Option Text} {table : DispatchTable H}
    (built : buildDispatchTableFromOps inputs
      (collectOpsForService inputs.iter serviceName inputs.resolved.definition) = .ok table) :
    (∀ op e entry, GivenInput inputs.iter inputs.resolved.definition loaded.definitions serviceName op e →
      DeclaredComplex src loaded e → dispatchEntry inputs op = .ok entry → Checked inputs.resolved entry) ↔
    (∀ op e, GivenInput inputs.iter inputs.resolved.definition loaded.definitions serviceName op e →
      DeclaredComplex src loaded e → LeadsToTyped src loaded inputs.iter inputs.resolved.definition op.name) := by
  constructor
  · intro checked op e given declared
    obtain ⟨binding, kept, _⟩ := given.kept
    have collected : op ∈ collectOpsForService inputs.iter serviceName inputs.resolved.definition := by
      rw [← keptOps_ops]
      exact List.mem_map.mpr ⟨_, kept, rfl⟩
    obtain ⟨entry, made⟩ := (buildDispatchTableFromOps_indexed built).made op collected
    exact (checked_iff run loads given.document made).mp (checked op e entry given declared made)
  · intro leads op e entry given declared made
    exact (checked_iff run loads given.document made).mpr (leads op e given declared)

/-! An element declared in a schema that an inline schema imports. -/

def orderElement : DomNode :=
  schemaNode "element" [attr "name" "Order"]
    [schemaNode "complexType" [] [schemaNode "sequence" [] [schemaNode "element" [attr "name" "id"] []]]]

def orderQName : QName := .new "urn:b".toList "Order".toList

def importedSchema : DomNode := schemaNode "schema" [attr "targetNamespace" "urn:b"] [orderElement]

def importingSchema : DomNode :=
  schemaNode "schema" [attr "targetNamespace" "urn:a"]
    [schemaNode "import" [attr "namespace" "urn:b", attr "schemaLocation" "b.xsd"] []]

def importingWsdl : DomNode :=
  definitionsNode
    [wsdlNode "types" [] [importingSchema], messageNode "M" "b:Order", portTypeNode "P" "Put" "a:M",
      bindingNode "B" "a:P" "Put"]

def importingSources : Sources :=
  .ofDocuments [importingWsdl, importingSchema] [("b.xsd".toList, importedSchema)]

/-- A table over one handler for everything. -/
def plainInputs (resolved : ResolvedWsdl) : TableInputs Unit := ⟨.stored, resolved, ∅, [], some ()⟩

theorem importingWsdl_resolved : ∃ resolved visited loaded table op,
    resolveWsdl importingSources (nodeToString importingWsdl) [] = .ok (resolved, visited) ∧
      Loads importingSources (nodeToString importingWsdl) [] loaded ∧
      loaded.schemas = [nodeToString importingSchema] ∧
      buildDispatchTableFromOps (plainInputs resolved) (collectOpsForService .stored none resolved.definition) =
        .ok table ∧
      GivenInput .stored resolved.definition loaded.definitions none op orderQName ∧
      dispatchEntry (plainInputs resolved) op = .ok ⟨(), true, some orderQName, none⟩ := by
  have evaluated : ∃ resolved, resolveWsdl importingSources (nodeToString importingWsdl) [] = .ok resolved ∧
      ∃ loaded, loadDocuments importingSources importingSources.fuel [] (nodeToString importingWsdl) = some loaded ∧
      ∃ table, buildDispatchTableFromOps (plainInputs resolved.1)
          (collectOpsForService .stored none resolved.1.definition) = .ok table ∧
        loaded.schemas = [nodeToString importingSchema] ∧
        ∃ bound ∈ keptOps .stored none resolved.1.definition,
          givenElement loaded.definitions bound.1.portType bound.2.name = some orderQName ∧
          bound.2.style = .document ∧
          dispatchEntry (plainInputs resolved.1) bound.2 = .ok ⟨(), true, some orderQName, none⟩ :=
            by decide +kernel
  obtain ⟨resolved, run, loaded, loads, table, built, inline, bound, kept, given, document, made⟩ :=
    evaluated
  exact ⟨resolved.1, resolved.2, loaded, table, bound.2, run, loads, inline, built,
    ⟨⟨bound.1, kept, given⟩, document⟩, made⟩

theorem importedSchema_declares {loaded : LoadedWsdl}
    (inline : loaded.schemas = [nodeToString importingSchema]) :
    DeclaredComplex importingSources loaded orderQName := by
  have importing : LoadedSchema importingSources loaded (parseSchema importingSchema) :=
    .inline (by rw [inline]; exact List.mem_singleton_self _) (by decide +kernel)
  have imported : LoadedSchema importingSources loaded (parseSchema importedSchema) :=
    .reference importing (show (some "urn:b".toList, "b.xsd".toList) ∈ _ by decide +kernel) rfl (by decide +kernel)
  exact ⟨_, Xsd.visitElement orderElement, imported, rfl, .inl ⟨_, rfl⟩⟩

theorem importedElement_unchecked : ∃ resolved visited loaded table op entry,
    resolveWsdl importingSources (nodeToString importingWsdl) [] = .ok (resolved, visited) ∧
      Loads importingSources (nodeToString importingWsdl) [] loaded ∧
      buildDispatchTableFromOps (plainInputs resolved) (collectOpsForService .stored none resolved.definition) =
        .ok table ∧
      GivenInput .stored resolved.definition loaded.definitions none op orderQName ∧
      DeclaredComplex importingSources loaded orderQName ∧ dispatchEntry (plainInputs resolved) op = .ok entry ∧
      ¬ Checked resolved entry := by
  obtain ⟨resolved, visited, loaded, table, op, run, loads, inline, built, given, made⟩ :=
    importingWsdl_resolved
  refine ⟨resolved, visited, loaded, table, op, _, run, loads, built, given,
    importedSchema_declares inline, made, ?_⟩
  rintro ⟨q, unchecked, _⟩
  cases unchecked

/-! Elements that an inline schema declares, one with a type of a schema that it imports. -/

def criteriaSchema : DomNode :=
  schemaNode "schema" [attr "targetNamespace" "urn:b"]
    [schemaNode "complexType" [attr "name" "Criteria"]
      [schemaNode "sequence" [] [schemaNode "element" [attr "name" "id"] []]]]

def typingSchema : DomNode :=
  schemaNode "schema" [attr "targetNamespace" "urn:a"]
    [schemaNode "import" [attr "namespace" "urn:b", attr "schemaLocation" "b.xsd"] [], orderElement,
      schemaNode "element" [attr "name" "Find", attr "type" "b:Criteria"] []]

def typingWsdl : DomNode :=
  definitionsNode
    [wsdlNode "types" [] [typingSchema], messageNode "M" "a:Order", messageNode "N" "a:Find",
      portTypeNode "P" "Put" "a:M", portTypeNode "Q" "Get" "a:N", bindingNode "B" "a:P" "Put",
      bindingNode "C" "a:Q" "Get"]

def typingSources : Sources := .ofDocuments [typingWsdl, typingSchema] [("b.xsd".toList, criteriaSchema)]

def inlineOrder : QName := .new "urn:a".toList "Order".toList

def inlineFind : QName := .new "urn:a".toList "Find".toList

theorem typingWsdl_resolved : ∃ resolved visited loaded table put get,
    resolveWsdl typingSources (nodeToString typingWsdl) [] = .ok (resolved, visited) ∧
      Loads typingSources (nodeToString typingWsdl) [] loaded ∧ loaded.schemas = [nodeToString typingSchema] ∧
      buildDispatchTableFromOps (plainInputs resolved) (collectOpsForService .stored none resolved.definition) =
        .ok table ∧
      GivenInput .stored resolved.definition loaded.definitions none put inlineOrder ∧
      GivenInput .stored resolved.definition loaded.definitions none get inlineFind ∧
      ∀ bound ∈ keptOps .stored none resolved.definition,
        LeadsToTyped typingSources loaded .stored resolved.definition bound.2.name := by
  have evaluated : ∃ resolved, resolveWsdl typingSources (nodeToString typingWsdl) [] = .ok resolved ∧
      ∃ loaded, loadDocuments typingSources typingSources.fuel [] (nodeToString typingWsdl) = some loaded ∧
      ∃ table, buildDispatchTableFromOps (plainInputs resolved.1)
          (collectOpsForService .stored none resolved.1.definition) = .ok table ∧
        loaded.schemas = [nodeToString typingSchema] ∧
        (∃ bound ∈ keptOps .stored none resolved.1.definition,
          givenElement loaded.definitions bound.1.portType bound.2.name = some inlineOrder ∧
            bound.2.style = .document) ∧
        (∃ bound ∈ keptOps .stored none resolved.1.definition,
          givenElement loaded.definitions bound.1.portType bound.2.name = some inlineFind ∧
            bound.2.style = .document) ∧
        ∀ bound ∈ keptOps .stored none resolved.1.definition, ∃ o,
          ((.stored : MapOrder).values .portTypes resolved.1.definition.portTypes).findSome?
            (findOperation · bound.2.name) = some o ∧
          ∃ e, localMessageElement loaded.definitions o = some e ∧
            ∃ schemaStr ∈ loaded.schemas, (inlineTypeName typingSources schemaStr e).isSome :=
              by decide +kernel
  obtain ⟨resolved, run, loaded, loads, table, built, inline, ⟨put, keptPut, givenPut, documentPut⟩,
    ⟨get, keptGet, givenGet, documentGet⟩, leads⟩ := evaluated
  refine ⟨resolved.1, resolved.2, loaded, table, put.2, get.2, run, loads, inline, built,
    ⟨⟨put.1, keptPut, givenPut⟩, documentPut⟩, ⟨⟨get.1, keptGet, givenGet⟩, documentGet⟩, fun bound kept => ?_⟩
  obtain ⟨o, first, e, leads, typed⟩ := leads bound kept
  exact ⟨o, e, first, leads, typed⟩

theorem typingSchema_declares {loaded : LoadedWsdl}
    (inline : loaded.schemas = [nodeToString typingSchema]) :
    DeclaredComplex typingSources loaded inlineOrder ∧ DeclaredComplex typingSources loaded inlineFind := by
  have typing : LoadedSchema typingSources loaded (parseSchema typingSchema) :=
    .inline (by rw [inline]; exact List.mem_singleton_self _) (by decide +kernel)
  have criteria : LoadedSchema typingSources loaded (parseSchema criteriaSchema) :=
    .reference typing (show (some "urn:b".toList, "b.xsd".toList) ∈ _ by decide +kernel) rfl (by decide +kernel)
  exact ⟨⟨_, Xsd.visitElement orderElement, typing, rfl, .inl ⟨_, rfl⟩⟩,
    ⟨_, _, typing, rfl, .inr ⟨rfl, .new "urn:b".toList "Criteria".toList, _, _, rfl, criteria, rfl⟩⟩⟩

theorem typingWsdl_checked : ∃ resolved loaded put get,
    GivenInput .stored resolved.definition loaded.definitions none put inlineOrder ∧
      DeclaredComplex typingSources loaded inlineOrder ∧
      GivenInput .stored resolved.definition loaded.definitions none get inlineFind ∧
      DeclaredComplex typingSources loaded inlineFind ∧
      ∀ op e entry, GivenInput .stored resolved.definition loaded.definitions none op e →
        DeclaredComplex typingSources loaded e → dispatchEntry (plainInputs resolved) op = .ok entry →
          Checked resolved entry := by
  obtain ⟨resolved, visited, loaded, table, put, get, run, loads, inline, built, givenPut, givenGet, leads⟩ :=
    typingWsdl_resolved
  obtain ⟨declaredPut, declaredGet⟩ := typingSchema_declares inline
  have all := @declared_checked_iff _ _ _ _ _ _ (plainInputs resolved) run loads _ _ built
  refine ⟨resolved, loaded, put, get, givenPut, declaredPut, givenGet, declaredGet,
    all.mpr fun op e given _ => ?_⟩
  obtain ⟨binding, kept, _⟩ := given.kept
  exact leads _ kept

end SoapServer.Wsdl
