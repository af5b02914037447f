import SoapServer.Dispatch.Provenance
import SoapServer.Wsdl.Loaded

/-! Which element an operation is indexed under, against the element that the WSDL gives it
when its references are followed as qualified names. -/

set_option autoImplicit false

namespace SoapServer.Dispatch

open Markup (Text)
open Maps Loops
open Wsdl

/-! Following references. -/

/-- The component a qualified name refers to, in the documents of its namespace. -/
def findComponent {V : Type} (documents : List WsdlDefinition)
    (field : WsdlDefinition → HashMap Text V) (q : QName) : Option V :=
  firstLoaded (documents.filter fun document => document.targetNamespace = q.namespaceUri.getD []) field q.localName

def firstPartElement (message : Message) : Option QName := message.parts.head?.bind (·.element)

/-- The element of the first part of the message that an operation's input names. -/
def messageElement (documents : List WsdlDefinition) (op : Operation) : Option QName :=
  op.input.bind fun input => (findComponent documents (·.messages) input.message).bind firstPartElement

/-- The element a WSDL gives an operation of a binding: the operation is that of the port
type the binding refers to. -/
def givenElement (documents : List WsdlDefinition) (portTypeRef : QName)
    (opName : Text) : Option QName :=
  (findComponent documents (·.portTypes) portTypeRef).bind fun portType =>
    (portType.operations.find? fun op => op.name = opName).bind (messageElement documents)

/-- The same with the message found by its local name alone. -/
def localMessageElement (documents : List WsdlDefinition) (op : Operation) : Option QName :=
  op.input.bind fun input => (firstLoaded documents (·.messages) input.message.localName).bind firstPartElement

theorem inputElement_eq {definition : WsdlDefinition} {documents : List WsdlDefinition}
    (merges : Merges definition documents) (op : Operation) :
    inputElement definition op = localMessageElement documents op := by
  simp only [inputElement, localMessageElement, bind, merges.messages]
  rfl

/-! The operations that are kept, each with its binding. -/

def boundOps (definition : WsdlDefinition) (binding : Binding) : List (Binding × CollectedOp) :=
  (bindingOps definition binding).map (Prod.mk binding)

def serviceBoundOps (definition : WsdlDefinition)
    (service : Service) : List (Binding × CollectedOp) :=
  service.ports.flatMap fun port =>
    match portBinding definition port with
    | some binding => boundOps definition binding
    | none => []

def allBoundOps (iter : MapOrder) (serviceName : Option Text) (definition : WsdlDefinition) :
    List (Binding × CollectedOp) :=
  let ops := (servicesNamed iter serviceName definition).flatMap (serviceBoundOps definition)
  if ops = [] ∧ serviceName = none then (iter.values .bindings definition.bindings).flatMap (boundOps definition)
  else ops

def uniqueBoundOps : List Text → List (Binding × CollectedOp) → List (Binding × CollectedOp)
  | _, [] => []
  | seen, bound :: rest =>
    if bound.2.name ∈ seen then uniqueBoundOps seen rest
    else bound :: uniqueBoundOps (bound.2.name :: seen) rest

def keptOps (iter : MapOrder) (serviceName : Option Text) (definition : WsdlDefinition) :
    List (Binding × CollectedOp) :=
  uniqueBoundOps [] (allBoundOps iter serviceName definition)

theorem boundOps_ops (definition : WsdlDefinition) (binding : Binding) :
    (boundOps definition binding).map Prod.snd = bindingOps definition binding := by
  simp [boundOps, Function.comp_def]

theorem serviceBoundOps_ops (definition : WsdlDefinition) (service : Service) :
    (serviceBoundOps definition service).map Prod.snd = serviceOps definition service := by
  simp only [serviceBoundOps, serviceOps, List.map_flatMap]
  congr 1
  funext port
  cases portBinding definition port with
  | none => rfl
  | some binding => exact boundOps_ops definition binding

theorem uniqueBoundOps_ops (seen : List Text) (ops : List (Binding × CollectedOp)) :
    (uniqueBoundOps seen ops).map Prod.snd = uniqueOps seen (ops.map Prod.snd) := by
  induction ops generalizing seen with
  | nil => rfl
  | cons bound rest ih =>
    by_cases known : bound.2.name ∈ seen
    · simp [uniqueBoundOps, uniqueOps, known, ih]
    · simp [uniqueBoundOps, uniqueOps, known, ih]

/-- The kept operations are the collected ones. -/
theorem keptOps_ops (iter : MapOrder) (serviceName : Option Text) (definition : WsdlDefinition) :
    (keptOps iter serviceName definition).map Prod.snd = collectOpsForService iter serviceName definition := by
  have services : ((servicesNamed iter serviceName definition).flatMap (serviceBoundOps definition)).map Prod.snd =
      (servicesNamed iter serviceName definition).flatMap (serviceOps definition) := by
    simp only [List.map_flatMap, serviceBoundOps_ops]
  have bindings : ((iter.values .bindings definition.bindings).flatMap (boundOps definition)).map Prod.snd =
      (iter.values .bindings definition.bindings).flatMap (bindingOps definition) := by
    simp only [List.map_flatMap, boundOps_ops]
  rw [keptOps, uniqueBoundOps_ops, collectOpsForService]
  congr 1
  simp only [allBoundOps, collectAllOps, ← services, List.map_eq_nil_iff]
  split
  · exact bindings
  · rfl

/-- Rotating the port types leaves what is kept. -/
theorem keptOps_rotating (iter : MapOrder) (n : Nat) (serviceName : Option Text)
    (definition : WsdlDefinition) :
    keptOps (iter.rotating .portTypes n) serviceName definition = keptOps iter serviceName definition := by
  cases serviceName <;> simp [keptOps, allBoundOps, servicesNamed]

theorem mem_of_mem_uniqueBoundOps {seen : List Text} {ops : List (Binding × CollectedOp)}
    {bound : Binding × CollectedOp} (member : bound ∈ uniqueBoundOps seen ops) : bound ∈ ops := by
  induction ops generalizing seen with
  | nil => cases member
  | cons first rest ih =>
    rw [uniqueBoundOps] at member
    split at member
    · exact .tail _ (ih member)
    · rcases List.mem_cons.mp member with rfl | later
      · exact .head _
      · exact .tail _ (ih later)

/-- What is kept is an operation of a binding of the definition. -/
theorem binding_of_kept {iter : MapOrder} {serviceName : Option Text} {definition : WsdlDefinition}
    {binding : Binding} {op : CollectedOp}
    (kept : (binding, op) ∈ keptOps iter serviceName definition) :
    (∃ l, definition.bindings.lookup l = some binding) ∧ op ∈ bindingOps definition binding := by
  have ofBinding {binding' : Binding} (among : (binding, op) ∈ boundOps definition binding') :
      binding' = binding ∧ op ∈ bindingOps definition binding := by
    obtain ⟨_, member, same⟩ := List.mem_map.mp among
    obtain ⟨rfl, rfl⟩ := Prod.mk.inj same
    exact ⟨rfl, member⟩
  have member := mem_of_mem_uniqueBoundOps kept
  simp only [allBoundOps] at member
  split at member
  · obtain ⟨binding', known, among⟩ := List.mem_flatMap.mp member
    obtain ⟨l, known⟩ := iter.mem_values.mp known
    obtain ⟨rfl, offered⟩ := ofBinding among
    exact ⟨⟨l, known⟩, offered⟩
  · obtain ⟨service, _, among⟩ := List.mem_flatMap.mp member
    obtain ⟨port, _, among⟩ := List.mem_flatMap.mp among
    cases known : portBinding definition port with
    | none =>
      rw [known] at among
      cases among
    | some binding' =>
      rw [known] at among
      obtain ⟨rfl, offered⟩ := ofBinding among
      exact ⟨⟨_, known⟩, offered⟩

/-! The entries. -/

def findOperation (portType : PortType) (opName : Text) : Option Operation :=
  portType.operations.find? fun op => op.name = opName

theorem resolveInputElement_eq (iter : MapOrder) {definition : WsdlDefinition}
    {documents : List WsdlDefinition} (merges : Merges definition documents) (opName : Text) :
    resolveInputElement iter definition opName =
      ((iter.values .portTypes definition.portTypes).findSome? (findOperation · opName)).bind
        (localMessageElement documents) := by
  rw [resolveInputElement, List.find?_flatMap]
  congr 1
  funext op
  exact inputElement_eq merges op

/-! The exact condition. -/

/-- The type of the element, if the WSDL gives it one, is in the registry. -/
def Typed (resolved : ResolvedWsdl) (element : Option QName) : Prop :=
  ∀ t, elementType resolved element = some t → (resolved.typeRegistry.lookup t).isSome

/-- Whatever the iteration order, the entry made for an operation that is kept for a
document-style binding is indexed under the element the WSDL gives the operation. It is the entry of
this one operation, also where another one keeps the table from being built. -/
def IndexedAsGiven (resolved : ResolvedWsdl) (documents : List WsdlDefinition)
    (serviceName : Option Text) : Prop :=
  ∀ (H : Type) (inputs : TableInputs H), inputs.resolved = resolved →
    ∀ binding op, (binding, op) ∈ keptOps inputs.iter serviceName resolved.definition → op.style = .document →
      ∀ entry, dispatchEntry inputs op = .ok entry →
        entry.inputType = givenElement documents binding.portType op.name

/-- Each port type with an operation of that name leads, by local names, to the given
element, or to one without a registered type; with no such port type nothing is given. -/
def Unambiguous (resolved : ResolvedWsdl) (documents : List WsdlDefinition)
    (serviceName : Option Text) : Prop :=
  ∀ iter binding op, (binding, op) ∈ keptOps iter serviceName resolved.definition → op.style = .document →
    (∀ l portType o, firstLoaded documents (·.portTypes) l = some portType →
      findOperation portType op.name = some o → Typed resolved (localMessageElement documents o) →
        localMessageElement documents o = givenElement documents binding.portType op.name) ∧
    ((∀ l portType, firstLoaded documents (·.portTypes) l = some portType →
      findOperation portType op.name = none) → givenElement documents binding.portType op.name = none)

variable {resolved : ResolvedWsdl} {documents : List WsdlDefinition}

/-- The entry of a document-style operation, under a handler for everything. -/
theorem dispatchEntry_document {iter : MapOrder} {op : CollectedOp}
    (document : op.style = .document)
    (typed : Typed resolved (resolveInputElement iter resolved.definition op.name)) :
    ∃ entry, dispatchEntry ⟨iter, resolved, ∅, [], some ()⟩ op = .ok entry ∧
      entry.inputType = resolveInputElement iter resolved.definition op.name :=
  ⟨⟨(), _, _, _⟩, dispatchEntry_eq_ok.mpr ⟨by simp, (inputTypes_document_eq_ok document).mpr ⟨rfl, rfl, typed⟩, rfl⟩,
    rfl⟩

theorem Unambiguous.indexedAsGiven {serviceName : Option Text}
    (merges : Merges resolved.definition documents)
    (unambiguous : Unambiguous resolved documents serviceName) :
    IndexedAsGiven resolved documents serviceName := by
  rintro H inputs rfl binding op kept document entry made
  obtain ⟨_, types, _⟩ := dispatchEntry_eq_ok.mp made
  obtain ⟨input, validation, typed⟩ := (inputTypes_document_eq_ok document).mp types
  obtain ⟨same, nothing⟩ := unambiguous inputs.iter binding op kept document
  rw [resolveInputElement_eq inputs.iter merges] at input
  cases found : (inputs.iter.values .portTypes inputs.resolved.definition.portTypes).findSome?
      (findOperation · op.name) with
  | none =>
    rw [found] at input
    rw [input, nothing fun l portType known => ?_]
    · rfl
    · have member : portType ∈ inputs.iter.values .portTypes inputs.resolved.definition.portTypes :=
        inputs.iter.mem_values.mpr ⟨l, (merges.portTypes l).trans known⟩
      exact List.findSome?_eq_none_iff.mp found portType member
  | some o =>
    obtain ⟨portType, member, here⟩ := List.exists_of_findSome?_eq_some found
    obtain ⟨l, known⟩ := inputs.iter.mem_values.mp member
    rw [found] at input
    rw [input] at validation ⊢
    exact same l portType o ((merges.portTypes l).symm.trans known) here
      fun t given => typed t (validation.trans given)

theorem IndexedAsGiven.unambiguous {serviceName : Option Text}
    (merges : Merges resolved.definition documents)
    (indexed : IndexedAsGiven resolved documents serviceName) :
    Unambiguous resolved documents serviceName := by
  intro iter binding op kept document
  constructor
  · intro l portType o known here typed
    -- an order that meets this port type first
    obtain ⟨n, rest, first⟩ := iter.exists_first .portTypes ((merges.portTypes l).trans known)
    have input : resolveInputElement (iter.rotating .portTypes n) resolved.definition op.name =
        localMessageElement documents o := by
      rw [resolveInputElement_eq _ merges, first, List.findSome?_cons, here]
      rfl
    obtain ⟨entry, made, same⟩ := dispatchEntry_document document (input ▸ typed)
    rw [← input, ← same]
    exact indexed Unit _ rfl binding op (by rw [keptOps_rotating]; exact kept) document entry made
  · intro nowhere
    have input : resolveInputElement iter resolved.definition op.name = none := by
      rw [resolveInputElement_eq _ merges, List.findSome?_eq_none_iff.mpr fun portType member => ?_]
      · rfl
      · obtain ⟨l, known⟩ := iter.mem_values.mp member
        exact nowhere l portType ((merges.portTypes l).symm.trans known)
    have typed : Typed resolved (resolveInputElement iter resolved.definition op.name) := by
      rw [input]
      rintro t ⟨⟩
    obtain ⟨entry, made, same⟩ := dispatchEntry_document document typed
    rw [← indexed Unit _ rfl binding op kept document entry made, same, input]

/-- Operations are indexed under the elements the WSDL gives them exactly when no other port
type or message of the same local name can be taken for theirs. -/
theorem indexedAsGiven_iff {src : Sources} {bytes : Text} {visited visited' : List Text}
    {loaded : LoadedWsdl} (run : resolveWsdl src bytes visited = .ok (resolved, visited'))
    (loads : Loads src bytes visited loaded) (serviceName : Option Text) :
    IndexedAsGiven resolved loaded.definitions serviceName ↔
      Unambiguous resolved loaded.definitions serviceName := by
  obtain ⟨loaded', _, loads', merges, _⟩ := resolveWsdl_loads run
  obtain rfl := Option.some.inj (loads.symm.trans loads')
  exact ⟨fun indexed => indexed.unambiguous merges,
    fun unambiguous => unambiguous.indexedAsGiven merges⟩

/-! Two port types that share the name of an operation. -/

/-- The binding refers to `P1`, whose `Get` takes the element `E1`; that of `P2` takes `E2`. -/
def sharedWsdl : DomNode :=
  definitionsNode
    [messageNode "M1" "a:E1", messageNode "M2" "a:E2", portTypeNode "P1" "Get" "a:M1", portTypeNode "P2" "Get" "a:M2",
      bindingNode "B" "a:P1" "Get"]

def sharedSources : Sources := .ofDocuments [sharedWsdl] []

theorem sharedWsdl_resolved : ∃ resolved visited loaded,
    resolveWsdl sharedSources (nodeToString sharedWsdl) [] = .ok (resolved, visited) ∧
      Loads sharedSources (nodeToString sharedWsdl) [] loaded ∧
      ∃ bound ∈ keptOps .stored none resolved.definition, bound.2.style = .document ∧
        (dispatchEntry ⟨.stored, resolved, ∅, [], some ()⟩ bound.2).toOption.map (·.inputType) =
          some (some (.new "urn:a".toList "E2".toList)) ∧
        givenElement loaded.definitions bound.1.portType bound.2.name =
          some (.new "urn:a".toList "E1".toList) := by
  have evaluated : ∃ resolved, resolveWsdl sharedSources (nodeToString sharedWsdl) [] = .ok resolved ∧
      ∃ loaded, loadDocuments sharedSources sharedSources.fuel [] (nodeToString sharedWsdl) = some loaded ∧
        ∃ bound ∈ keptOps .stored none resolved.1.definition, bound.2.style = .document ∧
          (dispatchEntry ⟨.stored, resolved.1, ∅, [], some ()⟩ bound.2).toOption.map (·.inputType) =
            some (some (.new "urn:a".toList "E2".toList)) ∧
          givenElement loaded.definitions bound.1.portType bound.2.name =
            some (.new "urn:a".toList "E1".toList) := by decide +kernel
  obtain ⟨resolved, run, loaded, loads, misindexed⟩ := evaluated
  exact ⟨resolved.1, resolved.2, loaded, run, loads, misindexed⟩

theorem sharedWsdl_misindexed : ∃ resolved visited loaded,
    resolveWsdl sharedSources (nodeToString sharedWsdl) [] = .ok (resolved, visited) ∧
      Loads sharedSources (nodeToString sharedWsdl) [] loaded ∧
      ¬ IndexedAsGiven resolved loaded.definitions none := by
  obtain ⟨resolved, visited, loaded, run, loads, bound, kept, document, made, given⟩ :=
    sharedWsdl_resolved
  refine ⟨resolved, visited, loaded, run, loads, fun indexed => ?_⟩
  cases entry : dispatchEntry ⟨.stored, resolved, ∅, [], some ()⟩ bound.2 with
  | error e => rw [entry] at made; cases made
  | ok found =>
    have right := indexed Unit ⟨.stored, resolved, ∅, [], some ()⟩ rfl bound.1 bound.2 kept document found entry
    rw [entry] at made
    have input : found.inputType = some (.new "urn:a".toList "E2".toList) := Option.some.inj made
    rw [input, given] at right
    exact absurd right (by decide)

/-! Two port types whose operations of one name take the same element. -/

def agreedWsdl : DomNode :=
  definitionsNode
    [messageNode "M1" "a:E1", messageNode "M2" "a:E1", portTypeNode "P1" "Get" "a:M1", portTypeNode "P2" "Get" "a:M2",
      bindingNode "B" "a:P1" "Get"]

def agreedSources : Sources := .ofDocuments [agreedWsdl] []

theorem agreedWsdl_indexed : ∃ resolved visited loaded,
    resolveWsdl agreedSources (nodeToString agreedWsdl) [] = .ok (resolved, visited) ∧
      Loads agreedSources (nodeToString agreedWsdl) [] loaded ∧ keptOps .stored none resolved.definition ≠ [] ∧
      IndexedAsGiven resolved loaded.definitions none := by
  have evaluated : ∃ resolved, resolveWsdl agreedSources (nodeToString agreedWsdl) [] = .ok resolved ∧
      ∃ loaded, loadDocuments agreedSources agreedSources.fuel [] (nodeToString agreedWsdl) = some loaded ∧
        keptOps .stored none resolved.1.definition ≠ [] ∧
        (∃ e ∈ resolved.1.definition.portTypes.entries, (findOperation e.2 "Get".toList).isSome) ∧
        (∀ e ∈ resolved.1.definition.portTypes.entries, ∀ o ∈ findOperation e.2 "Get".toList,
          localMessageElement loaded.definitions o = some (.new "urn:a".toList "E1".toList)) ∧
        ∀ e ∈ resolved.1.definition.bindings.entries, ∀ op ∈ bindingOps resolved.1.definition e.2,
          op.name = "Get".toList ∧
            givenElement loaded.definitions e.2.portType op.name = some (.new "urn:a".toList "E1".toList) := by
    decide +kernel
  obtain ⟨⟨resolved, visited⟩, run, loaded, loads, kept, offered, local_, given⟩ := evaluated
  obtain ⟨loaded', _, loads', merges, _⟩ := resolveWsdl_loads run
  obtain rfl := Option.some.inj (loads.symm.trans loads')
  refine ⟨resolved, visited, loaded, run, loads, kept, (indexedAsGiven_iff run loads none).mpr ?_⟩
  intro iter binding op among _
  obtain ⟨⟨l, known⟩, member⟩ := binding_of_kept among
  obtain ⟨name, right⟩ := given _ (AList.mem_lookup_iff.mp known) op member
  constructor
  · intro l' portType o found here _
    have entry := AList.mem_lookup_iff.mp ((merges.portTypes l').trans found)
    rw [right, local_ _ entry o (name ▸ here)]
  · intro nowhere
    obtain ⟨e, entry, has⟩ := offered
    have absent := nowhere e.1 e.2 ((merges.portTypes e.1).symm.trans (AList.mem_lookup_iff.mpr entry))
    rw [name] at absent
    rw [absent] at has
    cases has

end SoapServer.Dispatch
