import SoapServer.Dispatch.Provenance

/-! What a routed request is given: the entry of one operation that the service offers. -/

set_option autoImplicit false

namespace SoapServer.Dispatch

open Markup (Text)
open Maps
open Wsdl

variable {H : Type} {inputs : TableInputs H}

/-- The operation stands in the binding of a port of the service. -/
def Offers (definition : WsdlDefinition) (service : Service) (op : CollectedOp) : Prop :=
  ∃ port ∈ service.ports, ∃ binding, portBinding definition port = some binding ∧
    op ∈ bindingOps definition binding

/-- The entry is computed from the operation: the handler registered under its name, or else
the default handler. -/
structure EntryOf (inputs : TableInputs H) (op : CollectedOp) (entry : DispatchEntry H) : Prop where
  registered : ∀ handler, inputs.handlers.lookup op.name = some handler → entry.handler = handler
  unregistered : inputs.handlers.lookup op.name = none → inputs.defaultHandler = some entry.handler
  authRequired : entry.authRequired = true ↔ op.name ∉ inputs.authBypass
  types : inputTypes inputs.iter inputs.resolved op = .ok (entry.inputType, entry.validationType)

/-- A request leads to an entry of the operation by its element, or else by its action. -/
def FoundBy (table : DispatchTable H) (q : QName) (soapAction : Option Text) (op : CollectedOp)
    (entry : DispatchEntry H) : Prop :=
  entry.inputType = some q ∨
    table.byElement.lookup q = none ∧ soapAction = some op.soapAction ∧ op.soapAction ≠ []

theorem entryOf_dispatchEntry {op : CollectedOp} {entry : DispatchEntry H}
    (made : dispatchEntry inputs op = .ok entry) : EntryOf inputs op entry := by
  obtain ⟨handler, types, auth⟩ := dispatchEntry_eq_ok.mp made
  refine ⟨fun h known => ?_, fun absent => ?_, ?_, types⟩
  · rw [known, Option.some_or] at handler
    exact (Option.some.inj handler).symm
  · rwa [absent, Option.none_or] at handler
  · rw [auth, decide_eq_true_iff]

/-- Routing tries the element first. -/
theorem Sourced.foundBy {ops : List CollectedOp} {table : DispatchTable H}
    (sourced : Sourced inputs ops table) {q : QName} {soapAction : Option Text}
    {entry : DispatchEntry H} (routed : Dispatch.route table q soapAction = .ok entry) :
    ∃ op ∈ ops, EntryOf inputs op entry ∧ FoundBy table q soapAction op entry := by
  unfold Dispatch.route at routed
  split at routed
  next found known =>
    obtain rfl := Except.ok.inj routed
    rcases Option.or_eq_some_iff.mp known with byElement | ⟨unindexed, byAction⟩
    · obtain ⟨op, member, made, input⟩ := sourced.byElement byElement
      exact ⟨op, member, entryOf_dispatchEntry made, .inl input⟩
    · obtain ⟨action, given, byAction⟩ := Option.bind_eq_some_iff.mp byAction
      obtain ⟨op, member, made, same, spoken⟩ := sourced.byAction byAction
      refine ⟨op, member, entryOf_dispatchEntry made, .inr ⟨unindexed, ?_, ?_⟩⟩
      · rw [given, same]
      · rwa [same]
  next => cases routed

theorem mem_of_mem_uniqueOps {seen : List Text} {ops : List CollectedOp} {op : CollectedOp}
    (kept : op ∈ uniqueOps seen ops) : op ∈ ops := by
  induction ops generalizing seen with
  | nil => exact kept
  | cons first rest ih =>
    unfold uniqueOps at kept
    split at kept
    · exact .tail _ (ih kept)
    · rcases List.mem_cons.mp kept with rfl | later
      · exact .head _
      · exact .tail _ (ih later)

theorem mem_serviceOps {definition : WsdlDefinition} {service : Service} {op : CollectedOp} :
    op ∈ serviceOps definition service ↔ Offers definition service op := by
  unfold serviceOps Offers
  rw [List.mem_flatMap]
  constructor
  · rintro ⟨port, member, offered⟩
    cases bound : portBinding definition port with
    | none =>
      rw [bound] at offered
      cases offered
    | some binding =>
      rw [bound] at offered
      exact ⟨port, member, binding, bound, offered⟩
  · rintro ⟨port, member, binding, bound, offered⟩
    exact ⟨port, member, by rw [bound]; exact offered⟩

/-- With a service's name, what is collected is what the service offers. -/
theorem offered_of_mem_collectOpsForService {iter : MapOrder} {definition : WsdlDefinition}
    {serviceName : Text} {op : CollectedOp}
    (collected : op ∈ collectOpsForService iter (some serviceName) definition) :
    ∃ service, definition.services.lookup serviceName = some service ∧ Offers definition service op := by
  have member := mem_of_mem_uniqueOps collected
  simp only [collectAllOps, reduceCtorEq, and_false, if_false, servicesNamed] at member
  obtain ⟨service, known, offered⟩ := List.mem_flatMap.mp member
  exact ⟨service, Option.mem_toList.mp known, mem_serviceOps.mp offered⟩

/-- A service's table gives a request the entry of one operation of that service, found by
the request's element or, when no entry has the element, by its action. -/
theorem route_service_operation {serviceName : Text} {table : DispatchTable H}
    (built : buildDispatchTableForService inputs serviceName = .ok table) {q : QName}
    {soapAction : Option Text} {entry : DispatchEntry H}
    (routed : route table q soapAction = .ok entry) :
    ∃ service op, inputs.resolved.definition.services.lookup serviceName = some service ∧
      Offers inputs.resolved.definition service op ∧ EntryOf inputs op entry ∧
      FoundBy table q soapAction op entry := by
  obtain ⟨op, collected, entryOf, found⟩ := (buildDispatchTableFromOps_sourced built).foundBy routed
  obtain ⟨service, known, offered⟩ := offered_of_mem_collectOpsForService collected
  exact ⟨service, op, known, offered, entryOf, found⟩

/-- One service with one RPC-style operation. -/
def rpcWsdl : ResolvedWsdl where
  definition :=
    { targetNamespace := "urn:a".toList, imports := [], schemas := [], messages := ∅, portTypes := ∅
      bindings := AList.singleton "B".toList
        ⟨"B".toList, .local "P".toList, ⟨.rpc, [], .soap11⟩, [⟨"Ping".toList, [], .initial, .initial⟩]⟩
      services := AList.singleton "S".toList ⟨"S".toList, [⟨"p".toList, .local "B".toList, []⟩]⟩ }
  typeRegistry := ∅
  elementTypeMap := ∅
  rawBytes := []

def rpcInputs : TableInputs Unit := ⟨.stored, rpcWsdl, ∅, [], some ()⟩

/-! Two services that share a binding. -/

def officeBinding (name : String) (style : BindingStyle)
    (operations : List (String × String)) : Binding :=
  ⟨name.toList, .local "P".toList, ⟨style, [], .soap11⟩,
    operations.map fun op => ⟨op.1.toList, op.2.toList, .initial, .initial⟩⟩

def officePort (binding : String) : Port := ⟨binding.toList, .local binding.toList, []⟩

def parcelQName : QName := .new "urn:a".toList "Parcel".toList

/-- Both services deliver and tell their status; one of them can be rung, the other opened. -/
def officeWsdl : ResolvedWsdl where
  definition :=
    { targetNamespace := "urn:a".toList, imports := [], schemas := []
      messages := AList.singleton "M".toList ⟨"M".toList, [⟨"body".toList, some parcelQName, none⟩]⟩
      portTypes := AList.singleton "P".toList
        ⟨"P".toList, [⟨"Deliver".toList, some ⟨none, .local "M".toList⟩, none, [], .requestResponse⟩]⟩
      bindings :=
        ((AList.singleton "Post".toList
          (officeBinding "Post" .document [("Deliver", "urn:Deliver"), ("Status", "urn:Status")])).insert "Desk".toList
            (officeBinding "Desk" .rpc [("Ring", "")])).insert "Vault".toList
              (officeBinding "Vault" .rpc [("Open", "urn:Open")])
      services :=
        (AList.singleton "Reception".toList ⟨"Reception".toList, [officePort "Post", officePort "Desk"]⟩).insert
          "Bank".toList ⟨"Bank".toList, [officePort "Post", officePort "Vault"]⟩ }
  typeRegistry := ∅
  elementTypeMap := ∅
  rawBytes := []

/-- `Deliver` has a handler of its own, and `Status` asks for no token. -/
def officeInputs : TableInputs Text where
  iter := .stored
  resolved := officeWsdl
  handlers := (∅ : HashMap Text Text).insert "Deliver".toList "deliver".toList
  authBypass := ["Status".toList]
  defaultHandler := some "fallback".toList

/-- What the table of the reception is asked for: by element, by action, and for an operation of the bank. -/
theorem office_routes :
    ∃ table, buildDispatchTableForService officeInputs "Reception".toList = .ok table ∧
    (∃ entry, route table parcelQName (some "urn:Status".toList) = .ok entry ∧
      entry.handler = "deliver".toList ∧ entry.authRequired = true) ∧
    (∃ entry, route table (.local "Status".toList) (some "urn:Status".toList) = .ok entry ∧
      entry.handler = "fallback".toList ∧ entry.authRequired = false) ∧
    route table (.new "urn:a".toList "Open".toList) (some "urn:Open".toList) =
      .error (.fault (.actionNotSupported "{urn:a}Open".toList)) := by
  decide +kernel

theorem office_routed : ∃ table deliver status,
    buildDispatchTableForService officeInputs "Reception".toList = .ok table ∧
    (deliver.handler = "deliver".toList ∧ ∃ service op,
      officeWsdl.definition.services.lookup "Reception".toList = some service ∧
        Offers officeWsdl.definition service op ∧ EntryOf officeInputs op deliver ∧
        FoundBy table parcelQName (some "urn:Status".toList) op deliver) ∧
    (status.handler = "fallback".toList ∧ ∃ service op,
      officeWsdl.definition.services.lookup "Reception".toList = some service ∧
        Offers officeWsdl.definition service op ∧ EntryOf officeInputs op status ∧
        FoundBy table (.local "Status".toList) (some "urn:Status".toList) op status) ∧
    route table (.new "urn:a".toList "Open".toList) (some "urn:Open".toList) =
      .error (.fault (.actionNotSupported "{urn:a}Open".toList)) := by
  obtain ⟨table, built, ⟨deliver, byElement, own, _⟩, ⟨status, byAction, fallback, _⟩, isolated⟩ :=
    office_routes
  exact ⟨table, deliver, status, built, ⟨own, route_service_operation built byElement⟩,
    ⟨fallback, route_service_operation built byAction⟩, isolated⟩

end SoapServer.Dispatch
