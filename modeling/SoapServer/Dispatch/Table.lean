import SoapServer.Fault
import SoapServer.Wsdl.Resolver

/-! The routing table of a service, built once from its resolved WSDL. -/

set_option autoImplicit false

namespace SoapServer.Dispatch

open Markup (Text)
open Maps
open Wsdl

/-- `inputType` routes a request; `validationType` is what its body is checked against. -/
structure DispatchEntry (H : Type) where
  handler : H
  authRequired : Bool
  inputType : Option QName
  validationType : Option QName
  deriving DecidableEq, Repr

structure DispatchTable (H : Type) where
  byElement : HashMap QName (DispatchEntry H)
  byAction : HashMap Text (DispatchEntry H)
  defaultHandler : Option H

variable {H : Type}

def DispatchTable.empty : DispatchTable H := ⟨∅, ∅, none⟩

inductive DispatchError where
  | unregisteredOperation (op : Text)
  | unknownOperation (op : Text)
  | unresolvableInputType (op element typeRef : Text)
  deriving DecidableEq, Repr

/-! Collecting operations. -/

/-- An operation as a binding offers it. -/
structure CollectedOp where
  name : Text
  soapAction : Text
  style : BindingStyle
  rpcNs : Option Text
  deriving DecidableEq, Repr

def bindingOps (definition : WsdlDefinition) (binding : Binding) : List CollectedOp :=
  binding.operations.map fun op =>
    { name := op.name
      soapAction := op.soapAction
      style := binding.soapBinding.style
      rpcNs :=
        match binding.soapBinding.style with
        | .rpc => op.input.body.ns.or (some definition.targetNamespace)
        | .document => none }

/-- A port's binding is found by its local name. -/
def portBinding (definition : WsdlDefinition) (port : Port) : Option Binding :=
  definition.bindings.lookup port.binding.localName

def serviceOps (definition : WsdlDefinition) (service : Service) : List CollectedOp :=
  service.ports.flatMap fun port =>
    match portBinding definition port with
    | some binding => bindingOps definition binding
    | none => []

/-- The first operation of each name. -/
def uniqueOps : List Text → List CollectedOp → List CollectedOp
  | _, [] => []
  | seen, op :: rest => if op.name ∈ seen then uniqueOps seen rest else op :: uniqueOps (op.name :: seen) rest

def servicesNamed (iter : MapOrder) (serviceName : Option Text)
    (definition : WsdlDefinition) : List Service :=
  match serviceName with
  | some name => (definition.services.lookup name).toList
  | none => iter.values .services definition.services

def collectAllOps (iter : MapOrder) (serviceName : Option Text) (definition : WsdlDefinition) :
    List CollectedOp :=
  let ops := (servicesNamed iter serviceName definition).flatMap (serviceOps definition)
  -- without services with operations the bindings are taken as they are
  if ops = [] ∧ serviceName = none then (iter.values .bindings definition.bindings).flatMap (bindingOps definition)
  else ops

/-- No name collects the operations of all services, or of all bindings when that gives none. -/
def collectOpsForService (iter : MapOrder) (serviceName : Option Text)
    (definition : WsdlDefinition) :
    List CollectedOp :=
  uniqueOps [] (collectAllOps iter serviceName definition)

/-! The entries. -/

/-- The element of the first part of an operation's input message. -/
def inputElement (definition : WsdlDefinition) (op : Operation) : Option QName := do
  let input ← op.input
  let message ← definition.messages.lookup input.message.localName
  let firstPart ← message.parts.head?
  firstPart.element

/-- The first operation of the name counts, in whichever port type it is met. -/
def resolveInputElement (iter : MapOrder) (definition : WsdlDefinition)
    (opName : Text) : Option QName :=
  (((iter.values .portTypes definition.portTypes).flatMap (·.operations)).find? fun op => op.name = opName).bind
    (inputElement definition)

/-- The type a document-style body is validated against. -/
def validationType (resolved : ResolvedWsdl) (opName : Text) (element : QName) :
    Except DispatchError (Option QName) :=
  match resolved.elementTypeMap.lookup element with
  -- an element that no inline schema declares is not validated
  | none => .ok none
  | some t =>
    if (resolved.typeRegistry.lookup t).isSome then .ok (some t)
    else .error (.unresolvableInputType opName element.toText t.toText)

/-- The input type and the validation type of an operation. -/
def inputTypes (iter : MapOrder) (resolved : ResolvedWsdl) (op : CollectedOp) :
    Except DispatchError (Option QName × Option QName) :=
  match op.style with
  | .rpc =>
    -- the wrapper element of an RPC call has no declaration: its name is built
    let qn := some (QName.new (op.rpcNs.getD resolved.definition.targetNamespace) op.name)
    .ok (qn, qn)
  | .document =>
    match resolveInputElement iter resolved.definition op.name with
    -- the operation can then only be reached by its action
    | none => .ok (none, none)
    | some element => (validationType resolved op.name element).map fun t => (some element, t)

/-- What a table is built from, besides the operations. -/
structure TableInputs (H : Type) where
  iter : MapOrder
  resolved : ResolvedWsdl
  handlers : HashMap Text H
  authBypass : List Text
  defaultHandler : Option H

def dispatchEntry (inputs : TableInputs H)
    (op : CollectedOp) : Except DispatchError (DispatchEntry H) :=
  match (inputs.handlers.lookup op.name).or inputs.defaultHandler with
  | none => .error (.unregisteredOperation op.name)
  | some handler =>
    (inputTypes inputs.iter inputs.resolved op).map fun types =>
      { handler
        authRequired := op.name ∉ inputs.authBypass
        inputType := types.1
        validationType := types.2 }

/-- An entry is indexed by its input type and by a non-empty action; a later one replaces
an earlier one. -/
def DispatchTable.index (table : DispatchTable H) (soapAction : Text) (entry : DispatchEntry H) :
    DispatchTable H where
  byElement :=
    match entry.inputType with
    | some qn => table.byElement.insert qn entry
    | none => table.byElement
  byAction := if soapAction = [] then table.byAction else table.byAction.insert soapAction entry
  defaultHandler := table.defaultHandler

def addOp (inputs : TableInputs H) (table : DispatchTable H) (op : CollectedOp) :
    Except DispatchError (DispatchTable H) := do
  let entry ← dispatchEntry inputs op
  .ok (table.index op.soapAction entry)

def buildDispatchTableFromOps (inputs : TableInputs H) (ops : List CollectedOp) :
    Except DispatchError (DispatchTable H) := do
  let table ← ops.foldlM (addOp inputs) ⟨∅, ∅, inputs.defaultHandler⟩
  -- handlers for operations that do not exist are found only once all entries are made
  match (inputs.iter.keys .handlers inputs.handlers).find? fun name => name ∉ ops.map (·.name) with
  | some name => .error (.unknownOperation name)
  | none => .ok table

def buildDispatchTable (inputs : TableInputs H) : Except DispatchError (DispatchTable H) :=
  buildDispatchTableFromOps inputs (collectOpsForService inputs.iter none inputs.resolved.definition)

def buildDispatchTableForService (inputs : TableInputs H) (serviceName : Text) :
    Except DispatchError (DispatchTable H) :=
  buildDispatchTableFromOps inputs
    (collectOpsForService inputs.iter (some serviceName) inputs.resolved.definition)

/-! Routing. -/

/-- By the body's element first, then by the SOAP action. -/
def route (table : DispatchTable H) (bodyFirstChildQname : QName) (soapAction : Option Text) :
    Outcome (DispatchEntry H) :=
  match (table.byElement.lookup bodyFirstChildQname).or (soapAction.bind table.byAction.lookup) with
  | some entry => .ok entry
  | none => .error (.fault (.actionNotSupported bodyFirstChildQname.toText))

end SoapServer.Dispatch
