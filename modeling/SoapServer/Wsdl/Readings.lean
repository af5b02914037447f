import SoapServer.Library.Logged
import SoapServer.Wsdl.Parser

/-! Where the qualified names of a WSDL document are resolved.

The parser is run again with a log of the names it resolves: the element and the attribute
each one is written in, and what was found. The declarations used are those in scope at that
element, except for the parts of a message.
-/

set_option autoImplicit false

namespace SoapServer.Wsdl

open Markup (Text splitOnce)
open Maps

/-- A qualified name that was resolved. -/
structure Reading where
  carrier : DomElement
  key : Text
  found : Parsed QName

/-- The name is resolved as it is where it is written. -/
def Reading.InPlace (r : Reading) : Prop :=
  ∃ value, r.carrier.attribute r.key = some value ∧ r.found = resolveQnameStr value r.carrier

abbrev Noted (α : Type) := Logged Reading WsdlError α

/-! The parser with a log. -/

namespace Readings

def resolveQnameStr (value : Text) (context carrier : DomElement) (key : Text) : Noted QName :=
  .entry (Wsdl.resolveQnameStr value context) ⟨carrier, key, Wsdl.resolveQnameStr value context⟩

def requiredAttribute (e : DomElement) (name path : Text) : Noted Text :=
  .ofExcept (Wsdl.requiredAttribute e name path)

def optionalQname (carrier : DomElement) (key : Text)
    (context : DomElement) : Noted (Option QName) :=
  match carrier.attribute key with
  | some v => do
    let q ← resolveQnameStr v context carrier key
    pure (some q)
  | none => pure none

def parseMessagePart (node parent : DomNode) : Noted MessagePart := do
  let name ← requiredAttribute node.element "name".toList "part/@name".toList
  let element ← optionalQname node.element "element".toList parent.element
  let typeRef ← optionalQname node.element "type".toList parent.element
  pure ⟨name, element, typeRef⟩

def parseMessage (node : DomNode) : Noted Message := do
  let name ← requiredAttribute node.element "name".toList "message/@name".toList
  let parts ← (childrenNamed node "part".toList).mapM (parseMessagePart · node)
  pure ⟨name, parts⟩

/-- An attribute that must be there, resolved where it is. -/
def requiredQname (e : DomElement) (key path : Text) : Noted QName := do
  let value ← requiredAttribute e key path
  resolveQnameStr value e e key

def parseOperationMessage (node : DomNode) (path : Text) : Noted OperationMessage := do
  let message ← requiredQname node.element "message".toList path
  pure ⟨node.element.attribute "name".toList, message⟩

def parseOperationFault (node : DomNode) : Noted OperationFault := do
  let name ← requiredAttribute node.element "name".toList "fault/@name".toList
  let message ← requiredQname node.element "message".toList "fault/@message".toList
  pure ⟨name, message⟩

def parseOperationChild (op : Operation) (child : DomNode) : Noted Operation :=
  if child.element.name = "input".toList then do
    let input ← parseOperationMessage child "input/@message".toList
    pure { op with input := some input }
  else if child.element.name = "output".toList then do
    let output ← parseOperationMessage child "output/@message".toList
    pure { op with output := some output }
  else if child.element.name = "fault".toList then do
    let fault ← parseOperationFault child
    pure { op with faults := op.faults ++ [fault] }
  else pure op

def parseOperation (node : DomNode) : Noted Operation := do
  let name ← requiredAttribute node.element "name".toList "operation/@name".toList
  let op ← node.children.elements.foldlM parseOperationChild ⟨name, none, none, [], .oneWay⟩
  pure { op with style := operationStyle op.input.isSome op.output.isSome }

def parsePortType (node : DomNode) : Noted PortType := do
  let name ← requiredAttribute node.element "name".toList "portType/@name".toList
  let operations ← (childrenNamed node "operation".toList).mapM parseOperation
  pure ⟨name, operations⟩

def parseBindingMessageChild (soapNs : Text) (message : BindingMessage)
    (child : DomNode) : Noted BindingMessage :=
  let e := child.element
  if nsOrEmpty e ≠ soapNs then pure message
  else if e.name = "body".toList then .ofExcept (Wsdl.parseBindingMessageChild soapNs message child)
  else if e.name = "header".toList then
    match e.attribute "message".toList, e.attribute "part".toList with
    | some msgStr, some part => do
      let q ← resolveQnameStr msgStr e e "message".toList
      pure { message with headers := message.headers ++ [⟨q, part⟩] }
    | _, _ => pure message
  else pure message

def parseBindingMessage (node : DomNode) (soapNs : Text) : Noted BindingMessage :=
  node.children.elements.foldlM (parseBindingMessageChild soapNs) .initial

def parseBindingOperationChild (soapOpNs : Text) (op : BindingOperation)
    (child : DomNode) : Noted BindingOperation :=
  let e := child.element
  if e.name = "operation".toList ∧ nsOrEmpty e = soapOpNs then
    pure { op with soapAction := (e.attribute "soapAction".toList).getD [] }
  else if e.name = "input".toList ∧ nsOrEmpty e = wsdlNs then do
    let input ← parseBindingMessage child soapOpNs
    pure { op with input }
  else if e.name = "output".toList ∧ nsOrEmpty e = wsdlNs then do
    let output ← parseBindingMessage child soapOpNs
    pure { op with output }
  else pure op

def parseBindingOperation (node : DomNode)
    (soapVersion : SoapVersion) : Noted BindingOperation := do
  let name ← requiredAttribute node.element "name".toList "binding/operation/@name".toList
  node.children.elements.foldlM (parseBindingOperationChild (bindingNs soapVersion)) ⟨name, [],
    .initial, .initial⟩

def parseBindingChild (binding : Binding) (child : DomNode) : Noted Binding :=
  let e := child.element
  if e.name = "binding".toList ∧ nsOrEmpty e = soap11BindingNs then
    pure { binding with soapBinding := parseSoapBinding e .soap11 }
  else if e.name = "binding".toList ∧ nsOrEmpty e = soap12BindingNs then
    pure { binding with soapBinding := parseSoapBinding e .soap12 }
  else if e.name = "operation".toList ∧ nsOrEmpty e = wsdlNs then do
    let op ← parseBindingOperation child binding.soapBinding.soapVersion
    pure { binding with operations := binding.operations ++ [op] }
  else pure binding

def parseBinding (node : DomNode) : Noted Binding := do
  let name ← requiredAttribute node.element "name".toList "binding/@name".toList
  let portType ← requiredQname node.element "type".toList "binding/@type".toList
  node.children.elements.foldlM parseBindingChild ⟨name, portType,
    ⟨.document, soapHttpTransport, .soap11⟩, []⟩

def parsePort (node : DomNode) : Noted Port := do
  let name ← requiredAttribute node.element "name".toList "port/@name".toList
  let binding ← requiredQname node.element "binding".toList "port/@binding".toList
  let address := (childrenNamed node "address".toList).findSome? fun child =>
    child.element.attribute "location".toList
  pure ⟨name, binding, address.getD []⟩

def parseService (node : DomNode) : Noted Service := do
  let name ← requiredAttribute node.element "name".toList "service/@name".toList
  let ports ← (childrenNamed node "port".toList).mapM parsePort
  pure ⟨name, ports⟩

def visit (definition : WsdlDefinition) (child : DomNode) : Noted WsdlDefinition :=
  let l := child.element.name
  if nsOrEmpty child.element ≠ wsdlNs then pure definition
  else if l = "import".toList then
    pure { definition with imports := definition.imports ++ [parseImport child] }
  else if l = "types".toList then pure { definition with schemas := parseTypes child }
  else if l = "message".toList then do
    let msg ← parseMessage child
    pure { definition with messages := definition.messages.insert msg.name msg }
  else if l = "portType".toList then do
    let pt ← parsePortType child
    pure { definition with portTypes := definition.portTypes.insert pt.name pt }
  else if l = "binding".toList then do
    let b ← parseBinding child
    pure { definition with bindings := definition.bindings.insert b.name b }
  else if l = "service".toList then do
    let svc ← parseService child
    pure { definition with services := definition.services.insert svc.name svc }
  else pure definition

def parseWsdl (parseXml : TreeParser) (bytes : Text) : Noted WsdlDefinition :=
  match parseXml bytes with
  | .error e => .ofExcept (.error (.malformedXml e))
  | .ok root =>
    if root.element.name ≠ "definitions".toList then
      .ofExcept (.error (.malformedXml
        ("Expected root element 'definitions', got '".toList ++ root.element.name ++ "'".toList)))
    else
      root.children.elements.foldlM visit
        ⟨(root.element.attribute "targetNamespace".toList).getD [], [], [], ∅, ∅, ∅, ∅⟩

/-! The log changes nothing. -/

open Logged (outcome_bind outcome_pure outcome_foldlM outcome_mapM)

theorem requiredAttribute_outcome (e : DomElement) (name path : Text) :
    (requiredAttribute e name path).outcome = Wsdl.requiredAttribute e name path := rfl

theorem resolveQnameStr_outcome (value : Text) (context carrier : DomElement) (key : Text) :
    (resolveQnameStr value context carrier key).outcome = Wsdl.resolveQnameStr value context := rfl

theorem optionalQname_outcome (carrier : DomElement) (key : Text) (context : DomElement) :
    (optionalQname carrier key context).outcome = Wsdl.optionalQname (carrier.attribute key) context := by
  unfold optionalQname Wsdl.optionalQname
  cases carrier.attribute key with
  | none => rfl
  | some v =>
    simp only [outcome_bind, resolveQnameStr_outcome, outcome_pure]
    cases Wsdl.resolveQnameStr v context <;> rfl

theorem parseMessagePart_outcome (node parent : DomNode) :
    (parseMessagePart node parent).outcome = Wsdl.parseMessagePart node parent := by
  simp only [parseMessagePart, Wsdl.parseMessagePart, outcome_bind, outcome_pure,
    requiredAttribute_outcome, optionalQname_outcome]

theorem parseMessage_outcome (node : DomNode) :
    (parseMessage node).outcome = Wsdl.parseMessage node := by
  simp only [parseMessage, Wsdl.parseMessage, outcome_bind, outcome_pure, outcome_mapM,
    requiredAttribute_outcome, parseMessagePart_outcome]

theorem parseOperationMessage_outcome (node : DomNode) (path : Text) :
    (parseOperationMessage node path).outcome = Wsdl.parseOperationMessage node path := by
  simp only [parseOperationMessage, Wsdl.parseOperationMessage, requiredQname, outcome_bind,
    outcome_pure, requiredAttribute_outcome, resolveQnameStr_outcome, bind_assoc]

theorem parseOperationFault_outcome (node : DomNode) :
    (parseOperationFault node).outcome = Wsdl.parseOperationFault node := by
  simp only [parseOperationFault, Wsdl.parseOperationFault, requiredQname, outcome_bind,
    outcome_pure, requiredAttribute_outcome, resolveQnameStr_outcome, bind_assoc]

theorem parseOperationChild_outcome (op : Operation) (child : DomNode) :
    (parseOperationChild op child).outcome = Wsdl.parseOperationChild op child := by
  simp only [parseOperationChild, Wsdl.parseOperationChild, apply_ite Logged.outcome, outcome_bind,
    outcome_pure, parseOperationMessage_outcome, parseOperationFault_outcome]

theorem parseOperation_outcome (node : DomNode) :
    (parseOperation node).outcome = Wsdl.parseOperation node := by
  simp only [parseOperation, Wsdl.parseOperation, outcome_bind, outcome_pure, outcome_foldlM,
    requiredAttribute_outcome, parseOperationChild_outcome]

theorem parsePortType_outcome (node : DomNode) :
    (parsePortType node).outcome = Wsdl.parsePortType node := by
  simp only [parsePortType, Wsdl.parsePortType, outcome_bind, outcome_pure, outcome_mapM,
    requiredAttribute_outcome, parseOperation_outcome]

theorem parseBindingMessageChild_outcome (soapNs : Text) (message : BindingMessage)
    (child : DomNode) :
    (parseBindingMessageChild soapNs message child).outcome = Wsdl.parseBindingMessageChild soapNs message child := by
  unfold parseBindingMessageChild
  by_cases foreign : nsOrEmpty child.element ≠ soapNs
  · simp only [if_pos foreign, Wsdl.parseBindingMessageChild, outcome_pure]
  by_cases isBody : child.element.name = "body".toList
  · simp only [if_neg foreign, if_pos isBody, Logged.outcome_ofExcept]
  simp only [if_neg foreign, if_neg isBody, Wsdl.parseBindingMessageChild, apply_ite Logged.outcome,
    outcome_pure]
  congr 1
  cases child.element.attribute "message".toList <;> cases child.element.attribute "part".toList <;>
    simp only [outcome_bind, outcome_pure, resolveQnameStr_outcome]

theorem parseBindingMessage_outcome (node : DomNode) (soapNs : Text) :
    (parseBindingMessage node soapNs).outcome = Wsdl.parseBindingMessage node soapNs := by
  simp only [parseBindingMessage, Wsdl.parseBindingMessage, outcome_foldlM,
    parseBindingMessageChild_outcome]

theorem parseBindingOperationChild_outcome (soapOpNs : Text) (op : BindingOperation)
    (child : DomNode) :
    (parseBindingOperationChild soapOpNs op child).outcome = Wsdl.parseBindingOperationChild soapOpNs op child := by
  simp only [parseBindingOperationChild, Wsdl.parseBindingOperationChild, apply_ite Logged.outcome,
    outcome_bind, outcome_pure, parseBindingMessage_outcome]

theorem parseBindingOperation_outcome (node : DomNode) (soapVersion : SoapVersion) :
    (parseBindingOperation node soapVersion).outcome = Wsdl.parseBindingOperation node soapVersion := by
  simp only [parseBindingOperation, Wsdl.parseBindingOperation, outcome_bind, outcome_foldlM,
    requiredAttribute_outcome, parseBindingOperationChild_outcome]

theorem parseBindingChild_outcome (binding : Binding) (child : DomNode) :
    (parseBindingChild binding child).outcome = Wsdl.parseBindingChild binding child := by
  simp only [parseBindingChild, Wsdl.parseBindingChild, apply_ite Logged.outcome, outcome_bind,
    outcome_pure, parseBindingOperation_outcome]

theorem parseBinding_outcome (node : DomNode) :
    (parseBinding node).outcome = Wsdl.parseBinding node := by
  simp only [parseBinding, Wsdl.parseBinding, requiredQname, outcome_bind, outcome_foldlM,
    requiredAttribute_outcome, resolveQnameStr_outcome, parseBindingChild_outcome, bind_assoc]

theorem parsePort_outcome (node : DomNode) : (parsePort node).outcome = Wsdl.parsePort node := by
  simp only [parsePort, Wsdl.parsePort, requiredQname, outcome_bind, outcome_pure,
    requiredAttribute_outcome, resolveQnameStr_outcome, bind_assoc]

theorem parseService_outcome (node : DomNode) :
    (parseService node).outcome = Wsdl.parseService node := by
  simp only [parseService, Wsdl.parseService, outcome_bind, outcome_pure, outcome_mapM,
    requiredAttribute_outcome, parsePort_outcome]

theorem visit_outcome (definition : WsdlDefinition) (child : DomNode) :
    (visit definition child).outcome = definition.visit child := by
  simp only [visit, WsdlDefinition.visit, apply_ite Logged.outcome, outcome_bind, outcome_pure,
    parseMessage_outcome, parsePortType_outcome, parseBinding_outcome, parseService_outcome]

theorem parseWsdl_outcome (parseXml : TreeParser) (bytes : Text) :
    (parseWsdl parseXml bytes).outcome = Wsdl.parseWsdl parseXml bytes := by
  unfold parseWsdl Wsdl.parseWsdl
  cases parseXml bytes with
  | error e => rfl
  | ok root => simp only [apply_ite Logged.outcome, outcome_foldlM, Logged.outcome_ofExcept, visit_outcome]

/-! Every name outside the parts of a message is resolved in place, and an undeclared prefix
is one of a name that was read. -/

/-- An error that is about no prefix. -/
def OtherError (e : WsdlError) : Prop := ∀ pre, e ≠ .unknownNamespace pre

abbrev Accounts {α : Type} (P : Reading → Prop) (x : Noted α) : Prop :=
  x.Accounted P OtherError fun e r => r.found = .error e

theorem resolveQnameStr_accounts {P : Reading → Prop} {value : Text} {context carrier : DomElement}
    {key : Text} (held : P ⟨carrier, key, Wsdl.resolveQnameStr value context⟩) :
    Accounts P (resolveQnameStr value context carrier key) where
  entries := fun _ member => (List.mem_singleton.mp member) ▸ held
  failure := fun _ failed => .inr ⟨_, List.mem_singleton_self _, failed⟩

theorem requiredAttribute_accounts (P : Reading → Prop) (e : DomElement) (name path : Text) :
    Accounts P (requiredAttribute e name path) := by
  refine Logged.accounted_ofExcept fun error failed pre same => ?_
  subst same
  unfold Wsdl.requiredAttribute at failed
  split at failed <;> cases failed

theorem requiredAttribute_eq_ok {e : DomElement} {name path value : Text} :
    Wsdl.requiredAttribute e name path = .ok value ↔ e.attribute name = some value := by
  unfold Wsdl.requiredAttribute
  cases e.attribute name <;> simp

theorem requiredQname_accounts (e : DomElement) (key path : Text) :
    Accounts Reading.InPlace (requiredQname e key path) :=
  (requiredAttribute_accounts _ e key path).bind fun value found =>
    resolveQnameStr_accounts ⟨value, requiredAttribute_eq_ok.mp found, rfl⟩

theorem parseOperationMessage_accounts (node : DomNode) (path : Text) :
    Accounts Reading.InPlace (parseOperationMessage node path) :=
  (requiredQname_accounts node.element _ path).bind fun _ _ => Logged.accounted_pure _

theorem parseOperationFault_accounts (node : DomNode) :
    Accounts Reading.InPlace (parseOperationFault node) :=
  (requiredAttribute_accounts _ node.element _ _).bind fun _ _ =>
    (requiredQname_accounts node.element _ _).bind fun _ _ => Logged.accounted_pure _

theorem parseOperationChild_accounts (op : Operation) (child : DomNode) :
    Accounts Reading.InPlace (parseOperationChild op child) := by
  unfold parseOperationChild
  split
  · exact (parseOperationMessage_accounts child _).bind fun _ _ => Logged.accounted_pure _
  split
  · exact (parseOperationMessage_accounts child _).bind fun _ _ => Logged.accounted_pure _
  split
  · exact (parseOperationFault_accounts child).bind fun _ _ => Logged.accounted_pure _
  · exact Logged.accounted_pure _

theorem parseOperation_accounts (node : DomNode) : Accounts Reading.InPlace (parseOperation node) :=
  (requiredAttribute_accounts _ node.element _ _).bind fun _ _ =>
    (Logged.accounted_foldlM (fun op child _ => parseOperationChild_accounts op child) _).bind fun _ _ =>
      Logged.accounted_pure _

theorem parsePortType_accounts (node : DomNode) : Accounts Reading.InPlace (parsePortType node) :=
  (requiredAttribute_accounts _ node.element _ _).bind fun _ _ =>
    (Logged.accounted_mapM fun child _ => parseOperation_accounts child).bind fun _ _ =>
      Logged.accounted_pure _

theorem parseBindingMessageChild_accounts (soapNs : Text) (message : BindingMessage)
    (child : DomNode) :
    Accounts Reading.InPlace (parseBindingMessageChild soapNs message child) := by
  unfold parseBindingMessageChild
  by_cases foreign : nsOrEmpty child.element ≠ soapNs
  · simp only [if_pos foreign]
    exact Logged.accounted_pure _
  by_cases isBody : child.element.name = "body".toList
  · simp only [if_neg foreign, if_pos isBody]
    -- a body has no name to resolve
    refine Logged.accounted_ofExcept fun e failed => ?_
    simp only [Wsdl.parseBindingMessageChild, if_neg foreign, if_pos isBody] at failed
    cases failed
  by_cases isHeader : child.element.name = "header".toList
  · simp only [if_neg foreign, if_neg isBody, if_pos isHeader]
    cases found : child.element.attribute "message".toList with
    | none => exact Logged.accounted_pure _
    | some value =>
      cases child.element.attribute "part".toList with
      | none => exact Logged.accounted_pure _
      | some part =>
        exact (resolveQnameStr_accounts ⟨value, found, rfl⟩).bind fun _ _ => Logged.accounted_pure _
  · simp only [if_neg foreign, if_neg isBody, if_neg isHeader]
    exact Logged.accounted_pure _

theorem parseBindingMessage_accounts (node : DomNode) (soapNs : Text) :
    Accounts Reading.InPlace (parseBindingMessage node soapNs) :=
  Logged.accounted_foldlM (fun message child _ => parseBindingMessageChild_accounts soapNs message child) _

theorem parseBindingOperationChild_accounts (soapOpNs : Text) (op : BindingOperation)
    (child : DomNode) :
    Accounts Reading.InPlace (parseBindingOperationChild soapOpNs op child) := by
  unfold parseBindingOperationChild
  simp only
  split
  · exact Logged.accounted_pure _
  split
  · exact (parseBindingMessage_accounts child _).bind fun _ _ => Logged.accounted_pure _
  split
  · exact (parseBindingMessage_accounts child _).bind fun _ _ => Logged.accounted_pure _
  · exact Logged.accounted_pure _

theorem parseBindingOperation_accounts (node : DomNode) (soapVersion : SoapVersion) :
    Accounts Reading.InPlace (parseBindingOperation node soapVersion) :=
  (requiredAttribute_accounts _ node.element _ _).bind fun _ _ =>
    Logged.accounted_foldlM (fun op child _ => parseBindingOperationChild_accounts _ op child) _

theorem parseBindingChild_accounts (binding : Binding) (child : DomNode) :
    Accounts Reading.InPlace (parseBindingChild binding child) := by
  unfold parseBindingChild
  simp only
  split
  · exact Logged.accounted_pure _
  split
  · exact Logged.accounted_pure _
  split
  · exact (parseBindingOperation_accounts child _).bind fun _ _ => Logged.accounted_pure _
  · exact Logged.accounted_pure _

theorem parseBinding_accounts (node : DomNode) : Accounts Reading.InPlace (parseBinding node) :=
  (requiredAttribute_accounts _ node.element _ _).bind fun _ _ =>
    (requiredQname_accounts node.element _ _).bind fun _ _ =>
      Logged.accounted_foldlM (fun binding child _ => parseBindingChild_accounts binding child) _

theorem parsePort_accounts (node : DomNode) : Accounts Reading.InPlace (parsePort node) :=
  (requiredAttribute_accounts _ node.element _ _).bind fun _ _ =>
    (requiredQname_accounts node.element _ _).bind fun _ _ => Logged.accounted_pure _

theorem parseService_accounts (node : DomNode) : Accounts Reading.InPlace (parseService node) :=
  (requiredAttribute_accounts _ node.element _ _).bind fun _ _ =>
    (Logged.accounted_mapM fun child _ => parsePort_accounts child).bind fun _ _ =>
      Logged.accounted_pure _

/-- A section that is a message. -/
def IsMessage (node : DomNode) : Prop := nsOrEmpty node.element = wsdlNs ∧ node.element.name = "message".toList

theorem visit_accounts (definition : WsdlDefinition) {child : DomNode} (other : ¬ IsMessage child) :
    Accounts Reading.InPlace (visit definition child) := by
  unfold visit
  simp only
  split
  · exact Logged.accounted_pure _
  case isFalse wsdl =>
    split
    · exact Logged.accounted_pure _
    split
    · exact Logged.accounted_pure _
    split
    case isTrue isMessage => exact absurd ⟨not_not.mp wsdl, isMessage⟩ other
    split
    · exact (parsePortType_accounts child).bind fun _ _ => Logged.accounted_pure _
    split
    · exact (parseBinding_accounts child).bind fun _ _ => Logged.accounted_pure _
    split
    · exact (parseService_accounts child).bind fun _ _ => Logged.accounted_pure _
    · exact Logged.accounted_pure _

/-! The parts of a message. -/

theorem optionalQname_accounts (carrier : DomElement) (key : Text) (context : DomElement) :
    Accounts (fun _ => True) (optionalQname carrier key context) := by
  unfold optionalQname
  cases carrier.attribute key with
  | none => exact Logged.accounted_pure _
  | some value => exact (resolveQnameStr_accounts trivial).bind fun _ _ => Logged.accounted_pure _

theorem parseMessagePart_accounts (node parent : DomNode) :
    Accounts (fun _ => True) (parseMessagePart node parent) :=
  (requiredAttribute_accounts _ node.element _ _).bind fun _ _ =>
    (optionalQname_accounts node.element _ parent.element).bind fun _ _ =>
      (optionalQname_accounts node.element _ parent.element).bind fun _ _ => Logged.accounted_pure _

theorem parseMessage_accounts (node : DomNode) : Accounts (fun _ => True) (parseMessage node) :=
  (requiredAttribute_accounts _ node.element _ _).bind fun _ _ =>
    (Logged.accounted_mapM fun child _ => parseMessagePart_accounts child node).bind fun _ _ =>
      Logged.accounted_pure _

theorem visit_message (definition : WsdlDefinition) {child : DomNode}
    (isMessage : IsMessage child) :
    visit definition child = (do
      let msg ← parseMessage child
      pure { definition with messages := definition.messages.insert msg.name msg }) := by
  have notImport : child.element.name ≠ "import".toList := by
    rw [isMessage.2]
    decide
  have notTypes : child.element.name ≠ "types".toList := by
    rw [isMessage.2]
    decide
  simp only [visit, if_neg (not_not.mpr isMessage.1), if_neg notImport, if_neg notTypes,
    if_pos isMessage.2]

theorem parseWsdl_accounts (parseXml : TreeParser) (bytes : Text) :
    Accounts (fun _ => True) (parseWsdl parseXml bytes) := by
  have malformed (reason : Text) : OtherError (.malformedXml reason) := fun _ same => by cases same
  unfold parseWsdl
  cases parseXml bytes with
  | error e =>
    refine Logged.accounted_ofExcept fun error failed => ?_
    cases failed
    exact malformed e
  | ok root =>
    simp only
    split
    · refine Logged.accounted_ofExcept fun error failed => ?_
      cases failed
      exact malformed _
    · refine Logged.accounted_foldlM (fun definition child _ => ?_) _
      by_cases isMessage : IsMessage child
      · rw [visit_message definition isMessage]
        exact (parseMessage_accounts child).bind fun _ _ => Logged.accounted_pure _
      · exact (visit_accounts definition isMessage).mono fun _ _ => trivial

end Readings

/-! Which names are resolved in place. -/

/-- The prefix of a qualified name, none when it has no colon. -/
def prefixOf (value : Text) : Option Text := (splitOnce ':' value).map Prod.fst

/-- Two elements resolve a name alike exactly when they bind its prefix alike. -/
theorem resolveQnameStr_eq_iff {value : Text} {a b : DomElement} :
    resolveQnameStr value a = resolveQnameStr value b ↔
      a.lookupNamespaceUri (prefixOf value) = b.lookupNamespaceUri (prefixOf value) := by
  unfold resolveQnameStr prefixOf
  cases splitOnce ':' value with
  | none =>
    simp only [Option.map_none]
    cases a.lookupNamespaceUri none <;> cases b.lookupNamespaceUri none <;> simp [QName.new,
      QName.local]
  | some halves =>
    simp only [Option.map_some]
    cases a.lookupNamespaceUri (some halves.1) <;> cases b.lookupNamespaceUri (some halves.1) <;> simp [QName.new]

theorem resolveQnameStr_eq_unknown {value pre : Text} {e : DomElement}
    (failed : resolveQnameStr value e = .error (.unknownNamespace pre)) :
    prefixOf value = some pre ∧ e.lookupNamespaceUri (some pre) = none := by
  unfold resolveQnameStr at failed
  unfold prefixOf
  cases split : splitOnce ':' value with
  | none =>
    rw [split] at failed
    simp only at failed
    split at failed <;> cases failed
  | some halves =>
    rw [split] at failed
    simp only at failed
    split at failed
    · cases failed
    case h_2 absent =>
      cases failed
      exact ⟨rfl, absent⟩

/-- A part binds the prefix of a name it carries as its message does. -/
def BindsAlike (key : Text) (part message : DomNode) : Prop :=
  ∀ value, part.element.attribute key = some value →
    part.element.lookupNamespaceUri (prefixOf value) = message.element.lookupNamespaceUri (prefixOf value)

/-- The parser gets to the names of a part: what stands before them is read without an error. -/
structure ReachedPart (root message part : DomNode) : Prop where
  definitions : root.element.name = "definitions".toList
  sections : ∃ before after definition, root.children.elements = before ++ message :: after ∧
    before.foldlM WsdlDefinition.visit
      ⟨(root.element.attribute "targetNamespace".toList).getD [], [], [], ∅, ∅, ∅, ∅⟩ = .ok definition
  isMessage : Readings.IsMessage message
  messageNamed : ∃ name, message.element.attribute "name".toList = some name
  parts : ∃ before after, childrenNamed message "part".toList = before ++ part :: after ∧
    ∀ earlier ∈ before, ∃ read, parseMessagePart earlier message = .ok read
  partNamed : ∃ name, part.element.attribute "name".toList = some name

/-- Every name that is read is resolved where it is written, and a prefix is reported as
undeclared only when it is not in scope there. -/
def ResolvedWhereWritten (parseXml : TreeParser) (bytes : Text) : Prop :=
  (∀ r ∈ (Readings.parseWsdl parseXml bytes).log, r.InPlace) ∧
    ∀ pre, parseWsdl parseXml bytes = .error (.unknownNamespace pre) →
      ∃ r ∈ (Readings.parseWsdl parseXml bytes).log, ∃ value, r.carrier.attribute r.key = some value ∧
        prefixOf value = some pre ∧ r.carrier.lookupNamespaceUri (some pre) = none

/-- Every part binds the prefix of its `element` as its message does, and that of its `type`
where the `element` is no error. -/
def PartsBindAlike (root : DomNode) : Prop :=
  ∀ message part, ReachedPart root message part →
    BindsAlike "element".toList part message ∧
      (∀ q, optionalQname (part.element.attribute "element".toList) message.element = .ok q →
        BindsAlike "type".toList part message)

namespace Readings

theorem optionalQname_inPlace_iff {part message : DomNode} {key : Text} :
    (∀ r ∈ (optionalQname part.element key message.element).log, r.InPlace) ↔ BindsAlike key part message := by
  unfold optionalQname BindsAlike
  cases found : part.element.attribute key with
  | none => simp
  | some value =>
    simp only [Option.some.injEq, forall_eq', ← resolveQnameStr_eq_iff, Logged.mem_log_bind,
      Logged.log_pure, List.not_mem_nil, and_false, exists_false, or_false]
    constructor
    · intro inPlace
      obtain ⟨value', same, resolved⟩ := inPlace _ (List.mem_singleton_self _)
      obtain rfl : value = value' := Option.some.inj (found.symm.trans same)
      exact resolved.symm
    · intro alike r member
      obtain rfl := List.mem_singleton.mp member
      exact ⟨value, found, alike.symm⟩

theorem mem_log_parseMessagePart {part message : DomNode} {r : Reading} :
    r ∈ (parseMessagePart part message).log ↔ (∃ name, part.element.attribute "name".toList = some name) ∧
      (r ∈ (optionalQname part.element "element".toList message.element).log ∨
        ∃ q, Wsdl.optionalQname (part.element.attribute "element".toList) message.element = .ok q ∧
          r ∈ (optionalQname part.element "type".toList message.element).log) := by
  have unlogged (path : Text) : (requiredAttribute part.element "name".toList path).log = [] := rfl
  simp only [parseMessagePart, Logged.mem_log_bind, unlogged, List.not_mem_nil, false_or,
    Logged.log_pure, and_false,
    exists_false, or_false, requiredAttribute_outcome, requiredAttribute_eq_ok, optionalQname_outcome, exists_and_right]

theorem mem_log_parseMessage {message : DomNode} {r : Reading} :
    r ∈ (parseMessage message).log ↔ (∃ name, message.element.attribute "name".toList = some name) ∧
      ∃ before part after, childrenNamed message "part".toList = before ++ part :: after ∧
        (∀ earlier ∈ before, ∃ read, Wsdl.parseMessagePart earlier message = .ok read) ∧
        r ∈ (parseMessagePart part message).log := by
  have unlogged (path : Text) : (requiredAttribute message.element "name".toList path).log = [] := rfl
  simp only [parseMessage, Logged.mem_log_bind, unlogged, List.not_mem_nil, false_or,
    Logged.log_pure, and_false,
    exists_false, or_false, requiredAttribute_outcome, requiredAttribute_eq_ok, Logged.mem_log_mapM,
    parseMessagePart_outcome, exists_and_right]

/-- What is logged for a document: names resolved in place, and those of the parts reached. -/
theorem mem_log_document {root : DomNode} (definitions : root.element.name = "definitions".toList) :
    (∀ r ∈ (root.children.elements.foldlM visit
      ⟨(root.element.attribute "targetNamespace".toList).getD [], [], [], ∅, ∅, ∅, ∅⟩).log, r.InPlace) ↔
      PartsBindAlike root := by
  constructor
  · rintro inPlace message part reached
    obtain ⟨before, after, definition, split, read⟩ := reached.sections
    obtain ⟨earlier, later, parts, earlierRead⟩ := reached.parts
    have logged (r : Reading) (member : r ∈ (parseMessagePart part message).log) : r.InPlace := by
      refine inPlace r (Logged.mem_log_foldlM.mpr ⟨before, message, after, definition, split, ?_, ?_⟩)
      · simpa only [visit_outcome] using read
      · rw [visit_message definition reached.isMessage, Logged.mem_log_bind]
        exact .inl (mem_log_parseMessage.mpr ⟨reached.messageNamed, earlier, part, later, parts, earlierRead, member⟩)
    refine ⟨optionalQname_inPlace_iff.mp fun r member => ?_, fun q resolves => ?_⟩
    · exact logged r (mem_log_parseMessagePart.mpr ⟨reached.partNamed, .inl member⟩)
    · refine optionalQname_inPlace_iff.mp fun r member => ?_
      exact logged r (mem_log_parseMessagePart.mpr ⟨reached.partNamed, .inr ⟨q, resolves, member⟩⟩)
  · rintro alike r member
    obtain ⟨before, child, after, definition, split, read, logged⟩ :=
      Logged.mem_log_foldlM.mp member
    by_cases isMessage : IsMessage child
    · rw [visit_message definition isMessage, Logged.mem_log_bind] at logged
      obtain inMessage | ⟨_, _, nothing⟩ := logged
      · obtain ⟨named, earlier, part, later, parts, earlierRead, inPart⟩ :=
          mem_log_parseMessage.mp inMessage
        obtain ⟨partNamed, inPart⟩ := mem_log_parseMessagePart.mp inPart
        have reached : ReachedPart root child part :=
          ⟨definitions, ⟨before, after, definition, split, by simpa only [visit_outcome] using read⟩, isMessage, named,
            ⟨earlier, later, parts, earlierRead⟩, partNamed⟩
        obtain ⟨element, typeRef⟩ := alike child part reached
        rcases inPart with ofElement | ⟨q, resolves, ofType⟩
        · exact optionalQname_inPlace_iff.mpr element r ofElement
        · exact optionalQname_inPlace_iff.mpr (typeRef q resolves) r ofType
      · cases nothing
    · exact (visit_accounts definition isMessage).entries r logged

end Readings

/-- The names of a document are resolved where they are written exactly when its parts bind
the prefixes of theirs as their messages do. -/
theorem resolved_where_written_iff (parseXml : TreeParser) (bytes : Text) :
    ResolvedWhereWritten parseXml bytes ↔ ∀ root, parseXml bytes = .ok root → PartsBindAlike root := by
  have inPlace_iff : (∀ r ∈ (Readings.parseWsdl parseXml bytes).log, r.InPlace) ↔
      ∀ root, parseXml bytes = .ok root → PartsBindAlike root := by
    unfold Readings.parseWsdl
    cases parseXml bytes with
    | error e => simp
    | ok root =>
      simp only [Except.ok.injEq, forall_eq']
      by_cases definitions : root.element.name = "definitions".toList
      · rw [if_neg (not_not.mpr definitions)]
        exact Readings.mem_log_document definitions
      · rw [if_pos definitions]
        exact iff_of_true (fun _ member => by cases member) fun message part reached =>
          absurd reached.definitions definitions
  refine ⟨fun resolved => inPlace_iff.mp resolved.1, fun alike => ⟨inPlace_iff.mpr alike, ?_⟩⟩
  intro pre failed
  rw [← Readings.parseWsdl_outcome] at failed
  rcases (Readings.parseWsdl_accounts parseXml bytes).failure _ failed
      with other | ⟨r, member, found⟩
  · exact absurd rfl (other pre)
  · obtain ⟨value, written, resolved⟩ := inPlace_iff.mpr alike r member
    exact ⟨r, member, value, written, resolveQnameStr_eq_unknown (resolved.symm.trans found)⟩

/-- A message with a part that declares the prefix of its own element. -/
def declaringPart : DomNode :=
  definitionsNode [wsdlNode "message" [attr "name" "M"]
    [.plain wsdlNs "part".toList ((some "own".toList, "urn:own".toList) :: documentNamespaces)
      [attr "name" "p", attr "element" "own:E"] []]]

theorem declaringPart_unresolved :
    ¬ ResolvedWhereWritten (parsesWritten [declaringPart]) (nodeToString declaringPart) := by
  rintro ⟨-, blamed⟩
  have evaluated : ∃ e, parseWsdl (parsesWritten [declaringPart]) (nodeToString declaringPart) = .error e ∧
      e = .unknownNamespace "own".toList := by
    decide +kernel
  obtain ⟨_, failed, rfl⟩ := evaluated
  obtain ⟨r, member, value, written, same, unbound⟩ := blamed _ failed
  have inScope : ∀ r ∈ (Readings.parseWsdl (parsesWritten [declaringPart]) (nodeToString declaringPart)).log,
      r.carrier.lookupNamespaceUri (some "own".toList) ≠ none := by decide +kernel
  exact inScope r member unbound

end SoapServer.Wsdl
