import SoapServer.Wsdl.Definitions
import SoapServer.Xsd.Resolver

/-! From a WSDL document to its definitions. -/

set_option autoImplicit false

namespace SoapServer.Wsdl

open Markup (Text splitOnce)
open Maps

def wsdlNs : Text := "http://schemas.xmlsoap.org/wsdl/".toList

def soap11BindingNs : Text := "http://schemas.xmlsoap.org/wsdl/soap/".toList

def soap12BindingNs : Text := "http://schemas.xmlsoap.org/wsdl/soap12/".toList

def soapHttpTransport : Text := "http://schemas.xmlsoap.org/soap/http".toList

inductive WsdlError where
  | malformedXml (reason : Text)
  | missingAttribute (reason : Text)
  | unknownNamespace (reason : Text)
  deriving DecidableEq, Repr

abbrev Parsed (α : Type) := Except WsdlError α

/-- The namespace of an element, empty when it has none. -/
def nsOrEmpty (e : DomElement) : Text := e.ns.getD []

/-- `resolve_qname_str`: an undeclared prefix is an error. -/
def resolveQnameStr (qnameStr : Text) (context : DomElement) : Parsed QName :=
  match splitOnce ':' qnameStr with
  | some (pre, l) =>
    match context.lookupNamespaceUri (some pre) with
    | some ns => .ok (.new ns l)
    | none => .error (.unknownNamespace pre)
  | none =>
    match context.lookupNamespaceUri none with
    | some ns => .ok (.new ns qnameStr)
    | none => .ok (.local qnameStr)

/-- A required attribute; `path` names it in the error. -/
def requiredAttribute (e : DomElement) (name path : Text) : Parsed Text :=
  match e.attribute name with
  | some v => .ok v
  | none => .error (.missingAttribute path)

def optionalQname (value : Option Text) (context : DomElement) : Parsed (Option QName) :=
  match value with
  | some v => (resolveQnameStr v context).map some
  | none => .ok none

/-! Inline schemas, written out again. -/

/-- The prefix of the first declaration in scope for a namespace, empty for the default one. -/
def findPrefixForNs (e : DomElement) (nsUri : Text) : Option Text :=
  if nsUri = [] then none
  else (e.namespaces.find? fun ns => ns.2 = nsUri).map fun ns => ns.1.getD []

def qualifiedName (e : DomElement) : Text :=
  match findPrefixForNs e (nsOrEmpty e) with
  | some pre => if pre = [] then e.name else pre ++ ':' :: e.name
  | none => e.name

def serializeNs (ns : Option Text × Text) : Text :=
  match ns.1 with
  | some p => " xmlns:".toList ++ p ++ "=\"".toList ++ ns.2 ++ ['"']
  | none => " xmlns=\"".toList ++ ns.2 ++ ['"']

/-- Attribute values and character data are written as they are, without escaping, and an
attribute without its prefix. -/
def serializeAttribute (attr : DomAttribute) : Text :=
  ' ' :: (attr.name ++ "=\"".toList ++ attr.value ++ ['"'])

def serializeForest : DomForest → Text
  | .nil => []
  | .text s rest => s ++ serializeForest rest
  | .other rest => serializeForest rest
  | .element e children rest =>
    '<' :: (qualifiedName e ++ e.namespaces.flatMap serializeNs ++ e.attributes.flatMap serializeAttribute ++
      (if children = .nil then "/>".toList
        else '>' :: (serializeForest children ++ "</".toList ++ qualifiedName e ++ ['>']))) ++
      serializeForest rest

def nodeToString (node : DomNode) : Text := serializeForest (.element node.element node.children .nil)

/-! The sections of a definition. -/

def parseImport (node : DomNode) : WsdlImport :=
  ⟨(node.element.attribute "namespace".toList).getD [], node.element.attribute "location".toList⟩

/-- The inline schemas of a `types` section. -/
def parseTypes (node : DomNode) : List Text :=
  (node.children.elements.filter fun child =>
    nsOrEmpty child.element = Xsd.xsNs ∧ child.element.name = "schema".toList).map nodeToString

/-- The names of a part are resolved in the context of its message. -/
def parseMessagePart (node parent : DomNode) : Parsed MessagePart := do
  let name ← requiredAttribute node.element "name".toList "part/@name".toList
  let element ← optionalQname (node.element.attribute "element".toList) parent.element
  let typeRef ← optionalQname (node.element.attribute "type".toList) parent.element
  .ok ⟨name, element, typeRef⟩

def childrenNamed (node : DomNode) (name : Text) : List DomNode :=
  node.children.elements.filter fun child => child.element.name = name

def parseMessage (node : DomNode) : Parsed Message := do
  let name ← requiredAttribute node.element "name".toList "message/@name".toList
  let parts ← (childrenNamed node "part".toList).mapM (parseMessagePart · node)
  .ok ⟨name, parts⟩

/-- `input` or `output` of an operation. -/
def parseOperationMessage (node : DomNode) (path : Text) : Parsed OperationMessage := do
  let msgAttr ← requiredAttribute node.element "message".toList path
  let message ← resolveQnameStr msgAttr node.element
  .ok ⟨node.element.attribute "name".toList, message⟩

def parseOperationFault (node : DomNode) : Parsed OperationFault := do
  let name ← requiredAttribute node.element "name".toList "fault/@name".toList
  let msgAttr ← requiredAttribute node.element "message".toList "fault/@message".toList
  let message ← resolveQnameStr msgAttr node.element
  .ok ⟨name, message⟩

def operationStyle (hasInput hasOutput : Bool) : OperationStyle :=
  match hasInput, hasOutput with
  | true, true => .requestResponse
  | true, false => .oneWay
  | false, true => .notification
  | false, false => .oneWay

/-- One child of an operation: the last `input` and the last `output` count. -/
def parseOperationChild (op : Operation) (child : DomNode) : Parsed Operation :=
  if child.element.name = "input".toList then do
    let input ← parseOperationMessage child "input/@message".toList
    .ok { op with input := some input }
  else if child.element.name = "output".toList then do
    let output ← parseOperationMessage child "output/@message".toList
    .ok { op with output := some output }
  else if child.element.name = "fault".toList then do
    let fault ← parseOperationFault child
    .ok { op with faults := op.faults ++ [fault] }
  else .ok op

def parseOperation (node : DomNode) : Parsed Operation := do
  let name ← requiredAttribute node.element "name".toList "operation/@name".toList
  let op ← node.children.elements.foldlM parseOperationChild ⟨name, none, none, [], .oneWay⟩
  .ok { op with style := operationStyle op.input.isSome op.output.isSome }

def parsePortType (node : DomNode) : Parsed PortType := do
  let name ← requiredAttribute node.element "name".toList "portType/@name".toList
  let operations ← (childrenNamed node "operation".toList).mapM parseOperation
  .ok ⟨name, operations⟩

def parseBindingStyle (e : DomElement) : BindingStyle :=
  if e.attribute "style".toList = some "rpc".toList then .rpc else .document

def BindingMessage.initial : BindingMessage := ⟨⟨.literal, none, none⟩, []⟩

def parseBindingMessageChild (soapNs : Text) (message : BindingMessage) (child : DomNode) :
    Parsed BindingMessage :=
  let e := child.element
  if nsOrEmpty e ≠ soapNs then .ok message
  else if e.name = "body".toList then
    .ok { message with
      body := ⟨if e.attribute "use".toList = some "encoded".toList then .encoded else .literal,
        e.attribute "namespace".toList, e.attribute "encodingStyle".toList⟩ }
  else if e.name = "header".toList then
    match e.attribute "message".toList, e.attribute "part".toList with
    | some msgStr, some part => do
      let q ← resolveQnameStr msgStr e
      .ok { message with headers := message.headers ++ [⟨q, part⟩] }
    | _, _ => .ok message
  else .ok message

def parseBindingMessage (node : DomNode) (soapNs : Text) : Parsed BindingMessage :=
  node.children.elements.foldlM (parseBindingMessageChild soapNs) .initial

def bindingNs : SoapVersion → Text
  | .soap11 => soap11BindingNs
  | .soap12 => soap12BindingNs

def parseBindingOperationChild (soapOpNs : Text) (op : BindingOperation) (child : DomNode) :
    Parsed BindingOperation :=
  let e := child.element
  if e.name = "operation".toList ∧ nsOrEmpty e = soapOpNs then
    .ok { op with soapAction := (e.attribute "soapAction".toList).getD [] }
  else if e.name = "input".toList ∧ nsOrEmpty e = wsdlNs then do
    let input ← parseBindingMessage child soapOpNs
    .ok { op with input }
  else if e.name = "output".toList ∧ nsOrEmpty e = wsdlNs then do
    let output ← parseBindingMessage child soapOpNs
    .ok { op with output }
  else .ok op

def parseBindingOperation (node : DomNode)
    (soapVersion : SoapVersion) : Parsed BindingOperation := do
  let name ← requiredAttribute node.element "name".toList "binding/operation/@name".toList
  node.children.elements.foldlM (parseBindingOperationChild (bindingNs soapVersion))
    ⟨name, [], .initial, .initial⟩

def parseSoapBinding (e : DomElement) (soapVersion : SoapVersion) : SoapBinding :=
  ⟨parseBindingStyle e, (e.attribute "transport".toList).getD soapHttpTransport, soapVersion⟩

/-- One child of a binding; an operation is read under the SOAP version found before it. -/
def parseBindingChild (binding : Binding) (child : DomNode) : Parsed Binding :=
  let e := child.element
  if e.name = "binding".toList ∧ nsOrEmpty e = soap11BindingNs then
    .ok { binding with soapBinding := parseSoapBinding e .soap11 }
  else if e.name = "binding".toList ∧ nsOrEmpty e = soap12BindingNs then
    .ok { binding with soapBinding := parseSoapBinding e .soap12 }
  else if e.name = "operation".toList ∧ nsOrEmpty e = wsdlNs then do
    let op ← parseBindingOperation child binding.soapBinding.soapVersion
    .ok { binding with operations := binding.operations ++ [op] }
  else .ok binding

def parseBinding (node : DomNode) : Parsed Binding := do
  let name ← requiredAttribute node.element "name".toList "binding/@name".toList
  let portTypeStr ← requiredAttribute node.element "type".toList "binding/@type".toList
  let portType ← resolveQnameStr portTypeStr node.element
  node.children.elements.foldlM parseBindingChild ⟨name, portType,
    ⟨.document, soapHttpTransport, .soap11⟩, []⟩

def parsePort (node : DomNode) : Parsed Port := do
  let name ← requiredAttribute node.element "name".toList "port/@name".toList
  let bindingStr ← requiredAttribute node.element "binding".toList "port/@binding".toList
  let binding ← resolveQnameStr bindingStr node.element
  let address := (childrenNamed node "address".toList).findSome? fun child =>
    child.element.attribute "location".toList
  .ok ⟨name, binding, address.getD []⟩

def parseService (node : DomNode) : Parsed Service := do
  let name ← requiredAttribute node.element "name".toList "service/@name".toList
  let ports ← (childrenNamed node "port".toList).mapM parsePort
  .ok ⟨name, ports⟩

/-- One child of the root. A second `types` section replaces the first. -/
def WsdlDefinition.visit (definition : WsdlDefinition) (child : DomNode) : Parsed WsdlDefinition :=
  let l := child.element.name
  if nsOrEmpty child.element ≠ wsdlNs then .ok definition
  else if l = "import".toList then
    .ok { definition with imports := definition.imports ++ [parseImport child] }
  else if l = "types".toList then .ok { definition with schemas := parseTypes child }
  else if l = "message".toList then do
    let msg ← parseMessage child
    .ok { definition with messages := definition.messages.insert msg.name msg }
  else if l = "portType".toList then do
    let pt ← parsePortType child
    .ok { definition with portTypes := definition.portTypes.insert pt.name pt }
  else if l = "binding".toList then do
    let b ← parseBinding child
    .ok { definition with bindings := definition.bindings.insert b.name b }
  else if l = "service".toList then do
    let svc ← parseService child
    .ok { definition with services := definition.services.insert svc.name svc }
  else .ok definition

def parseWsdl (parseXml : TreeParser) (bytes : Text) : Parsed WsdlDefinition :=
  match parseXml bytes with
  | .error e => .error (.malformedXml e)
  | .ok root =>
    if root.element.name ≠ "definitions".toList then
      .error (.malformedXml
        ("Expected root element 'definitions', got '".toList ++ root.element.name ++ "'".toList))
    else
      root.children.elements.foldlM WsdlDefinition.visit
        ⟨(root.element.attribute "targetNamespace".toList).getD [], [], [], ∅, ∅, ∅, ∅⟩

/-! Documents from their parts. -/

/-- The tree parser that knows just the given documents, each from its written form. -/
def parsesWritten (documents : List DomNode) : TreeParser := fun text =>
  match documents.find? fun document => nodeToString document = text with
  | some document => .ok document
  | none => .error "unknown document".toList

/-- The declarations that stand on every element of the documents below. -/
def documentNamespaces : List (Option Text × Text) :=
  [(none, wsdlNs), (some "xs".toList, Xsd.xsNs), (some "a".toList, "urn:a".toList), (some "b".toList, "urn:b".toList)]

def wsdlNode (name : String) (attributes : List (Text × Text))
    (children : List DomNode) : DomNode :=
  .plain wsdlNs name.toList documentNamespaces attributes children

def schemaNode (name : String) (attributes : List (Text × Text))
    (children : List DomNode) : DomNode :=
  .plain Xsd.xsNs name.toList documentNamespaces attributes children

def attr (name value : String) : Text × Text := (name.toList, value.toList)

/-- A message with one part, of the given element. -/
def messageNode (name element : String) : DomNode :=
  wsdlNode "message" [attr "name" name] [wsdlNode "part" [attr "name" "p", attr "element" element] []]

/-- A port type with one operation, of the given input message. -/
def portTypeNode (name operation message : String) : DomNode :=
  wsdlNode "portType" [attr "name" name]
    [wsdlNode "operation" [attr "name" operation] [wsdlNode "input" [attr "message" message] []]]

/-- A document-style binding with one operation. -/
def bindingNode (name portType operation : String) : DomNode :=
  wsdlNode "binding" [attr "name" name, attr "type" portType] [wsdlNode "operation" [attr "name" operation] []]

/-- A service with one port, at the given address. -/
def serviceNode (name binding address : String) : DomNode :=
  wsdlNode "service" [attr "name" name]
    [wsdlNode "port" [attr "name" "p", attr "binding" binding] [wsdlNode "address" [attr "location" address] []]]

def definitionsNode (sections : List DomNode) : DomNode :=
  wsdlNode "definitions" [attr "targetNamespace" "urn:a"] sections

end SoapServer.Wsdl
