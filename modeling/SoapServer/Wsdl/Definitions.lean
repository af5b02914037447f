import SoapServer.Envelope.Parser
import SoapServer.Library.Maps
import SoapServer.QName

/-! WSDL 1.1 definitions. Messages, port types, bindings and services are kept under
their local names. -/

set_option autoImplicit false

namespace SoapServer.Wsdl

open Markup (Text)
open Maps

structure MessagePart where
  name : Text
  element : Option QName
  typeRef : Option QName
  deriving DecidableEq, Repr

structure Message where
  name : Text
  parts : List MessagePart
  deriving DecidableEq, Repr

structure OperationMessage where
  name : Option Text
  message : QName
  deriving DecidableEq, Repr

structure OperationFault where
  name : Text
  message : QName
  deriving DecidableEq, Repr

inductive OperationStyle where
  | oneWay
  | requestResponse
  | solicitResponse
  | notification
  deriving DecidableEq, Repr

structure Operation where
  name : Text
  input : Option OperationMessage
  output : Option OperationMessage
  faults : List OperationFault
  style : OperationStyle
  deriving DecidableEq, Repr

structure PortType where
  name : Text
  operations : List Operation
  deriving DecidableEq, Repr

inductive BindingStyle where
  | document
  | rpc
  deriving DecidableEq, Repr

structure SoapBinding where
  style : BindingStyle
  transport : Text
  soapVersion : SoapVersion
  deriving DecidableEq, Repr

inductive UseStyle where
  | literal
  | encoded
  deriving DecidableEq, Repr

structure SoapBody where
  useAttr : UseStyle
  ns : Option Text
  encodingStyle : Option Text
  deriving DecidableEq, Repr

structure SoapHeader where
  message : QName
  part : Text
  deriving DecidableEq, Repr

structure BindingMessage where
  body : SoapBody
  headers : List SoapHeader
  deriving DecidableEq, Repr

structure BindingOperation where
  name : Text
  soapAction : Text
  input : BindingMessage
  output : BindingMessage
  deriving DecidableEq, Repr

structure Binding where
  name : Text
  portType : QName
  soapBinding : SoapBinding
  operations : List BindingOperation
  deriving DecidableEq, Repr

structure Port where
  name : Text
  binding : QName
  address : Text
  deriving DecidableEq, Repr

structure Service where
  name : Text
  ports : List Port
  deriving DecidableEq, Repr

structure WsdlImport where
  ns : Text
  location : Option Text
  deriving DecidableEq, Repr

structure WsdlDefinition where
  targetNamespace : Text
  imports : List WsdlImport
  /-- The inline schemas, each as a document of its own. -/
  schemas : List Text
  messages : HashMap Text Message
  portTypes : HashMap Text PortType
  bindings : HashMap Text Binding
  services : HashMap Text Service

end SoapServer.Wsdl
