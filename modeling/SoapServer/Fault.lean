import SoapServer.Markup.Text

/-! SOAP faults, and the ways a call can end. -/

set_option autoImplicit false

namespace SoapServer

open Markup (Text)

inductive FaultCode where
  | versionMismatch
  | mustUnderstand
  | dataEncodingUnknown
  | sender
  | receiver
  deriving DecidableEq, Repr

structure SoapFault where
  code : FaultCode
  reason : Text
  detail : Option Text
  detailXml : Option Text
  deriving DecidableEq, Repr

def SoapFault.new (code : FaultCode) (reason : Text) (detail : Option Text) : SoapFault :=
  ⟨code, reason, detail, none⟩

def SoapFault.sender (reason : Text) : SoapFault := .new .sender reason none

def SoapFault.receiver (reason : Text) : SoapFault := .new .receiver reason none

def SoapFault.versionMismatch : SoapFault :=
  .new .versionMismatch "SOAP version mismatch".toList none

def SoapFault.actionNotSupported (action : Text) : SoapFault :=
  .new .sender ("Action not supported: ".toList ++ action) none

/-- How a call ends when it does not return `Ok`: with a fault, by a panic, or never. -/
inductive Abort where
  | fault (f : SoapFault)
  | panic
  | hang
  deriving DecidableEq, Repr

abbrev Outcome (α : Type) := Except Abort α

def senderFault {α : Type} (reason : Text) : Outcome α := .error (.fault (.sender reason))

@[simp] theorem bind_ok {α β : Type} (a : α) (f : α → Outcome β) :
    ((.ok a : Outcome α) >>= f) = f a := rfl

@[simp] theorem bind_error {α β : Type} (e : Abort) (f : α → Outcome β) :
    ((.error e : Outcome α) >>= f) = .error e := rfl

@[simp] theorem bind_senderFault {α β : Type} (reason : Text) (f : α → Outcome β) :
    ((senderFault reason : Outcome α) >>= f) = senderFault reason := rfl

end SoapServer
