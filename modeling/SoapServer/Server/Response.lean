import SoapServer.Envelope.Parser

/-! What the server answers with: an envelope around a handler's body, or a fault. -/

set_option autoImplicit false

namespace SoapServer

open Markup (Text)

namespace FaultCode

def asSoap12Str : FaultCode → Text
  | .versionMismatch => "env:VersionMismatch".toList
  | .mustUnderstand => "env:MustUnderstand".toList
  | .dataEncodingUnknown => "env:DataEncodingUnknown".toList
  | .sender => "env:Sender".toList
  | .receiver => "env:Receiver".toList

/-- The code in a SOAP 1.1 fault, where `DataEncodingUnknown` has no counterpart. -/
def faultcodeV11 : FaultCode → Text
  | .sender => "SOAP-ENV:Client".toList
  | .receiver => "SOAP-ENV:Server".toList
  | .versionMismatch => "SOAP-ENV:VersionMismatch".toList
  | .mustUnderstand => "SOAP-ENV:MustUnderstand".toList
  | .dataEncodingUnknown => "SOAP-ENV:Server".toList

end FaultCode

namespace SoapFault

def toXmlBytesV11 (ext : Externals) (f : SoapFault) : Text :=
  let detailXml :=
    match f.detailXml, f.detail with
    | some raw, _ => "<detail>".toList ++ raw ++ "</detail>".toList
    | none, some detail => "<detail>".toList ++ ext.escape detail ++ "</detail>".toList
    | none, none => []
  "<SOAP-ENV:Envelope xmlns:SOAP-ENV=\"".toList ++ Envelope.soap11Ns ++
    "\"><SOAP-ENV:Body><SOAP-ENV:Fault><faultcode>".toList ++ f.code.faultcodeV11 ++
    "</faultcode><faultstring>".toList ++ ext.escape f.reason ++ "</faultstring>".toList ++ detailXml ++
    "</SOAP-ENV:Fault></SOAP-ENV:Body></SOAP-ENV:Envelope>".toList

/-- A detail that is only text is left out. -/
def toXmlBytes (ext : Externals) (f : SoapFault) : Text :=
  let detailXml :=
    match f.detailXml with
    | some raw => "<env:Detail>".toList ++ raw ++ "</env:Detail>".toList
    | none => []
  "<env:Envelope xmlns:env=\"http://www.w3.org/2003/05/soap-envelope\"><env:Body><env:Fault>".toList ++
    "<env:Code><env:Value>".toList ++ f.code.asSoap12Str ++ "</env:Value></env:Code>".toList ++
    "<env:Reason><env:Text xml:lang=\"en\">".toList ++ ext.escape f.reason ++
    "</env:Text></env:Reason>".toList ++ detailXml ++ "</env:Fault></env:Body></env:Envelope>".toList

def toXmlBytesVersioned (ext : Externals) (f : SoapFault) : SoapVersion → Text
  | .soap12 => f.toXmlBytes ext
  | .soap11 => f.toXmlBytesV11 ext

end SoapFault

def detectSoapVersion (contentType : Text) : Outcome SoapVersion :=
  if "application/soap+xml".toList <:+: contentType then .ok .soap12
  else if "text/xml".toList <:+: contentType then .ok .soap11
  else .error (.fault .versionMismatch)

def responseContentType : SoapVersion → Text
  | .soap12 => "application/soap+xml; charset=utf-8".toList
  | .soap11 => "text/xml; charset=utf-8".toList

def serializeEnvelope (body : Text) (version : SoapVersion) : Text :=
  "<env:Envelope xmlns:env=\"".toList ++ Envelope.envelopeNs version ++ "\"><env:Body>".toList ++ body ++
    "</env:Body></env:Envelope>".toList

structure Response where
  status : Nat
  contentType : Text
  body : Text
  deriving DecidableEq, Repr

def faultResponse (ext : Externals) (f : SoapFault) (version : SoapVersion) : Response :=
  ⟨500, responseContentType version, f.toXmlBytesVersioned ext version⟩

end SoapServer
