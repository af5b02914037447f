import SoapServer.Envelope.Parser
import SoapServer.QName
import SoapServer.Wssec.UsernameToken

/-! The name of a fragment's root: the dispatch key, and the choice of the security header. -/

set_option autoImplicit false

namespace SoapServer

open Markup
open Envelope (Events boundNs)

/-- An expanded name as a key; an empty namespace counts as none. -/
def expandedQName (name : ExpandedName) : QName :=
  if boundNs name.ns = [] then .local name.localName else .new (boundNs name.ns) name.localName

def rootQName : Events → Outcome QName
  | [] => senderFault "Empty SOAP Body element".toList
  | .error e :: _ => senderFault ("XML parse error in body: ".toList ++ e)
  | .ok (ns, .start tag) :: _ | .ok (ns, .empty tag) :: _ =>
    .ok (expandedQName ⟨ns, localName tag.name⟩)
  | .ok (_, .close _) :: rest | .ok (_, .data _) :: rest => rootQName rest

def extractBodyQname (ext : Externals) (bodyBytes : Text) : Outcome QName :=
  rootQName (ext.xml.nsEvents true bodyBytes)

/-- Whether the first tag is `Security` in the WS-Security namespace. -/
def isSecurity : Events → Bool
  | [] | .error _ :: _ => false
  | .ok (ns, .start tag) :: _ | .ok (ns, .empty tag) :: _ =>
    localName tag.name = "Security".toList && ns = .bound Wssec.wsseNs
  | .ok (_, .close _) :: rest | .ok (_, .data _) :: rest => isSecurity rest

def findSecurityHeader (ext : Externals) (headerChildren : List Text) : Option Text :=
  headerChildren.find? fun child => isSecurity (ext.xml.nsEvents true child)

end SoapServer
