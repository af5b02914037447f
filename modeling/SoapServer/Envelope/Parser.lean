import SoapServer.Externals
import SoapServer.Fault

/-! Reading a SOAP envelope: the version, the children of `Header` and the first child of
`Body`, each as text of its own with the namespaces of its ancestors declared again.

A reader is the list of events it has still to report.
-/

set_option autoImplicit false

namespace SoapServer

open Markup

inductive SoapVersion where
  | soap11
  | soap12
  deriving DecidableEq, Repr

namespace Envelope

def soap12Ns : Text := "http://www.w3.org/2003/05/soap-envelope".toList

def soap11Ns : Text := "http://schemas.xmlsoap.org/soap/envelope/".toList

/-- The namespace of the envelope of a version. -/
def envelopeNs : SoapVersion → Text
  | .soap12 => soap12Ns
  | .soap11 => soap11Ns

structure ParsedEnvelope where
  soapVersion : SoapVersion
  headerChildren : List Text
  bodyElement : Text
  deriving DecidableEq, Repr

abbrev Events := List (Except Text NsEvent)

def xmlParseError {α : Type} (e : Text) : Outcome α := senderFault ("XML parse error: ".toList ++ e)

/-- The bytes of a resolved namespace, empty unless it is bound. -/
def boundNs : ResolveResult → Text
  | .bound ns => ns
  | .unbound | .unknown _ => []

def isSoapNs (ns : ResolveResult) : Bool := boundNs ns = soap12Ns || boundNs ns = soap11Ns

/-- The attributes of a tag, or a fault at the first one the reader rejects. -/
def validAttributes : List (Option Attribute) → Outcome (List Attribute)
  | [] => .ok []
  | none :: _ => senderFault "Invalid attribute".toList
  | some a :: rest => do
    let rest ← validAttributes rest
    .ok (a :: rest)

def xmlnsColon : Text := "xmlns:".toList

def xmlns : Text := "xmlns".toList

/-- The namespace declarations among the attributes. -/
def collectBindings (attributes : List Attribute) : Scope :=
  attributes.filterMap fun attr =>
    if (stripPrefix xmlnsColon attr.key).isSome then some (trimStartMatches xmlnsColon attr.key, attr.value)
    else if attr.key = xmlns then some ([], attr.value)
    else none

/-- `collect_ns_from_attrs`: the new bindings go before the inherited ones. -/
def collectNsFromAttrs (tag : ReadTag) (bindings : Scope) : Scope :=
  collectBindings tag.attributes.reduceOption ++ bindings

/-! Emission. -/

def bindingKey (pre : Text) : Text := if pre = [] then xmlns else xmlnsColon ++ pre

def emitBinding (binding : Text × Text) : Text := (Attribute.mk (bindingKey binding.1) binding.2).write

def emitTag (name : Text) (bindings : Scope) (attributes : List Attribute) (close : Text) : Text :=
  '<' :: (name ++ (bindings.flatMap emitBinding ++ (attributes.flatMap Attribute.write ++ close)))

/-- A tag below the root of a fragment. -/
def emitNested (tag : ReadTag) (close : Text) : Outcome Text := do
  let attributes ← validAttributes tag.attributes
  .ok (emitTag tag.name [] attributes close)

/-- The root of a header child: attributes the reader rejects are left out, and a binding
is emitted unless an attribute of its own has the same key. -/
def emitHeaderRoot (bindings : Scope) (tag : ReadTag) (close : Text) : Text :=
  let ownAttrs := tag.attributes.reduceOption
  let ownAttrKeys := ownAttrs.map (·.key)
  emitTag tag.name (bindings.filter fun binding => bindingKey binding.1 ∉ ownAttrKeys) ownAttrs close

/-- The root of the body element: a binding is emitted unless the root declares its prefix. -/
def emitBodyRoot (bindings : Scope) (tag : ReadTag) (close : Text) : Outcome Text := do
  let ownAttrs ← validAttributes tag.attributes
  let ownPrefixes := (collectBindings ownAttrs).map Prod.fst
  .ok (emitTag tag.name (bindings.filter fun binding => binding.1 ∉ ownPrefixes) ownAttrs close)

def openEnd : Text := ['>']

def selfClosingEnd : Text := ['/', '>']

/-! The loops. -/

def findEnvelope : Events → Outcome (SoapVersion × Scope × Events)
  | [] => senderFault "Missing SOAP Envelope element".toList
  | .error e :: _ => xmlParseError e
  | .ok (ns, .start tag) :: rest =>
    if localName tag.name = "Envelope".toList then do
      let soapVersion ←
        if boundNs ns = soap12Ns then .ok SoapVersion.soap12
        else if boundNs ns = soap11Ns then .ok SoapVersion.soap11
        else senderFault "Unknown SOAP Envelope namespace".toList
      let attributes ← validAttributes tag.attributes
      -- only the namespaces of the envelope's own tag, as nothing is open around it
      .ok (soapVersion, collectBindings attributes, rest)
    else findEnvelope rest
  -- whatever stands before the envelope is passed over, other elements too
  | .ok (_, .empty _) :: rest | .ok (_, .close _) :: rest | .ok (_, .data _) :: rest =>
    findEnvelope rest

def skipToEnd : Nat → Events → Outcome Events
  | _, [] => senderFault "Unexpected EOF".toList
  | _, .error e :: _ => xmlParseError e
  | depth, .ok (_, .start _) :: rest => skipToEnd (depth + 1) rest
  -- depth is at least one here: the element to skip is open
  | depth, .ok (_, .close _) :: rest => if depth - 1 = 0 then .ok rest else skipToEnd (depth - 1) rest
  | depth, .ok (_, .empty _) :: rest | depth, .ok (_, .data _) :: rest => skipToEnd depth rest

def skipElement (events : Events) : Outcome Events := skipToEnd 1 events

def collectHeaderChildren (bindings : Scope) :
    Nat → Text → List Text → Events → Outcome (List Text × Events)
  | _, _, _, [] => senderFault "Unexpected EOF in Header".toList
  | _, _, _, .error e :: _ => xmlParseError e
  | depth, buf, children, .ok (_, .start tag) :: rest =>
    if depth = 0 then
      collectHeaderChildren bindings 1 (emitHeaderRoot bindings tag openEnd) children rest
    else do
      let emitted ← emitNested tag openEnd
      collectHeaderChildren bindings (depth + 1) (buf ++ emitted) children rest
  | depth, buf, children, .ok (_, .empty tag) :: rest =>
    if depth = 0 then
      collectHeaderChildren bindings 0 [] (children ++ [emitHeaderRoot bindings tag selfClosingEnd]) rest
    else do
      let emitted ← emitNested tag selfClosingEnd
      collectHeaderChildren bindings depth (buf ++ emitted) children rest
  | depth, buf, children, .ok (_, .close name) :: rest =>
    -- the end tag of `Header` itself
    if depth = 0 then .ok (children, rest)
    else if depth - 1 = 0 then
      collectHeaderChildren bindings 0 [] (children ++ [buf ++ closeTag name]) rest
    else collectHeaderChildren bindings (depth - 1) (buf ++ closeTag name) children rest
  -- between the children nothing is kept
  | depth, buf, children, .ok (_, .data (.text raw)) :: rest =>
    if depth > 0 then collectHeaderChildren bindings depth (buf ++ raw) children rest
    else collectHeaderChildren bindings depth buf children rest
  | depth, buf, children, .ok (_, .data (.generalRef name)) :: rest =>
    if depth > 0 then collectHeaderChildren bindings depth (buf ++ '&' :: (name ++ [';'])) children rest
    else collectHeaderChildren bindings depth buf children rest
  -- every other kind of event is dropped, at every depth
  | depth, buf, children, .ok (_, .data _) :: rest =>
    collectHeaderChildren bindings depth buf children rest

/-- The content of the body element up to its own end tag. -/
def copyBodyChild : Nat → Text → Events → Outcome (Text × Events)
  | _, _, [] => senderFault "Unexpected EOF in Body child".toList
  | _, _, .error e :: _ => xmlParseError e
  | depth, buf, .ok (_, .start tag) :: rest => do
    let emitted ← emitNested tag openEnd
    copyBodyChild (depth + 1) (buf ++ emitted) rest
  | depth, buf, .ok (_, .empty tag) :: rest => do
    let emitted ← emitNested tag selfClosingEnd
    copyBodyChild depth (buf ++ emitted) rest
  | depth, buf, .ok (_, .close name) :: rest =>
    if depth - 1 = 0 then .ok (buf ++ closeTag name, rest)
    else copyBodyChild (depth - 1) (buf ++ closeTag name) rest
  | depth, buf, .ok (_, .data (.text raw)) :: rest => copyBodyChild depth (buf ++ raw) rest
  | depth, buf, .ok (_, .data (.generalRef name)) :: rest =>
    copyBodyChild depth (buf ++ '&' :: (name ++ [';'])) rest
  | depth, buf, .ok (_, .data _) :: rest => copyBodyChild depth buf rest

def extractBodyFirstChild (bindings : Scope) : Events → Outcome (Text × Events)
  | [] => senderFault "Missing Body child element".toList
  | .error e :: _ => xmlParseError e
  | .ok (_, .start tag) :: rest => do
    let root ← emitBodyRoot bindings tag openEnd
    copyBodyChild 1 root rest
  | .ok (_, .empty tag) :: rest => do
    let root ← emitBodyRoot bindings tag selfClosingEnd
    .ok (root, rest)
  -- the end tag of `Body`: it had no element in it
  | .ok (_, .close _) :: _ => senderFault "Missing Body".toList
  | .ok (_, .data _) :: rest => extractBodyFirstChild bindings rest

/-- The loop over the children of the envelope. Each round consumes an event, so as much
fuel as there are events is enough; `found_body` is whether there is a body element. -/
def scanEnvelope (bindings : Scope) :
    Nat → List Text → Option Text → Events → Outcome (List Text × Option Text)
  | 0, _, _, _ => .error .hang
  | _ + 1, headerChildren, bodyElement, [] => .ok (headerChildren, bodyElement)
  | _ + 1, _, _, .error e :: _ => xmlParseError e
  | fuel + 1, headerChildren, bodyElement, .ok (ns, .start tag) :: rest =>
    if isSoapNs ns ∧ localName tag.name = "Header".toList then do
      let (headerChildren, rest) ←
        collectHeaderChildren (collectNsFromAttrs tag bindings) 0 [] [] rest
      scanEnvelope bindings fuel headerChildren bodyElement rest
    else if isSoapNs ns ∧ localName tag.name = "Body".toList then do
      let (body, rest) ← extractBodyFirstChild (collectNsFromAttrs tag bindings) rest
      -- the siblings of the first child, up to the end tag of `Body`
      let rest ← skipToEnd 1 rest
      scanEnvelope bindings fuel headerChildren (some body) rest
    else do
      let rest ← skipElement rest
      scanEnvelope bindings fuel headerChildren bodyElement rest
  -- the end tag of the envelope: what follows it is not read
  | _ + 1, headerChildren, bodyElement, .ok (_, .close _) :: _ => .ok (headerChildren, bodyElement)
  -- an empty tag counts neither as `Header` nor as `Body`
  | fuel + 1, headerChildren, bodyElement, .ok (_, .empty _) :: rest
  | fuel + 1, headerChildren, bodyElement, .ok (_, .data _) :: rest =>
    scanEnvelope bindings fuel headerChildren bodyElement rest

def parseEnvelope (ext : Externals) (input : Text) : Outcome ParsedEnvelope := do
  let (soapVersion, bindings, rest) ← findEnvelope (ext.xml.nsEvents false input)
  let (headerChildren, bodyElement) ← scanEnvelope bindings (rest.length + 1) [] none rest
  match bodyElement with
  | some bodyElement => .ok ⟨soapVersion, headerChildren, bodyElement⟩
  | none => senderFault "Missing Body".toList

end Envelope

end SoapServer
