import SoapServer.Crossref.BodyChild
import SoapServer.Crossref.Dropping
import SoapServer.Crossref.Snapshots

/-! The scenarios of the conformance harness.

A request is sent to the server and to a reference, an oracle validates and canonicalizes the answers,
and a verdict follows. What the servers, the oracle and the disk reply is open, and may depend on all
that was asked of them before.
-/

set_option autoImplicit false

namespace SoapServer.Crossref

open Markup hiding localName

/-! What a scenario declares. -/

inductive Outcome where
  | success
  | fault
  deriving DecidableEq, Repr

inductive DetailPolicy where
  | absent
  | present
  | rawXmlChild
  deriving DecidableEq, Repr

structure FaultExpectation where
  code : Text
  detailPolicy : DetailPolicy
  deriving DecidableEq, Repr

structure Scenario where
  contentType : Text
  soapVersion : SoapVersion
  expectedStatus : Nat
  outcome : Outcome
  requestFile : Text
  fault : Option FaultExpectation
  deriving DecidableEq, Repr

structure Endpoints where
  our : Text
  cxf : Text

/-- The base of a server whose address ends in the default path. -/
def baseUrl (url : Text) : Text := if "/soap".toList <:+ url then url.take (url.length - 5) else url

def Endpoints.ourBase (endpoints : Endpoints) : Text := baseUrl endpoints.our

def Endpoints.cxfBase (endpoints : Endpoints) : Text := baseUrl endpoints.cxf

structure VersionRouting where
  ourPath : Text
  cxfUrl : Text
  envelopeSchema : Text

def VersionRouting.forScenario (scenario : Scenario) (endpoints : Endpoints) : VersionRouting :=
  match scenario.soapVersion with
  | .soap11 => ⟨"/soap".toList, endpoints.cxfBase ++ "/soap11".toList, "soap11-envelope".toList⟩
  | .soap12 => ⟨"/soap".toList, endpoints.cxfBase ++ "/soap".toList, "soap12-envelope".toList⟩

def VersionRouting.ourUrl (routing : VersionRouting) (endpoints : Endpoints) : Text :=
  endpoints.ourBase ++ routing.ourPath

/-! Verdicts. -/

structure Eval where
  sut : Except Text Text
  reference : Except Text Text
  knownDivergences : List Text

def diffReason (sut reference : Text) : Text := "sut=".toList ++ sut ++ " ref=".toList ++ reference

def evaluate (eval : Eval) : Verdict :=
  match eval.sut, eval.reference with
  | .error msg, _ => .sutFail msg
  | .ok _, .error msg => .referenceDisagreement msg
  | .ok sut, .ok reference =>
    if sut = reference then .pass
    else
      let listed := eval.knownDivergences.find? fun known =>
        known = diffReason sut reference ∨ known <:+: sut ∨ known <:+: reference ∨
          known <:+: diffReason sut reference
      match listed with
      | some known => .knownDivergence known
      | none => .sutFail ("outputs differ: ".toList ++ diffReason sut reference)

structure Resp where
  schemaValid : Bool
  isSuccess : Bool
  maskedBodyCanon : Text

def outcomeWord (success : Bool) : Text := if success then "success".toList else "fault".toList

def evaluateOutcomeEquivalence (declaredSuccess : Bool) (our cxf : Resp) : Verdict :=
  if !our.schemaValid then .sutFail "our response schema-invalid".toList
  else if our.isSuccess ≠ declaredSuccess then
    .sutFail ("our server outcome (".toList ++ outcomeWord our.isSuccess ++
      ") does not match the scenario's declared outcome (".toList ++ outcomeWord declaredSuccess ++
        ")".toList)
  else if !cxf.schemaValid then .referenceDisagreement "CXF response schema-invalid".toList
  else if cxf.isSuccess ≠ declaredSuccess then
    .referenceDisagreement ("CXF outcome (".toList ++ outcomeWord cxf.isSuccess ++
      ") differs from the declared/SUT outcome (".toList ++ outcomeWord declaredSuccess ++
        ") — needs triage".toList)
  else if declaredSuccess then
    if our.maskedBodyCanon = cxf.maskedBodyCanon then .pass
    else .sutFail ("both succeeded but body differs: our=".toList ++ our.maskedBodyCanon ++
      " cxf=".toList ++ cxf.maskedBodyCanon)
  else .pass

def Verdict.accepted : Verdict → Bool
  | .pass | .knownDivergence _ => true
  | .sutFail _ | .referenceDisagreement _ | .harnessError _ => false

/-! What is compared. -/

/-- The two sides as messages name them. -/
structure Side where
  short : Text
  response : Text

def ours : Side := ⟨"our".toList, "our response".toList⟩

def cxfs : Side := ⟨"cxf".toList, "CXF response".toList⟩

/-- The reason of a fault and its language are not compared. -/
def reasonMasks (scenario : Scenario) : List MaskRule × List AttrMaskRule :=
  if scenario.outcome = .fault then
    match scenario.soapVersion with
    | .soap12 => ([.new "Envelope/Body/Fault/Reason/Text".toList],
        [.new "Envelope/Body/Fault/Reason/Text".toList "xml:lang".toList])
    | .soap11 => ([.new "Envelope/Body/Fault/faultstring".toList],
        [.new "Envelope/Body/Fault/faultstring".toList "xml:lang".toList])
  else ([], [])

def statusMismatch (status expected : Nat) : Verdict :=
  .sutFail ("our HTTP status ".toList ++ Nat.toDigits 10 status ++
    " != declared expected_status ".toList ++
    Nat.toDigits 10 expected)

def wssecPath (name : Text) : Text :=
  if name = "wssec_stale_timestamp".toList then "/soapsec-strict".toList else "/soapsec".toList

/-! The addresses in a WSDL. -/

/-- What the search has met: the service it is in, and the addresses with their services. -/
structure AddressSearch where
  currentService : Option Text
  inService : Bool
  addresses : List (Text × Text)

def AddressSearch.tag (s : AddressSearch) (tag : ReadTag) : AddressSearch :=
  let attributes := tag.attributes.reduceOption
  if localName tag = "service".toList then
    { s with
      currentService := attributes.foldl (fun found a => if a.key = "name".toList then some a.value
        else found) s.currentService
      inService := true }
  else if localName tag = "address".toList ∧ s.inService then
    match s.currentService with
    | some svc =>
      let locations := attributes.filter fun a => a.key = "location".toList
      { s with addresses := s.addresses ++ locations.map fun a => (svc, a.value) }
    | none => s
  else s

def collectAddresses : AddressSearch → List (Except Text Event) → Except Text (List (Text × Text))
  | s, [] => .ok s.addresses
  | _, .error e :: _ => .error e
  | s, .ok (.start tag) :: rest | s, .ok (.empty tag) :: rest => collectAddresses (s.tag tag) rest
  | s, .ok (.close name) :: rest =>
    collectAddresses (if localNameStr name = "service".toList
      then { s with inService := false, currentService := none } else s) rest
  | s, .ok (.data _) :: rest => collectAddresses s rest

def extractSoapAddresses (reader : Reader) (wsdl : Text) : Except Text (List (Text × Text)) :=
  collectAddresses ⟨none, false, []⟩ (reader.events false wsdl)

/-- A text without the pattern at its start, however often it stands there. -/
def trimStartMatches (pattern : Text) : Nat → Text → Text
  | 0, s => s
  | n + 1, s => if pattern ≠ [] ∧ pattern <+: s
      then trimStartMatches pattern n (s.drop pattern.length) else s

def hostOf (url : Text) : Text :=
  let stripped := trimStartMatches "http://".toList url.length url
  (trimStartMatches "https://".toList stripped.length stripped).takeWhile (· ≠ '/')

def wrongHost (svc location expected : Text) : Text :=
  "service '".toList ++ svc ++ "' address '".toList ++ location ++ "' host is '".toList ++
    hostOf location ++
    "', expected '".toList ++ expected ++ "' (rewrite invariant failed)".toList

def checkSingleRewriteInvariant (reader : Reader) (wsdl ourBase : Text) : Except Text Unit := do
  let addresses ← extractSoapAddresses reader wsdl
  if addresses = [] then .error "no <soap:address> elements found in WSDL".toList
  else
    match addresses.find? fun address => hostOf address.2 ≠ hostOf ourBase with
    | some address => .error (wrongHost address.1 address.2 (hostOf ourBase))
    | none => .ok ()

/-- The name of a service says which of the two it is; other letters than those of ASCII do not matter. -/
def namesService (letter : Char)
    (word svc : Text) : Bool := letter ∈ svc ∨ word <:+: svc.map Char.toLower

/-- One address, after the services that were found before it. -/
def checkAddress (expectedHost : Text) (found : Bool × Bool) (address : Text × Text) :
    Except Text (Bool × Bool) :=
  if namesService 'A' "servicea".toList address.1 then
    if hostOf address.2 ≠ expectedHost then
      .error ("ServiceA address '".toList ++ address.2 ++ "' host is '".toList ++ hostOf address.2 ++
        "', expected '".toList ++
        expectedHost ++ "' (ServiceA rewrite invariant failed)".toList)
    else if ¬ "/soap/a".toList <:+: address.2 then
      .error ("ServiceA address '".toList ++ address.2 ++
        "' does not contain '/soap/a' (expected rewritten path)".toList)
    else .ok (true, found.2)
  else if namesService 'B' "serviceb".toList address.1 then
    if ¬ "/soap/b".toList <:+: address.2 then
      .error ("ServiceB address '".toList ++ address.2 ++
        "' does not contain '/soap/b' (non-matched service address was clobbered — BLOCK-OS-C08-class finding)".toList)
    else .ok (found.1, true)
  else .ok found

def checkMultiRewriteInvariant (debug : List (Text × Text) → Text) (reader : Reader)
    (wsdl ourBase : Text) :
    Except Text Unit := do
  let addresses ← extractSoapAddresses reader wsdl
  let found ← addresses.foldlM (checkAddress (hostOf ourBase)) (false, false)
  if !found.1 then .error ("ServiceA not found in WSDL addresses: ".toList ++ debug addresses)
  else if !found.2 then .error ("ServiceB not found in WSDL addresses: ".toList ++ debug addresses)
  else .ok ()

/-! What the harness meets. -/

structure ValidationResult where
  valid : Bool
  errors : List Text

structure InteropClient where
  service : Text
  scenario : Text

/-- A client container that has ended. -/
structure ClientOutput where
  exitCode : Int
  stdout : Text
  stderr : Text

/-- The servers, the oracle, the client containers, the files and the disk, and how values are shown in
messages. -/
structure Peers (σ : Type) where
  post : Text → Text → Text → Traced σ Text (Nat × Text)
  get : Text → Traced σ Text (Nat × Text)
  c14n : Text → Traced σ Text Text
  validate : Text → Text → Traced σ Text ValidationResult
  readToString : Text → Traced σ Text Text
  read : Text → Traced σ Text Text
  runClient : Text → Traced σ Text ClientOutput
  parseScenario : Text → Except Text Scenario
  reader : Reader
  rawReader : RawReader
  disk : Disk σ
  failureText : Failure → Text
  debugErrors : List Text → Text
  debugAddresses : List (Text × Text) → Text

variable {σ α : Type}

/-- The harness ends a scenario when something it needs fails. -/
def needed (what : Text) (x : Traced σ Text α) : Traced σ Verdict α :=
  x.mapError fun e => .harnessError (what ++ e)

def fail (verdict : Verdict) : Traced σ Verdict α := Traced.ofExcept (.error verdict)

namespace Peers

variable (peers : Peers σ)

def loadScenario (name : Text) : Traced σ Verdict Scenario := do
  let toml ← needed ("read ".toList ++ name ++ ".toml: ".toList)
    (peers.readToString (name ++ ".toml".toList))
  needed ("parse ".toList ++ name ++ ".toml: ".toList) (Traced.ofExcept (peers.parseScenario toml))

/-! Scenarios that are compared byte by byte. -/

/-- Only the body of a success is validated by itself. -/
def validateBodyChild (side : Side) (scenario : Scenario) (body : Text) :
    Traced σ Verdict ValidationResult :=
  if scenario.outcome = .success then
    match extractBodyChild peers.reader body with
    | some child =>
      needed ("oracle validate ".toList ++ side.short ++ " body child: ".toList)
        (peers.validate child "controlled".toList)
    | none => pure ⟨false, ["no body child element found in ".toList ++ side.response]⟩
  else pure ⟨true, []⟩

def mask (side : Side) (scenario : Scenario) (body : Text) : Traced σ Verdict Text :=
  needed ("mask_only ".toList ++ side.short ++ ": ".toList) (Traced.ofExcept
    ((maskOnly peers.rawReader body (reasonMasks scenario).1 (reasonMasks scenario).2).mapError
      peers.failureText))

/-- Why the fault is not the expected one, if it is not. -/
def assertFault (name : Text) (scenario : Scenario) (body : Text) : Option Verdict :=
  if scenario.outcome = .fault then
    match scenario.fault with
    | some expect =>
      (enforceFaultCode peers.reader body expect.code name (scenario.soapVersion = .soap11)).or
        (match expect.detailPolicy with
        | .rawXmlChild => enforceRawXmlChildDetail peers.reader body name
        | .absent | .present => none)
    | none => none
  else none

/-- A side that is not valid has its errors in place of its text. -/
def side (response : Text) (envelope child : ValidationResult) (canon : Text) : Except Text Text :=
  if envelope.valid && child.valid then .ok canon
  else .error (response ++ " schema-invalid: ".toList ++
    peers.debugErrors (envelope.errors ++ child.errors))

/-- The verdict about a scenario and the evidence for it. -/
def judgeScenario (endpoints : Endpoints) (name : Text) : Traced σ Verdict (Verdict × Text) := do
  let scenario ← peers.loadScenario name
  let routing := VersionRouting.forScenario scenario endpoints
  let request ← needed ("read request ".toList ++ scenario.requestFile ++ ": ".toList)
    (peers.read scenario.requestFile)
  let our ← needed "POST our server: ".toList
    (peers.post (routing.ourUrl endpoints) request scenario.contentType)
  let cxf ← needed "POST CXF: ".toList (peers.post routing.cxfUrl request scenario.contentType)
  let ourEnvelope ← needed "oracle validate our envelope: ".toList
    (peers.validate our.2 routing.envelopeSchema)
  let cxfEnvelope ← needed "oracle validate cxf envelope: ".toList
    (peers.validate cxf.2 routing.envelopeSchema)
  let ourChild ← peers.validateBodyChild ours scenario our.2
  let cxfChild ← peers.validateBodyChild cxfs scenario cxf.2
  let ourMasked ← peers.mask ours scenario our.2
  let cxfMasked ← peers.mask cxfs scenario cxf.2
  let ourCanon ← needed "oracle c14n our: ".toList (peers.c14n ourMasked)
  let cxfCanon ← needed "oracle c14n cxf: ".toList (peers.c14n cxfMasked)
  if our.1 ≠ scenario.expectedStatus then fail (statusMismatch our.1 scenario.expectedStatus)
  else
    match peers.assertFault name scenario our.2 with
    | some verdict => fail verdict
    | none => pure (evaluate ⟨peers.side "our response".toList ourEnvelope ourChild ourCanon,
        peers.side "reference".toList cxfEnvelope cxfChild cxfCanon, []⟩, ourCanon)

/-! Scenarios of WS-Security, which are compared by their outcome. -/

/-- A valid response without its headers and the reason of its fault, as the oracle writes it. -/
def canonBody (side : Side) (valid : Bool) (body : Text) : Traced σ Verdict Text :=
  if valid then
    needed ("mask_only_with_drops ".toList ++ side.short ++ ": ".toList) (Traced.ofExcept
      ((maskOnlyWithDrops peers.rawReader body [.new "Envelope/Body/Fault/Reason/Text".toList]
        [.new "Envelope/Body/Fault/Reason/Text".toList "xml:lang".toList]
          [.new "Envelope/Header".toList]).mapError
          peers.failureText))
  else pure []

def canonOf (side : Side) (valid : Bool) (masked : Text) : Traced σ Verdict Text :=
  if valid ∧ masked ≠ [] then needed ("oracle c14n ".toList ++ side.short ++ ": ".toList)
    (peers.c14n masked)
  else pure []

def judgeWssecScenario (endpoints : Endpoints)
    (name : Text) : Traced σ Verdict (Verdict × Text) := do
  let scenario ← peers.loadScenario name
  let ourUrl := endpoints.ourBase ++ wssecPath name
  let cxfUrl := endpoints.cxfBase ++ wssecPath name
  let request ← needed ("read request ".toList ++ scenario.requestFile ++ ": ".toList)
    (peers.read scenario.requestFile)
  let our ← needed ("POST our server (".toList ++ ourUrl ++ "): ".toList)
    (peers.post ourUrl request scenario.contentType)
  let cxf ← needed ("POST CXF (".toList ++ cxfUrl ++ "): ".toList)
    (peers.post cxfUrl request scenario.contentType)
  let ourEnvelope ← needed "oracle validate our envelope: ".toList
    (peers.validate our.2 "soap12-envelope".toList)
  let cxfEnvelope ← needed "oracle validate cxf envelope: ".toList
    (peers.validate cxf.2 "soap12-envelope".toList)
  let ourMasked ← peers.canonBody ours ourEnvelope.valid our.2
  let cxfMasked ← peers.canonBody cxfs cxfEnvelope.valid cxf.2
  let ourCanon ← peers.canonOf ours ourEnvelope.valid ourMasked
  let cxfCanon ← peers.canonOf cxfs cxfEnvelope.valid cxfMasked
  if our.1 ≠ scenario.expectedStatus then fail (statusMismatch our.1 scenario.expectedStatus)
  else pure (evaluateOutcomeEquivalence (scenario.outcome = .success)
    ⟨ourEnvelope.valid, our.1 = 200, ourCanon⟩
    ⟨cxfEnvelope.valid, cxf.1 = 200, cxfCanon⟩, ourCanon)

/-! Scenarios of WSDL documents. There is no reference for these: what is asserted is that the addresses
are rewritten. -/

def checkRewrite (multi : Bool) (wsdl ourBase : Text) : Except Text Unit :=
  if multi then checkMultiRewriteInvariant peers.debugAddresses peers.reader wsdl ourBase
  else checkSingleRewriteInvariant peers.reader wsdl ourBase

def getBytes (url : Text) : Traced σ Text Text := do
  let response ← peers.get url
  if response.1 = 200 then pure response.2
  else Traced.ofExcept (.error ("GET ".toList ++ url ++ " returned HTTP ".toList ++
    Nat.toDigits 10 response.1 ++ ": ".toList ++
    response.2))

def judgeRewrite (endpoints : Endpoints) (multi : Bool) : Traced σ Verdict (Verdict × Text) := do
  let url := endpoints.ourBase ++ (if multi then "/soap/a".toList else "/soap".toList) ++ "?wsdl".toList
  let wsdl ← needed ("GET ".toList ++ url ++ ": ".toList) (peers.getBytes url)
  let validation ← needed "oracle validate wsdl11: ".toList (peers.validate wsdl "wsdl11".toList)
  if !validation.valid then
    fail (.sutFail ("WSDL schema-invalid against wsdl11: ".toList ++ peers.debugErrors validation.errors))
  else
    match peers.checkRewrite multi wsdl endpoints.ourBase with
    | .error msg => fail (.sutFail ("rewrite invariant failed: ".toList ++ msg))
    | .ok () => pure (.pass, wsdl)

def judgeWsdlRewriteScenario (endpoints : Endpoints)
    (name : Text) : Traced σ Verdict (Verdict × Text) :=
  if name = "wsdl_rewrite_single".toList then peers.judgeRewrite endpoints false
  else if name = "wsdl_rewrite_multi".toList then peers.judgeRewrite endpoints true
  else fail (.harnessError ("unknown wsdl_rewrite scenario: ".toList ++ name))

/-! Clients of others, which call the server by themselves. -/

/-- Output that looks like a document is canonicalized, if the oracle can. -/
def clientEvidence (stdout : Text) : Traced σ Verdict Text := fun s =>
  if (trimUnicode stdout).head? = some '<' then
    match peers.c14n (trimUnicode stdout) s with
    | (.ok canon, s) => (.ok canon, s)
    | (.error _, s) => (.ok (trimUnicode stdout), s)
  else (.ok (trimUnicode stdout), s)

def judgeClient (client : InteropClient) : Traced σ Verdict (Verdict × Text) := do
  let output ← needed ("failed to spawn docker compose run for ".toList ++ client.service ++ ": ".toList)
    (peers.runClient client.service)
  if output.exitCode = 125 ∨ output.exitCode = 126 ∨ output.exitCode = 127 then
    fail (.harnessError ("docker compose run infrastructure failure (exit ".toList ++
      Nat.toDigits 10 output.exitCode.toNat ++
      ") for ".toList ++ client.service ++ ": stderr=".toList ++ output.stderr))
  else if output.exitCode ≠ 0 then
    fail (.sutFail ("interop client '".toList ++ client.service ++ "' (scenario '".toList ++
      client.scenario ++
      "') exited ".toList ++ (toString output.exitCode).toList ++
      " — could not complete operations against our server (REAL INTEROP FINDING).\nstdout: ".toList ++
        output.stdout ++
      "\nstderr: ".toList ++ output.stderr))
  else do
    let evidence ← peers.clientEvidence output.stdout
    pure (.pass, evidence)

end Peers

end SoapServer.Crossref
