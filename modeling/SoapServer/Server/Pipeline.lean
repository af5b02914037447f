import SoapServer.Dispatch.Validation
import SoapServer.RootName
import SoapServer.Server.Builder
import SoapServer.Server.Response

/-! The request pipeline of a service, and its runs. -/

set_option autoImplicit false

namespace SoapServer.Server

open Markup (Text)
open Wssec (RotatingNonceCache validateUsernameToken)
open Dispatch Envelope

variable {H : Type}

/-- The header values are those that are visible ASCII. -/
structure Request where
  contentType : Option Text
  soapAction : Option Text
  body : Text

/-- What a call finds around it: the UTC time and the monotonic clock, and how handlers
answer. -/
structure Moment (H : Type) where
  now : Int
  instant : Nat
  respond : H → Text → List Text → Except SoapFault Text

structure Invocation (H : Type) where
  entry : DispatchEntry H
  body : Text
  headerChildren : List Text

/-- What one call did. There is no response when it panicked or did not end. -/
structure Served (H : Type) where
  response : Option Response
  invoked : Option (Invocation H)
  nonceCache : RotatingNonceCache

/-- An abort, with the SOAP version its fault is answered in. -/
abbrev Stage (α : Type) := Except (Abort × SoapVersion) α

def inVersion {α : Type} (version : SoapVersion) : Outcome α → Stage α
  | .ok a => .ok a
  | .error e => .error (e, version)

def trimQuotes (s : Text) : Text :=
  ((s.dropWhile (· = '"')).reverse.dropWhile (· = '"')).reverse

/-- Steps 1 to 4: the envelope and the entry of its operation. -/
def routeRequest (ext : Externals) (table : DispatchTable H) (request : Request) :
    Stage (ParsedEnvelope × DispatchEntry H) := do
  let soapVersion ← inVersion .soap12 (detectSoapVersion (request.contentType.getD []))
  -- the version of the content type, until the envelope says its own
  let envelope ← inVersion soapVersion (parseEnvelope ext request.body)
  let bodyQname ← inVersion envelope.soapVersion (extractBodyQname ext envelope.bodyElement)
  let entry ← inVersion envelope.soapVersion (route table bodyQname (request.soapAction.map trimQuotes))
  .ok (envelope, entry)

/-- Step 5. Without an auth function nothing is required. -/
def authorize (ext : Externals) (svc : SoapService H) (entry : DispatchEntry H)
    (headerChildren : List Text) (nonceCache : RotatingNonceCache) (moment : Moment H) :
    Outcome Unit × RotatingNonceCache :=
  if entry.authRequired ∧ svc.authFn.isSome then
    match findSecurityHeader ext headerChildren with
    | none => (senderFault "WS-Security header required but not provided".toList, nonceCache)
    | some securityBytes =>
      match svc.authFn with
      -- out of reach: the outer test asks for the auth function too
      | none =>
        (senderFault "Authentication required but no credential store configured".toList, nonceCache)
      | some authFn =>
        let (result, nonceCache) := validateUsernameToken ext securityBytes authFn nonceCache
          svc.timestampToleranceSecs moment.now moment.instant
        (result.map fun _ => (), nonceCache)
  else (.ok (), nonceCache)

/-- A call that ends before the handler. -/
def refused (ext : Externals) (nonceCache : RotatingNonceCache) (e : Abort)
    (version : SoapVersion) :
    Served H where
  response :=
    match e with
    | .fault f => some (faultResponse ext f version)
    | .panic | .hang => none
  invoked := none
  nonceCache := nonceCache

/-- Steps 7 and 8. -/
def invokeHandler (ext : Externals) (envelope : ParsedEnvelope) (entry : DispatchEntry H)
    (nonceCache : RotatingNonceCache) (moment : Moment H) : Served H where
  response :=
    match moment.respond entry.handler envelope.bodyElement envelope.headerChildren with
    | .ok bytes =>
      some ⟨200, responseContentType envelope.soapVersion,
        serializeEnvelope bytes envelope.soapVersion⟩
    | .error f => some (faultResponse ext f envelope.soapVersion)
  invoked := some ⟨entry, envelope.bodyElement, envelope.headerChildren⟩
  nonceCache := nonceCache

/-- The pipeline that both POST handlers run, over their own table. -/
def postHandler (ext : Externals) (svc : SoapService H) (table : DispatchTable H)
    (nonceCache : RotatingNonceCache) (request : Request) (moment : Moment H) : Served H :=
  match routeRequest ext table request with
  | .error (e, version) => refused ext nonceCache e version
  | .ok (envelope, entry) =>
    match authorize ext svc entry envelope.headerChildren nonceCache moment with
    -- the cache as the failed check left it
    | (.error e, nonceCache) => refused ext nonceCache e envelope.soapVersion
    | (.ok (), nonceCache) =>
      match validateRequest ext envelope.bodyElement svc.typeRegistry entry.validationType with
      | .error e => refused ext nonceCache e envelope.soapVersion
      | .ok () => invokeHandler ext envelope entry nonceCache moment

def soapPostHandler (ext : Externals) (svc : SoapService H) (nonceCache : RotatingNonceCache)
    (request : Request) (moment : Moment H) : Served H :=
  postHandler ext svc svc.dispatchTable nonceCache request moment

def soapPostHandlerForRoute (ext : Externals) (svc : SoapService H) (table : DispatchTable H)
    (nonceCache : RotatingNonceCache) (request : Request) (moment : Moment H) : Served H :=
  postHandler ext svc table nonceCache request moment

/-! Runs. The nonce cache is the only state, and its lock makes each use of it one step. -/

/-- Which of the two handlers a request reaches. -/
inductive Endpoint where
  | mount
  | path (path : Text)
  deriving DecidableEq, Repr

structure Arrival (H : Type) where
  endpoint : Endpoint
  request : Request
  moment : Moment H

/-- A request for a path without a route reaches no handler. -/
def serve (ext : Externals) (svc : SoapService H) (nonceCache : RotatingNonceCache)
    (arrival : Arrival H) :
    Served H :=
  match arrival.endpoint with
  | .mount => soapPostHandler ext svc nonceCache arrival.request arrival.moment
  | .path path =>
    match svc.serviceTables.lookup path with
    | some table => soapPostHandlerForRoute ext svc table nonceCache arrival.request arrival.moment
    | none => ⟨none, none, nonceCache⟩

/-- The nonce cache after a run of requests. -/
def nonceCacheAfter (ext : Externals) (svc : SoapService H)
    (arrivals : List (Arrival H)) : RotatingNonceCache :=
  arrivals.foldl (fun nonceCache arrival => (serve ext svc nonceCache arrival).nonceCache) svc.nonceCache

end SoapServer.Server
