import SoapServer.Wssec.NonceCache

/-! WS-Security UsernameToken: reading the token from a `Security` header, the password
digest, and validation against a credential store and the nonce cache. -/

set_option autoImplicit false

namespace SoapServer.Wssec

open Markup (Text Event ReadTag Attribute splitOnce stripPrefix byteLength utf8)

def wsseNs : Text :=
  "http://docs.oasis-open.org/wss/2004/01/oasis-200401-wss-wssecurity-secext-1.0.xsd".toList

def wsuNs : Text :=
  "http://docs.oasis-open.org/wss/2004/01/oasis-200401-wss-wssecurity-utility-1.0.xsd".toList

def passwordDigestType : Text :=
  "http://docs.oasis-open.org/wss/2004/01/oasis-200401-wss-username-token-profile-1.0#PasswordDigest".toList

def passwordTextType : Text :=
  "http://docs.oasis-open.org/wss/2004/01/oasis-200401-wss-username-token-profile-1.0#PasswordText".toList

inductive PasswordType where
  | digest
  | text
  deriving DecidableEq, Repr

structure UsernameToken where
  username : Text
  password : Text
  passwordType : PasswordType
  nonce : Option Text
  created : Option Text
  deriving DecidableEq, Repr

/-! The digest. -/

def addBase64Padding (s : Text) : Text :=
  -- counted in bytes, as the length of a Rust string is
  let remainder := byteLength s % 4
  if remainder = 0 then s else s ++ List.replicate (4 - remainder) '='

/-- The nonce bytes that go into the digest. -/
def decodeNonce (ext : Externals) (nonceB64 : Text) : Outcome (List UInt8) :=
  match ext.base64Decode (addBase64Padding nonceB64) with
  | .ok bytes => .ok bytes
  | .error e => senderFault ("Invalid nonce encoding: ".toList ++ e)

def computeDigest (ext : Externals) (nonceB64 created password : Text) : Outcome Text := do
  let nonceBytes ← decodeNonce ext nonceB64
  .ok (ext.base64Encode (ext.sha1 (nonceBytes ++ utf8 created ++ utf8 password)))

/-! Reading the token. -/

/-- The local variables of the reading loop; the latest binding of a prefix is the
first in `nsMap`. -/
structure TokenState where
  username : Option Text
  password : Option Text
  passwordType : PasswordType
  nonce : Option Text
  created : Option Text
  nsMap : List (Text × Text)
  inUsernameToken : Bool
  inUsernameElem : Bool
  inPasswordElem : Bool
  inNonceElem : Bool
  inCreatedElem : Bool
  foundToken : Bool

def TokenState.initial : TokenState :=
  ⟨none, none, .digest, none, none, [], false, false, false, false, false, false⟩

def collectNsAttrs (attributes : List (Option Attribute)) (nsMap : List (Text × Text)) :
    List (Text × Text) :=
  attributes.reduceOption.foldl (fun map attr =>
    match stripPrefix "xmlns:".toList attr.key with
    | some pre => (pre, attr.value) :: map
    | none => if attr.key = "xmlns".toList then ([], attr.value) :: map else map) nsMap

def splitName (name : Text) : Option Text × Text :=
  match splitOnce ':' name with
  | some (pre, l) => (some pre, l)
  | none => (none, name)

def resolveNs (pre : Option Text) (nsMap : List (Text × Text)) : Option Text :=
  -- no prefix: the default namespace
  nsMap.lookup (pre.getD [])

/-- The password type after reading the attributes of `Password`: the last `Type` decides. -/
def readPasswordType (attributes : List (Option Attribute))
    (before : PasswordType) : PasswordType :=
  attributes.reduceOption.foldl (fun passwordType attr =>
    if attr.key = "Type".toList then
      if attr.value = passwordDigestType then .digest
      else if attr.value = passwordTextType then .text
      else .digest
    else passwordType) before

def TokenState.start (tag : ReadTag) (st : TokenState) : TokenState :=
  -- declarations are only ever added: a closing tag takes none of them back
  let st := { st with nsMap := collectNsAttrs tag.attributes st.nsMap }
  let (pre, l) := splitName tag.name
  let ns := resolveNs pre st.nsMap
  if l = "UsernameToken".toList ∧ ns = some wsseNs then
    { st with inUsernameToken := true, foundToken := true }
  else if l = "Username".toList ∧ ns = some wsseNs ∧ st.inUsernameToken then
    { st with inUsernameElem := true }
  else if l = "Password".toList ∧ ns = some wsseNs ∧ st.inUsernameToken then
    { st with inPasswordElem := true, passwordType := readPasswordType tag.attributes st.passwordType }
  else if l = "Nonce".toList ∧ ns = some wsseNs ∧ st.inUsernameToken then
    { st with inNonceElem := true }
  else if l = "Created".toList ∧ ns = some wsuNs ∧ st.inUsernameToken then
    { st with inCreatedElem := true }
  else st

def TokenState.empty (tag : ReadTag) (st : TokenState) : TokenState :=
  let st := { st with nsMap := collectNsAttrs tag.attributes st.nsMap }
  let (pre, l) := splitName tag.name
  if l = "UsernameToken".toList ∧ resolveNs pre st.nsMap = some wsseNs then
    -- an empty token is found, and then has no user name
    { st with foundToken := true }
  else st

def TokenState.text (raw : Text) (st : TokenState) : TokenState :=
  if st.inUsernameElem then { st with username := some raw, inUsernameElem := false }
  else if st.inPasswordElem then { st with password := some raw, inPasswordElem := false }
  else if st.inNonceElem then { st with nonce := some raw, inNonceElem := false }
  else if st.inCreatedElem then { st with created := some raw, inCreatedElem := false }
  else st

/-- A closing tag is matched by its local name alone. -/
def TokenState.close (name : Text) (st : TokenState) : TokenState :=
  let (_, l) := splitName name
  if l = "UsernameToken".toList then { st with inUsernameToken := false }
  else if l = "Username".toList then { st with inUsernameElem := false }
  else if l = "Password".toList then { st with inPasswordElem := false }
  else if l = "Nonce".toList then { st with inNonceElem := false }
  else if l = "Created".toList then { st with inCreatedElem := false }
  else st

def TokenState.step (st : TokenState) : Event → TokenState
  | .start tag => st.start tag
  | .empty tag => st.empty tag
  | .data (.text raw) => st.text raw
  | .close name => st.close name
  | .data _ => st

def readToken : TokenState → List (Except Text Event) → Outcome TokenState
  | st, [] => .ok st
  | st, .ok event :: rest => readToken (st.step event) rest
  | _, .error e :: _ => senderFault ("WS-Security XML parse error: ".toList ++ e)

/-- `ok_or_else` with a sender fault. -/
def okOr {α : Type} (reason : Text) : Option α → Outcome α
  | some a => .ok a
  | none => senderFault reason

def TokenState.finish (st : TokenState) : Outcome UsernameToken := do
  if st.foundToken then
    let username ← okOr "Missing Username in UsernameToken".toList st.username
    let password ← okOr "Missing Password in UsernameToken".toList st.password
    .ok ⟨username, password, st.passwordType, st.nonce, st.created⟩
  else
    senderFault "Missing UsernameToken".toList

def parseUsernameToken (ext : Externals) (xmlBytes : Text) : Outcome UsernameToken := do
  let st ← readToken .initial (ext.xml.events true xmlBytes)
  st.finish

/-! Validation. -/

def authenticationFailed : Text := "Authentication failed".toList

/-- The check of the password and of `Created`, in the order of the token's kind. -/
def verifyPassword (ext : Externals) (token : UsernameToken) (storedPassword : Text)
    (toleranceSecs now : Int) : Outcome Unit :=
  match token.passwordType with
  | .digest => do
    let nonce ← okOr "Missing Nonce for PasswordDigest".toList token.nonce
    let created ← okOr "Missing Created for PasswordDigest".toList token.created
    let expected ← computeDigest ext nonce created storedPassword
    -- the digest is compared before the age of the token is looked at
    if expected ≠ token.password then
      senderFault authenticationFailed
    else
      let createdDt ← parseCreated ext created
      checkFreshness now createdDt toleranceSecs
  | .text => do
    let createdStr ← okOr "Missing Created for PasswordText".toList token.created
    let createdDt ← parseCreated ext createdStr
    -- and here after it
    checkFreshness now createdDt toleranceSecs
    if token.password ≠ storedPassword then senderFault authenticationFailed else .ok ()

/-- Everything before the replay check: a function of the header, the credentials and
the time. -/
def authenticate (ext : Externals) (securityBytes : Text) (getPassword : Text → Option Text)
    (toleranceSecs now : Int) : Outcome UsernameToken := do
  let token ← parseUsernameToken ext securityBytes
  let storedPassword ← okOr authenticationFailed (getPassword token.username)
  verifyPassword ext token storedPassword toleranceSecs now
  .ok token

/-- The replay check: a token without a nonce passes. -/
def checkNonce (instant : Nat) (nonce : Option Text) (nonceCache : RotatingNonceCache) :
    Outcome Unit × RotatingNonceCache :=
  match nonce with
  | some nonce => nonceCache.checkAndInsert instant nonce
  | none => (.ok (), nonceCache)

/-- `now` is the UTC time, `instant` the same moment on the clock of the cache. -/
def validateUsernameToken (ext : Externals) (securityBytes : Text)
    (getPassword : Text → Option Text) (nonceCache : RotatingNonceCache) (toleranceSecs now : Int)
    (instant : Nat) :
    Outcome Text × RotatingNonceCache :=
  match authenticate ext securityBytes getPassword toleranceSecs now with
  | .error e => (.error e, nonceCache)
  | .ok token =>
    let (result, nonceCache) := checkNonce instant token.nonce nonceCache
    (result.map fun _ => token.username, nonceCache)

end SoapServer.Wssec
