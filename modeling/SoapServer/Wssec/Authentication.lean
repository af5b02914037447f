import SoapServer.Wssec.TokenHeader
import SoapServer.Library.Loops

/-! What validation establishes: an accepted token proves the stored password, is
fresh, and its nonce was in no bucket.

The published digest vector follows, as an input on which the libraries are known.
-/

set_option autoImplicit false

namespace SoapServer.Wssec

open Markup (Text)
open Loops (bind_eq_ok)

variable {ext : Externals}

/-- What a token shows about a password. -/
def UsernameToken.Proves (ext : Externals) (token : UsernameToken) (password : Text) : Prop :=
  match token.passwordType with
  | .digest => ∃ nonce created, token.nonce = some nonce ∧ token.created = some created ∧
      computeDigest ext nonce created password = .ok token.password
  | .text => token.password = password

def UsernameToken.Fresh (ext : Externals) (toleranceSecs now : Int)
    (token : UsernameToken) : Prop :=
  ∃ created createdDt, token.created = some created ∧ ext.parseRfc3339 created = some createdDt ∧
    checkFreshness now createdDt toleranceSecs = .ok ()

/-! Single steps. -/

@[simp] theorem okOr_some {α : Type} (reason : Text) (a : α) : okOr reason (some a) = .ok a := rfl

@[simp] theorem okOr_none {α : Type} (reason : Text) :
    okOr reason (none : Option α) = senderFault reason := rfl

theorem okOr_eq_ok {α : Type} {reason : Text} {o : Option α} {a : α} :
    okOr reason o = .ok a ↔ o = some a := by
  cases o <;> simp [okOr, senderFault]

theorem parseCreated_eq_ok {s : Text} {created : Int} :
    parseCreated ext s = .ok created ↔ ext.parseRfc3339 s = some created := by
  unfold parseCreated
  split <;> simp_all [senderFault]

/-- A password check succeeds exactly on a fresh token that proves the password. -/
theorem verifyPassword_ok_iff (token : UsernameToken) (password : Text) (toleranceSecs now : Int) :
    verifyPassword ext token password toleranceSecs now = .ok () ↔
      token.Proves ext password ∧ token.Fresh ext toleranceSecs now := by
  unfold verifyPassword UsernameToken.Proves UsernameToken.Fresh
  cases token.passwordType with
  | digest =>
    simp only [bind_eq_ok, okOr_eq_ok]
    constructor
    · rintro ⟨nonce, hasNonce, created, hasCreated, expected, digest, rest⟩
      -- another digest ends the check before the age is looked at
      by_cases same : expected = token.password
      · subst same
        rw [if_neg (by simp), bind_eq_ok] at rest
        obtain ⟨createdDt, parsed, fresh⟩ := rest
        exact ⟨⟨nonce, created, hasNonce, hasCreated, digest⟩, created, createdDt, hasCreated,
          parseCreated_eq_ok.mp parsed, fresh⟩
      · rw [if_pos same] at rest
        cases rest
    · rintro ⟨⟨nonce, created, hasNonce, hasCreated, digest⟩, created', createdDt, hasCreated', parsed, fresh⟩
      obtain rfl : created = created' := Option.some.inj (hasCreated.symm.trans hasCreated')
      refine ⟨nonce, hasNonce, created, hasCreated, token.password, digest, ?_⟩
      rw [if_neg (by simp), bind_eq_ok]
      exact ⟨createdDt, parseCreated_eq_ok.mpr parsed, fresh⟩
  | text =>
    simp only [bind_eq_ok, okOr_eq_ok]
    constructor
    · rintro ⟨created, hasCreated, createdDt, parsed, ⟨⟩, fresh, rest⟩
      by_cases same : token.password = password
      · exact ⟨same, created, createdDt, hasCreated, parseCreated_eq_ok.mp parsed, fresh⟩
      · rw [if_pos same] at rest
        cases rest
    · rintro ⟨same, created, createdDt, hasCreated, parsed, fresh⟩
      refine ⟨created, hasCreated, createdDt, parseCreated_eq_ok.mpr parsed, (), fresh, ?_⟩
      rw [if_neg (by simp [same])]

theorem authenticate_ok_iff {securityBytes : Text} {getPassword : Text → Option Text}
    {toleranceSecs now : Int} {token : UsernameToken} :
    authenticate ext securityBytes getPassword toleranceSecs now = .ok token ↔
      parseUsernameToken ext securityBytes = .ok token ∧
        ∃ password, getPassword token.username = some password ∧ token.Proves ext password ∧
          token.Fresh ext toleranceSecs now := by
  simp only [authenticate, bind_eq_ok, okOr_eq_ok, ← verifyPassword_ok_iff]
  constructor
  · rintro ⟨token', parsed, password, known, ⟨⟩, verified, same⟩
    cases same
    exact ⟨parsed, password, known, verified⟩
  · rintro ⟨parsed, password, known, verified⟩
    exact ⟨token, parsed, password, known, (), verified, rfl⟩

theorem checkNonce_ok_iff {instant : Nat} {nonce : Option Text} {cache : RotatingNonceCache} :
    (checkNonce instant nonce cache).1 = .ok () ↔
      ∀ n, nonce = some n → 0 < cache.halfWindowSecs ∧ ¬ (cache.rotated instant).contains n := by
  cases nonce with
  | none => simp [checkNonce]
  | some n => simp [checkNonce, cache.checkAndInsert_ok_iff]

variable {securityBytes : Text} {getPassword : Text → Option Text} {cache : RotatingNonceCache}
  {toleranceSecs now : Int} {instant : Nat}

theorem validateUsernameToken_of_ok {token : UsernameToken}
    (authenticated : authenticate ext securityBytes getPassword toleranceSecs now = .ok token) :
    validateUsernameToken ext securityBytes getPassword cache toleranceSecs now instant =
      ((checkNonce instant token.nonce cache).1.map fun _ => token.username,
        (checkNonce instant token.nonce cache).2) := by
  rw [validateUsernameToken, authenticated]

theorem validateUsernameToken_of_error {e : Abort}
    (rejected : authenticate ext securityBytes getPassword toleranceSecs now = .error e) :
    validateUsernameToken ext securityBytes getPassword cache toleranceSecs now instant =
      (.error e, cache) := by
  rw [validateUsernameToken, rejected]

/-- Acceptance: the token authenticates and its nonce, if any, is in neither bucket. -/
theorem validateUsernameToken_ok_iff {user : Text} :
    (validateUsernameToken ext securityBytes getPassword cache toleranceSecs now instant).1 = .ok user ↔
      ∃ token, authenticate ext securityBytes getPassword toleranceSecs now = .ok token ∧
        token.username = user ∧ ∀ nonce, token.nonce = some nonce →
          0 < cache.halfWindowSecs ∧ ¬ (cache.rotated instant).contains nonce := by
  simp only [← checkNonce_ok_iff]
  cases authenticated : authenticate ext securityBytes getPassword toleranceSecs now with
  | error e => simp [validateUsernameToken_of_error authenticated]
  | ok token =>
    rw [validateUsernameToken_of_ok authenticated]
    cases checked : (checkNonce instant token.nonce cache).1 with
    | error e => simp [Except.map, checked]
    | ok u => simp [Except.map, checked]

/-- A digest token that proves the stored password is then judged by its age alone. -/
theorem authenticate_of_proves {token : UsernameToken} {password created : Text} {createdDt : Int}
    (read : parseUsernameToken ext securityBytes = .ok token)
    (digest : token.passwordType = .digest) (known : getPassword token.username = some password)
    (proves : token.Proves ext password) (hasCreated : token.created = some created)
    (parsed : ext.parseRfc3339 created = some createdDt) :
    authenticate ext securityBytes getPassword toleranceSecs now =
      (checkFreshness now createdDt toleranceSecs).map fun _ => token := by
  unfold UsernameToken.Proves at proves
  simp only [digest] at proves
  obtain ⟨nonce, created', hasNonce, hasCreated', computed⟩ := proves
  obtain rfl : created = created' := Option.some.inj (hasCreated.symm.trans hasCreated')
  simp only [authenticate, verifyPassword, read, known, digest, hasNonce, hasCreated, computed,
    parseCreated, parsed, okOr_some, bind_ok, ne_eq, not_true_eq_false, if_false]
  cases checkFreshness now createdDt toleranceSecs <;> rfl

/-! The published digest vector, and the libraries at the inputs it needs. -/

def vectorNonce : Text := "AAECAwQFBgcICQoLDA0ODw==".toList

def vectorNonceBytes : List UInt8 := [0, 1, 2, 3, 4, 5, 6, 7, 8, 9, 10, 11, 12, 13, 14, 15]

def vectorCreated : Text := "2010-09-09T14:18:30.000Z".toList

def vectorCreatedDt : Int := 1284041910 * nanosPerSec

def vectorPassword : Text := "userpassword".toList

def vectorDigest : Text := "QPgtSBfcw764Vty2h0+LsasXgxo=".toList

def vector : Externals where
  xml := Markup.scanner
  escape := Externals.scanning.escape
  sha1 _ := [0x40, 0xf8, 0x2d, 0x48, 0x17, 0xdc, 0xc3, 0xbe, 0xb8, 0x56, 0xdc, 0xb6, 0x87, 0x4f,
    0x8b, 0xb1, 0xab, 0x17, 0x83, 0x1a]
  base64Decode s :=
    if s = vectorNonce then .ok vectorNonceBytes
    else .error "Invalid padding".toList
  base64Encode _ := vectorDigest
  parseRfc3339 s := if s = vectorCreated then some vectorCreatedDt else none

/-- A store with the one user `admin`. -/
def adminOnly (user : Text) : Option Text :=
  if user = "admin".toList then some vectorPassword else none

/-- The token of the vector with its nonce spelled as given. -/
def digestToken (nonce : Text) : UsernameToken :=
  ⟨"admin".toList, vectorDigest, .digest, some nonce, some vectorCreated⟩

theorem admin_plain : Plain "admin".toList := by decide

theorem vectorNonce_plain : Plain vectorNonce := by decide +kernel

theorem vectorDigest_plain : Plain vectorDigest := by decide +kernel

theorem vectorCreated_plain : Plain vectorCreated := by decide +kernel

theorem vectorCreated_parsed : vector.parseRfc3339 vectorCreated = some vectorCreatedDt := by
  simp only [vector, if_true]

theorem vectorCreated_fresh {token : UsernameToken} (created : token.created = some vectorCreated) :
    token.Fresh vector 300 vectorCreatedDt :=
  ⟨vectorCreated, vectorCreatedDt, created, vectorCreated_parsed, by decide⟩

theorem digestToken_plain {nonce : Text} (plain : Plain nonce) : (digestToken nonce).Plain where
  username := admin_plain
  password := vectorDigest_plain
  nonce _ same := Option.some.inj same ▸ plain
  created _ same := Option.some.inj same ▸ vectorCreated_plain

theorem digestToken_read {nonce : Text} (plain : Plain nonce) :
    parseUsernameToken vector (digestToken nonce).header = .ok (digestToken nonce) :=
  parseUsernameToken_header Markup.scanner_lawful (digestToken_plain plain)

/-- The vector's digest is accepted for every spelling of its nonce, near the time it names. -/
theorem digestToken_authenticates {nonce : Text} (plain : Plain nonce)
    (decoded : decodeNonce vector nonce = .ok vectorNonceBytes)
    (fresh : checkFreshness now vectorCreatedDt toleranceSecs = .ok ()) :
    authenticate vector (digestToken nonce).header adminOnly toleranceSecs now =
      .ok (digestToken nonce) := by
  refine authenticate_ok_iff.mpr
    ⟨digestToken_read plain, vectorPassword, rfl, ⟨nonce, vectorCreated, rfl, rfl, ?_⟩,
      vectorCreated, vectorCreatedDt, rfl, vectorCreated_parsed, fresh⟩
  rw [computeDigest, decoded]
  rfl

theorem vectorNonce_decoded :
    decodeNonce vector vectorNonce = .ok vectorNonceBytes := by decide +kernel

end SoapServer.Wssec
