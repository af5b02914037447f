import SoapServer.Wssec.Authentication

/-! What a caller without the password of a user learns from a fault: two credential
stores that differ only in whether the user exists, compared on one header. -/

set_option autoImplicit false

namespace SoapServer.Wssec

open Markup (Text)

variable {ext : Externals} {securityBytes : Text} {getPassword : Text → Option Text}
  {cache : RotatingNonceCache} {toleranceSecs now : Int} {instant : Nat}

theorem readToken_error {st : TokenState} {events : List (Except Text Markup.Event)} {e : Abort}
    (failed : readToken st events = .error e) : ∃ f, e = .fault f := by
  induction events generalizing st with
  | nil => cases failed
  | cons event rest ih =>
    cases event with
    | error message => cases failed; exact ⟨_, rfl⟩
    | ok event => exact ih failed

theorem parseUsernameToken_error {e : Abort}
    (failed : parseUsernameToken ext securityBytes = .error e) : ∃ f, e = .fault f := by
  unfold parseUsernameToken at failed
  cases read : readToken .initial (ext.xml.events true securityBytes) with
  | error e' =>
    rw [read, bind_error] at failed
    cases failed
    exact readToken_error read
  | ok st =>
    rw [read, bind_ok, TokenState.finish] at failed
    split at failed
    · cases username : st.username <;> cases password : st.password <;>
        simp only [username, password, okOr, senderFault, bind_ok, bind_error] at failed <;>
        cases failed <;> exact ⟨_, rfl⟩
    · cases failed
      exact ⟨_, rfl⟩

/-- Two credential stores that differ at one user, unknown in the first and known in the
second. -/
structure KnownOnlyInSecond (user password : Text) (first second : Text → Option Text) : Prop where
  elsewhere : ∀ v, v ≠ user → first v = second v
  unknown : first user = none
  known : second user = some password

/-- One fault, of the same code and reason, whichever of the two stores is asked. -/
def SameFault (ext : Externals) (securityBytes : Text) (cache : RotatingNonceCache)
    (toleranceSecs now : Int) (instant : Nat) (first second : Text → Option Text) : Prop :=
  ∃ fault : SoapFault,
    (validateUsernameToken ext securityBytes first cache toleranceSecs now instant).1 =
      .error (.fault fault) ∧
    (validateUsernameToken ext securityBytes second cache toleranceSecs now instant).1 =
      .error (.fault fault)

/-- A caller without the password of a user cannot tell whether the user exists. -/
def NoEnumeration (ext : Externals) : Prop :=
  ∀ (securityBytes : Text) (cache : RotatingNonceCache) (toleranceSecs now : Int) (instant : Nat)
    (user password : Text) (first second : Text → Option Text),
    KnownOnlyInSecond user password first second →
    (∀ token, parseUsernameToken ext securityBytes = .ok token →
      token.username = user ∧ ¬ token.Proves ext password) →
    SameFault ext securityBytes cache toleranceSecs now instant first second

/-- The token gets as far as the comparison with the stored password. -/
def UsernameToken.ReachesComparison (ext : Externals) (toleranceSecs now : Int)
    (token : UsernameToken) : Prop :=
  match token.passwordType with
  | .digest => ∃ nonce created nonceBytes, token.nonce = some nonce ∧ token.created = some created ∧
      ext.base64Decode (addBase64Padding nonce) = .ok nonceBytes
  | .text => token.Fresh ext toleranceSecs now

/-- The fault of a wrong password is told from every other by its first character. -/
theorem senderFault_ne {α : Type} {reason : Text} (other : reason.head? ≠ some 'A') :
    (senderFault reason : Outcome α) ≠ senderFault authenticationFailed := by
  intro same
  simp only [senderFault, SoapFault.sender, SoapFault.new, Except.error.injEq, Abort.fault.injEq,
    SoapFault.mk.injEq] at same
  exact other (by rw [same.2.1]; rfl)

theorem checkFreshness_ne (createdDt : Int) :
    checkFreshness now createdDt toleranceSecs ≠ senderFault authenticationFailed := by
  have refused : (.error .panic : Outcome Unit) ≠ senderFault authenticationFailed := by
    simp [senderFault]
  unfold checkFreshness durationSeconds
  split
  · rw [bind_ok]
    split
    · exact senderFault_ne (by decide)
    · split
      · rw [bind_ok]
        split
        · exact senderFault_ne (by decide)
        · simp [senderFault]
      · exact refused
  · exact refused

/-- Without the password, the check ends like the lookup of an unknown user exactly when
it reaches the comparison. -/
theorem verifyPassword_failed_iff {token : UsernameToken} {password : Text}
    (unproved : ¬ token.Proves ext password) :
    verifyPassword ext token password toleranceSecs now = senderFault authenticationFailed ↔
      token.ReachesComparison ext toleranceSecs now := by
  unfold verifyPassword UsernameToken.ReachesComparison
  unfold UsernameToken.Proves at unproved
  cases kind : token.passwordType with
  | digest =>
    simp only [kind] at unproved ⊢
    cases hasNonce : token.nonce with
    | none => simpa using senderFault_ne (by decide)
    | some nonce =>
      cases hasCreated : token.created with
      | none => simpa using senderFault_ne (by decide)
      | some created =>
        cases decoded : ext.base64Decode (addBase64Padding nonce) with
        | error e => simpa [computeDigest, decodeNonce, decoded] using senderFault_ne (by simp)
        | ok nonceBytes =>
          have digest : computeDigest ext nonce created password = .ok (ext.base64Encode
              (ext.sha1 (nonceBytes ++ Markup.utf8 created ++ Markup.utf8 password))) := by
            simp only [computeDigest, decodeNonce, decoded, bind_ok]
          simp only [okOr_some, bind_ok, digest]
          -- the digests differ, as the password is not proved
          rw [if_pos (fun same => unproved ⟨nonce, created, hasNonce, hasCreated, by rw [digest, same]⟩)]
          simp [decoded]
  | text =>
    simp only [kind] at unproved ⊢
    -- a text token has its age checked before the passwords are compared
    unfold UsernameToken.Fresh
    cases hasCreated : token.created with
    | none => simpa using senderFault_ne (by decide)
    | some created =>
      cases parsed : ext.parseRfc3339 created with
      | none => simpa [parseCreated, parsed] using senderFault_ne (by decide)
      | some createdDt =>
        cases fresh : checkFreshness now createdDt toleranceSecs with
        | error e =>
          have : checkFreshness now createdDt toleranceSecs ≠ _ := checkFreshness_ne createdDt
          rw [fresh] at this
          simpa [parseCreated, parsed, fresh] using this
        | ok u => simp [parseCreated, parsed, fresh, unproved]

/-- Two stores that differ in whether the token's user exists give one fault exactly when
the token does not read, or gets as far as the comparison. -/
theorem same_fault_iff {user password : Text} {first second : Text → Option Text}
    (stores : KnownOnlyInSecond user password first second)
    (unproved : ∀ token, parseUsernameToken ext securityBytes = .ok token →
      token.username = user ∧ ¬ token.Proves ext password) :
    SameFault ext securityBytes cache toleranceSecs now instant first second ↔
      ∀ token, parseUsernameToken ext securityBytes = .ok token →
        token.ReachesComparison ext toleranceSecs now := by
  unfold SameFault
  cases read : parseUsernameToken ext securityBytes with
  | error e =>
    obtain ⟨f, rfl⟩ := parseUsernameToken_error read
    have rejected (getPassword : Text → Option Text) :
        authenticate ext securityBytes getPassword toleranceSecs now = .error (.fault f) := by
      rw [authenticate, read, bind_error]
    simp [validateUsernameToken_of_error (rejected _)]
  | ok token =>
    obtain ⟨rfl, unshown⟩ := unproved token read
    have unknown : authenticate ext securityBytes first toleranceSecs now =
        senderFault authenticationFailed := by
      simp [authenticate, read, stores.unknown]
    have known : ∃ e, authenticate ext securityBytes second toleranceSecs now = .error e ∧
        verifyPassword ext token password toleranceSecs now = .error e := by
      cases verified : verifyPassword ext token password toleranceSecs now with
      | error e => exact ⟨e, by simp [authenticate, read, stores.known, verified], rfl⟩
      | ok u => exact absurd (verifyPassword_ok_iff _ _ _ _ |>.mp verified).1 unshown
    obtain ⟨e, known, verified⟩ := known
    rw [validateUsernameToken_of_error unknown, validateUsernameToken_of_error known]
    have compared : verifyPassword ext token password toleranceSecs now = _ ↔ _ :=
      verifyPassword_failed_iff unshown
    rw [verified, senderFault, Except.error.injEq] at compared
    simp only [Except.ok.injEq, forall_eq', ← compared]
    constructor
    · rintro ⟨fault, one, two⟩
      exact (Except.error.inj two).trans (Except.error.inj one).symm
    · rintro rfl
      exact ⟨.sender authenticationFailed, rfl, rfl⟩

/-- A text token for `admin` with a password of the caller's own. -/
def guessToken : UsernameToken :=
  ⟨"admin".toList, "guess".toList, .text, none, some vectorCreated⟩

theorem noUser_adminOnly :
    KnownOnlyInSecond "admin".toList vectorPassword (fun _ => none) adminOnly :=
  ⟨fun _ other => (if_neg other).symm, rfl, if_pos rfl⟩

theorem guess_same_fault :
    SameFault vector guessToken.header (.new 150 0) 300 vectorCreatedDt 0 (fun _ => none) adminOnly := by
  have plain : guessToken.Plain :=
    ⟨admin_plain, by decide, fun _ same => (by cases same),
      fun _ same => Option.some.inj same ▸ vectorCreated_plain⟩
  have read : parseUsernameToken vector _ = _ :=
    parseUsernameToken_header Markup.scanner_lawful plain
  refine (same_fault_iff noUser_adminOnly ?_).mpr ?_
  · intro token found
    obtain rfl := Except.ok.inj (read.symm.trans found)
    have different : "guess".toList ≠ vectorPassword := by decide
    exact ⟨rfl, different⟩
  · intro token found
    obtain rfl := Except.ok.inj (read.symm.trans found)
    exact vectorCreated_fresh rfl

/-- A digest token without a nonce. -/
def noNonceToken : UsernameToken :=
  ⟨"admin".toList, vectorDigest, .digest, none, some vectorCreated⟩

/-- A digest token without a nonce tells a known user from an unknown one. -/
theorem user_enumerated : ¬ NoEnumeration vector := by
  intro hidden
  have plain : noNonceToken.Plain :=
    ⟨admin_plain, vectorDigest_plain, fun _ same => (by cases same),
      fun _ same => Option.some.inj same ▸ vectorCreated_plain⟩
  have read : parseUsernameToken vector _ = _ :=
    parseUsernameToken_header Markup.scanner_lawful plain
  obtain ⟨fault, absent, present⟩ := hidden noNonceToken.header (.new 150 0) 300 vectorCreatedDt 0
    "admin".toList vectorPassword (fun _ => none) adminOnly noUser_adminOnly (by
      intro found same
      obtain rfl := Except.ok.inj (read.symm.trans same)
      refine ⟨rfl, ?_⟩
      rintro ⟨nonce, _, hasNonce, _⟩
      cases hasNonce)
  have unknown : authenticate vector noNonceToken.header (fun _ => none) 300 vectorCreatedDt =
      senderFault authenticationFailed := by
    rw [authenticate, read]
    rfl
  have known : authenticate vector noNonceToken.header adminOnly 300 vectorCreatedDt =
      senderFault "Missing Nonce for PasswordDigest".toList := by
    have stored : adminOnly noNonceToken.username = some vectorPassword := if_pos rfl
    rw [authenticate, read, bind_ok, stored]
    rfl
  rw [validateUsernameToken_of_error unknown] at absent
  rw [validateUsernameToken_of_error known] at present
  exact senderFault_ne (α := Text) (by decide) (present.trans absent.symm)

end SoapServer.Wssec
