import SoapServer.Envelope.Termination
import SoapServer.Server.AuthenticationGate
import SoapServer.Server.Messages
import SoapServer.Wssec.Freshness

/-! Every response is a SOAP message in the version it announces. -/

set_option autoImplicit false

namespace SoapServer

open Markup (Text)
open Loops (bind_eq_ok bind_eq_error)

/-! Which steps return. -/

namespace Wssec

variable {ext : Externals}

/-- The token gets as far as the check of its age: a digest has to prove the password first. -/
def UsernameToken.ReachesFreshness (ext : Externals) (password : Text)
    (token : UsernameToken) : Prop :=
  (∃ created createdDt, token.created = some created ∧ ext.parseRfc3339 created = some createdDt) ∧
    (token.passwordType = .digest → token.Proves ext password)

theorem okOr_returns {α : Type} (reason : Text) (o : Option α) : Returns (okOr reason o) := by
  cases o with
  | none => exact returns_senderFault _
  | some a => exact returns_ok _

theorem parseCreated_returns (s : Text) : Returns (parseCreated ext s) := by
  unfold parseCreated
  split
  · exact returns_ok _
  · exact returns_senderFault _

theorem computeDigest_returns (nonce created password : Text) :
    Returns (computeDigest ext nonce created password) := by
  refine Returns.bind ?_ fun _ _ => returns_ok _
  unfold decodeNonce
  split
  · exact returns_ok _
  · exact returns_senderFault _

theorem parseUsernameToken_returns (xmlBytes : Text) :
    Returns (parseUsernameToken ext xmlBytes) := by
  have read (st : TokenState) (events : List (Except Text Markup.Event)) : Returns (readToken st events) := by
    induction events generalizing st with
    | nil => exact returns_ok _
    | cons item rest ih =>
      cases item with
      | ok event => exact ih _
      | error e => exact returns_senderFault _
  refine (read _ _).bind fun st _ => ?_
  unfold TokenState.finish
  split
  · exact (okOr_returns _ _).bind fun _ _ => (okOr_returns _ _).bind fun _ _ => returns_ok _
  · exact returns_senderFault _

/-- A password check returns unless it reaches the age check with such a tolerance. -/
theorem verifyPassword_returns_iff (token : UsernameToken) (password : Text)
    (toleranceSecs now : Int) :
    Returns (verifyPassword ext token password toleranceSecs now) ↔
      (token.ReachesFreshness ext password → ToleranceFits toleranceSecs) := by
  unfold verifyPassword UsernameToken.ReachesFreshness UsernameToken.Proves
  cases kind : token.passwordType with
  | digest =>
    simp only [returns_bind_iff, okOr_returns, computeDigest_returns, true_and, okOr_eq_ok]
    constructor
    · rintro returns ⟨⟨created, createdDt, hasCreated, parsed⟩, proves⟩
      obtain ⟨nonce, created', hasNonce, hasCreated', digest⟩ := proves trivial
      obtain rfl := Option.some.inj (hasCreated.symm.trans hasCreated')
      have rest := returns nonce hasNonce created hasCreated _ digest
      rw [if_neg (by simp), returns_bind_iff] at rest
      exact (checkFreshness_returns_iff _ _ _).mp (rest.2 createdDt (parseCreated_eq_ok.mpr parsed))
    · intro fits nonce hasNonce created hasCreated expected digest
      split
      · exact returns_senderFault _
      · next same =>
        obtain rfl : expected = token.password := by simpa using same
        refine (parseCreated_returns _).bind fun createdDt parsed =>
          (checkFreshness_returns_iff _ _ _).mpr ?_
        exact fits ⟨⟨created, createdDt, hasCreated, parseCreated_eq_ok.mp parsed⟩,
          fun _ => ⟨nonce, created, hasNonce, hasCreated, digest⟩⟩
  | text =>
    simp only [returns_bind_iff, okOr_returns, parseCreated_returns, true_and, okOr_eq_ok,
      parseCreated_eq_ok]
    constructor
    · rintro returns ⟨⟨created, createdDt, hasCreated, parsed⟩, _⟩
      exact (checkFreshness_returns_iff now createdDt _).mp (returns created hasCreated createdDt parsed).1
    · intro fits created hasCreated createdDt parsed
      have known := fits ⟨⟨created, createdDt, hasCreated, parsed⟩, fun wrong => by cases wrong⟩
      refine ⟨(checkFreshness_returns_iff _ _ _).mpr known, fun _ _ => ?_⟩
      split
      · exact returns_senderFault _
      · exact returns_ok _

theorem checkNonce_returns_iff (instant : Nat) (nonce : Option Text) (cache : RotatingNonceCache) :
    Returns (checkNonce instant nonce cache).1 ↔ (nonce.isSome = true → 0 < cache.halfWindowSecs) := by
  cases nonce with
  | none =>
    exact ⟨fun _ wrong => (by cases wrong), fun _ => returns_ok _⟩
  | some nonce =>
    simp only [checkNonce, RotatingNonceCache.checkAndInsert, Option.isSome_some, true_imp_iff]
    rcases Nat.eq_zero_or_pos cache.halfWindowSecs with zero | positive
    · rw [RotatingNonceCache.rotateIfNeeded, RotatingNonceCache.rotateLoop_of_zero zero, zero]
      refine ⟨fun returns => ?_, fun wrong => absurd wrong (Nat.lt_irrefl 0)⟩
      obtain ⟨f, wrong, _⟩ := returns _ rfl
      cases wrong
    · rw [RotatingNonceCache.rotateIfNeeded_eq positive]
      refine ⟨fun _ => positive, fun _ => ?_⟩
      simp only
      split
      · exact returns_senderFault _
      · exact returns_ok _

/-- Validation returns unless a token of a known user reaches the age check with a
tolerance that has no duration, or the replay check with a window of no length. -/
theorem validateUsernameToken_returns_iff {securityBytes : Text} {getPassword : Text → Option Text}
    {cache : RotatingNonceCache} {toleranceSecs now : Int} {instant : Nat} :
    Returns (validateUsernameToken ext securityBytes getPassword cache toleranceSecs now instant).1 ↔
      ∀ token password, parseUsernameToken ext securityBytes = .ok token → getPassword token.username = some password →
        (token.ReachesFreshness ext password → ToleranceFits toleranceSecs) ∧
        (token.Proves ext password ∧ token.Fresh ext toleranceSecs now ∧ token.nonce.isSome = true →
          0 < cache.halfWindowSecs) := by
  have whole : (validateUsernameToken ext securityBytes getPassword cache toleranceSecs now instant).1 =
      (authenticate ext securityBytes getPassword toleranceSecs now >>= fun token =>
        (checkNonce instant token.nonce cache).1 >>= fun _ => .ok token.username) := by
    unfold validateUsernameToken
    cases authenticate ext securityBytes getPassword toleranceSecs now with
    | error e => rfl
    | ok token =>
      simp only [bind_ok]
      cases (checkNonce instant token.nonce cache).1 <;> rfl
  have first : Returns (authenticate ext securityBytes getPassword toleranceSecs now) ↔
      ∀ token, parseUsernameToken ext securityBytes = .ok token → ∀ password, getPassword token.username = some password →
        token.ReachesFreshness ext password → ToleranceFits toleranceSecs := by
    simp only [authenticate, returns_bind_iff, returns_ok, parseUsernameToken_returns, okOr_returns,
      okOr_eq_ok, verifyPassword_returns_iff, true_and, implies_true, and_true]
  rw [whole, returns_bind_iff, first]
  simp only [returns_bind_iff, returns_ok, implies_true, and_true, checkNonce_returns_iff,
    authenticate_ok_iff]
  constructor
  · rintro ⟨ages, nonces⟩ token password parsed known
    refine ⟨ages token parsed password known, ?_⟩
    rintro ⟨proves, fresh, hasNonce⟩
    exact nonces token ⟨parsed, password, known, proves, fresh⟩ hasNonce
  · intro each
    refine ⟨fun token parsed password known => (each token password parsed known).1, ?_⟩
    rintro token ⟨parsed, password, known, proves, fresh⟩ hasNonce
    exact (each token password parsed known).2 ⟨proves, fresh, hasNonce⟩

/-- Both ways not to return end in no fault. -/
theorem validateUsernameToken_aborts {securityBytes : Text} {getPassword : Text → Option Text}
    {cache : RotatingNonceCache} {toleranceSecs now : Int} {instant : Nat} {token : UsernameToken}
    {password : Text} (parsed : parseUsernameToken ext securityBytes = .ok token)
    (known : getPassword token.username = some password)
    (cause : token.ReachesFreshness ext password ∧ ¬ ToleranceFits toleranceSecs ∨
      (token.Proves ext password ∧ token.Fresh ext toleranceSecs now ∧ token.nonce.isSome = true) ∧
        cache.halfWindowSecs = 0) :
    ∃ e, (validateUsernameToken ext securityBytes getPassword cache toleranceSecs now instant).1 = .error e ∧
      ∀ f, e ≠ .fault f := by
  rcases cause with ⟨⟨⟨created, createdDt, hasCreated, dated⟩, proves⟩, unfit⟩ | ⟨⟨proves, fresh, hasNonce⟩, zero⟩
  · -- the arithmetic on the age overflows once the digest is right
    have panics : verifyPassword ext token password toleranceSecs now = .error .panic := by
      have age := checkFreshness_panics now createdDt unfit
      unfold verifyPassword
      cases kind : token.passwordType with
      | digest =>
        have digest := proves kind
        unfold UsernameToken.Proves at digest
        simp only [kind] at digest
        obtain ⟨nonce, created', hasNonce, hasCreated', computed⟩ := digest
        obtain rfl := Option.some.inj (hasCreated.symm.trans hasCreated')
        simp [hasNonce, hasCreated, computed, parseCreated_eq_ok.mpr dated, age]
      | text => simp [hasCreated, parseCreated_eq_ok.mpr dated, age]
    refine ⟨.panic, ?_, fun _ wrong => by cases wrong⟩
    rw [validateUsernameToken_of_error]
    simp [authenticate, parsed, known, panics]
  · -- with a window of zero the rotation does not end
    refine ⟨.hang, ?_, fun _ wrong => by cases wrong⟩
    obtain ⟨nonce, isNonce⟩ := Option.isSome_iff_exists.mp hasNonce
    rw [validateUsernameToken_of_ok (authenticate_ok_iff.mpr ⟨parsed, password, known, proves, fresh⟩)]
    simp [checkNonce, isNonce, RotatingNonceCache.checkAndInsert, RotatingNonceCache.rotateIfNeeded,
      RotatingNonceCache.rotateLoop_of_zero zero, Except.map]

end Wssec

namespace Server

open Wssec Dispatch Envelope

variable {H : Type} {ext : Externals}

/-- The call runs into a check that does not return: the age of a token against a
tolerance that has no duration, or a nonce against a window of no length. -/
def Stuck (ext : Externals) (svc : SoapService H) (entry : DispatchEntry H)
    (headerChildren : List Text) (nonceCache : RotatingNonceCache) (moment : Moment H) : Prop :=
  entry.authRequired = true ∧ ∃ authFn securityBytes token password, svc.authFn = some authFn ∧
    findSecurityHeader ext headerChildren = some securityBytes ∧
    parseUsernameToken ext securityBytes = .ok token ∧ authFn token.username = some password ∧
    (token.ReachesFreshness ext password ∧ ¬ ToleranceFits svc.timestampToleranceSecs ∨
      (token.Proves ext password ∧ token.Fresh ext svc.timestampToleranceSecs moment.now ∧ token.nonce.isSome = true) ∧
        nonceCache.halfWindowSecs = 0)

theorem returns_map_iff {α β : Type} {x : Outcome α} {f : α → β} :
    Returns (x.map f) ↔ Returns x := by
  cases x with
  | ok a => exact ⟨fun _ => returns_ok a, fun _ => returns_ok _⟩
  | error e => exact ⟨fun h e' same => h e' (by cases same; rfl), fun h e' same => h e' (by cases same; rfl)⟩

theorem authorize_returns_iff {svc : SoapService H} {entry : DispatchEntry H}
    {headerChildren : List Text} {nonceCache : RotatingNonceCache} {moment : Moment H} :
    Returns (authorize ext svc entry headerChildren nonceCache moment).1 ↔
      ¬ Stuck ext svc entry headerChildren nonceCache moment := by
  unfold Stuck
  by_cases required : entry.authRequired = true
  · cases auth : svc.authFn with
    | none =>
      have skipped : (authorize ext svc entry headerChildren nonceCache moment).1 = .ok () := by
        simp [authorize, auth]
      simp [skipped, returns_ok]
    | some authFn =>
      rcases authorize_required ext nonceCache headerChildren moment required auth
          with ⟨missing, step⟩ | ⟨bytes, found, step⟩
      · simp [step, missing, returns_senderFault]
      · simp only [step, returns_map_iff, validateUsernameToken_returns_iff]
        constructor
        · rintro each ⟨_, _, _, token, password, ⟨⟩, same, parsed, known, stuck⟩
          obtain rfl := Option.some.inj (found.symm.trans same)
          obtain ⟨ages, nonces⟩ := each token password parsed known
          -- the age overflows, or the cache divides by a window of zero
          rcases stuck with ⟨reaches, unfit⟩ | ⟨all, zero⟩
          · exact unfit (ages reaches)
          · exact absurd zero (Nat.ne_of_gt (nonces all))
        · intro free token password parsed known
          have stuck (why) : False :=
            free ⟨required, authFn, bytes, token, password, rfl, found, parsed, known, why⟩
          exact ⟨fun reaches => by_contra fun unfit => stuck (.inl ⟨reaches, unfit⟩),
            fun all => Nat.pos_of_ne_zero fun zero => stuck (.inr ⟨all, zero⟩)⟩
  · have skipped : (authorize ext svc entry headerChildren nonceCache moment).1 = .ok () := by
      simp [authorize, required]
    simp [skipped, required, returns_ok]

theorem detectSoapVersion_returns (contentType : Text) :
    Returns (detectSoapVersion contentType) := by
  unfold detectSoapVersion
  split
  · exact returns_ok _
  · split
    · exact returns_ok _
    · rintro e ⟨⟩
      exact ⟨_, rfl, rfl⟩

theorem extractBodyQname_returns (bodyBytes : Text) : Returns (extractBodyQname ext bodyBytes) := by
  unfold extractBodyQname
  generalize ext.xml.nsEvents true bodyBytes = events
  fun_induction rootQName events with
  | case1 | case2 => exact returns_senderFault _
  | case3 | case4 => exact returns_ok _
  | case5 _ _ _ ih => exact ih
  | case6 _ _ _ ih => exact ih

theorem route_returns (table : DispatchTable H) (bodyQname : QName) (soapAction : Option Text) :
    Returns (route table bodyQname soapAction) := by
  unfold route
  split
  · exact returns_ok _
  · rintro e ⟨⟩
    exact ⟨_, rfl, rfl⟩

theorem validateRequest_returns (bodyBytes : Text) (typeRegistry : Xsd.TypeRegistry)
    (inputType : Option QName) :
    Returns (validateRequest ext bodyBytes typeRegistry inputType) := by
  unfold validateRequest
  simp only
  repeat' split
  all_goals first | exact returns_ok _ | exact returns_senderFault _

/-! One call. -/

section Call

variable (ext : Externals) (svc : SoapService H) (table : DispatchTable H)
    (nonceCache : RotatingNonceCache)
  (request : Request) (moment : Moment H)

/-- Up to the check of the body, a call found its entry and passed the authentication. -/
structure Admitted (envelope : ParsedEnvelope) (entry : DispatchEntry H)
    (after : RotatingNonceCache) : Prop where
  routed : routeRequest ext table request = .ok (envelope, entry)
  authorized : authorize ext svc entry envelope.headerChildren nonceCache moment = (.ok (), after)

/-- The exits of a call, each with the body or the abort it ended in. -/
inductive Exit : Stage (SoapVersion × Text) → Served H → Prop where
  | unrouted {e : Abort} {version : SoapVersion} (failed : routeRequest ext table request = .error (e, version)) :
    Exit (.error (e, version)) (refused ext nonceCache e version)
  | unauthorized {envelope : ParsedEnvelope} {entry : DispatchEntry H} {e : Abort} {after : RotatingNonceCache}
    (routed : routeRequest ext table request = .ok (envelope, entry))
    (failed : authorize ext svc entry envelope.headerChildren nonceCache moment = (.error e, after)) :
    Exit (.error (e, envelope.soapVersion)) (refused ext after e envelope.soapVersion)
  | invalid {envelope : ParsedEnvelope} {entry : DispatchEntry H} {after : RotatingNonceCache} {e : Abort}
    (admitted : Admitted ext svc table nonceCache request moment envelope entry after)
    (failed : validateRequest ext envelope.bodyElement svc.typeRegistry entry.validationType = .error e) :
    Exit (.error (e, envelope.soapVersion)) (refused ext after e envelope.soapVersion)
  | failed {envelope : ParsedEnvelope} {entry : DispatchEntry H} {after : RotatingNonceCache} {f : SoapFault}
    (admitted : Admitted ext svc table nonceCache request moment envelope entry after)
    (result : moment.respond entry.handler envelope.bodyElement envelope.headerChildren = .error f) :
    Exit (.error (.fault f, envelope.soapVersion)) (invokeHandler ext envelope entry after moment)
  | answered {envelope : ParsedEnvelope} {entry : DispatchEntry H} {after : RotatingNonceCache} {bytes : Text}
    (admitted : Admitted ext svc table nonceCache request moment envelope entry after)
    (result : moment.respond entry.handler envelope.bodyElement envelope.headerChildren = .ok bytes) :
    Exit (.ok (envelope.soapVersion, bytes)) (invokeHandler ext envelope entry after moment)

theorem postHandler_exit : ∃ outcome, Exit ext svc table nonceCache request moment outcome
    (postHandler ext svc table nonceCache request moment) := by
  unfold postHandler
  cases routed : routeRequest ext table request with
  | error pair => exact ⟨_, .unrouted routed⟩
  | ok pair =>
    obtain ⟨envelope, entry⟩ := pair
    simp only
    cases step : authorize ext svc entry envelope.headerChildren nonceCache moment with
    | mk result after =>
      cases result with
      | error e => exact ⟨_, .unauthorized routed step⟩
      | ok u =>
        simp only
        cases valid : validateRequest ext envelope.bodyElement svc.typeRegistry entry.validationType with
        | error e => exact ⟨_, .invalid ⟨routed, step⟩ valid⟩
        | ok u =>
          cases result : moment.respond entry.handler envelope.bodyElement envelope.headerChildren with
          | error f => exact ⟨_, .failed ⟨routed, step⟩ result⟩
          | ok bytes => exact ⟨_, .answered ⟨routed, step⟩ result⟩

/-- A call that reaches a check which does not return. -/
def GetsStuck : Prop :=
  ∃ envelope entry, routeRequest ext table request = .ok (envelope, entry) ∧
    Stuck ext svc entry envelope.headerChildren nonceCache moment

/-- A response that is a SOAP message in the version it announces. -/
structure IsAnswer (outcome : Stage (SoapVersion × Text)) (served : Served H) (r : Response)
    (version : SoapVersion) : Prop where
  exit : Exit ext svc table nonceCache request moment outcome served
  accepted : ∃ body, parseEnvelope ext r.body = .ok ⟨version, [], body⟩
  announced : detectSoapVersion r.contentType = .ok version
  same : ∀ v envelope, detectSoapVersion (request.contentType.getD []) = .ok v →
    parseEnvelope ext request.body = .ok envelope → version = envelope.soapVersion
  status : r.status = 200 ↔ ∃ inv bytes, served.invoked = some inv ∧
    moment.respond inv.entry.handler inv.body inv.headerChildren = .ok bytes
  reason : ∀ f v, outcome = .error (.fault f, v) → ReasonReads ext r.body version f.reason

/-- The call is answered, by a SOAP message in the version that the response announces. -/
def Answered (served : Served H) : Prop :=
  ∃ outcome r version, served.response = some r ∧
    IsAnswer ext svc table nonceCache request moment outcome served r version

end Call

variable {svc : SoapService H} {table : DispatchTable H} {nonceCache : RotatingNonceCache}
    {request : Request}
  {moment : Moment H}

theorem responseContentType_announces (version : SoapVersion) :
    detectSoapVersion (responseContentType version) = .ok version := by
  cases version <;> decide +kernel

theorem inVersion_eq_ok {α : Type} {version : SoapVersion} {x : Outcome α} {a : α} :
    inVersion version x = .ok a ↔ x = .ok a := by
  cases x <;> simp [inVersion]

theorem inVersion_eq_error {α : Type} {version other : SoapVersion} {x : Outcome α} {e : Abort} :
    inVersion version x = .error (e, other) ↔ x = .error e ∧ version = other := by
  cases x <;> simp [inVersion]

/-- A failed route is a fault, in the version of the envelope once that is known. -/
theorem routeRequest_error {e : Abort} {version : SoapVersion}
    (failed : routeRequest ext table request = .error (e, version)) :
    (∃ f, e = .fault f ∧ f.detailXml = none) ∧
      ∀ v envelope, detectSoapVersion (request.contentType.getD []) = .ok v →
        parseEnvelope ext request.body = .ok envelope → version = envelope.soapVersion := by
  simp only [routeRequest, bind_eq_error, inVersion_eq_error, inVersion_eq_ok] at failed
  rcases failed with ⟨undetected, _⟩ | ⟨v, detected, failed⟩
  · refine ⟨detectSoapVersion_returns _ e undetected, fun v _ detected => ?_⟩
    rw [undetected] at detected
    cases detected
  · rcases failed with ⟨unparsed, _⟩ | ⟨envelope, parsed, failed⟩
    · refine ⟨parseEnvelope_returns _ _ e unparsed, fun _ envelope _ parsed => ?_⟩
      rw [unparsed] at parsed
      cases parsed
    · have same : version = envelope.soapVersion → ∀ v other, detectSoapVersion (request.contentType.getD []) = .ok v →
          parseEnvelope ext request.body = .ok other → version = other.soapVersion := by
        rintro rfl _ other _ also
        rw [Except.ok.inj (parsed.symm.trans also)]
      rcases failed with ⟨unnamed, rfl⟩ | ⟨q, named, failed⟩
      · exact ⟨extractBodyQname_returns _ e unnamed, same rfl⟩
      · rcases failed with ⟨unrouted, rfl⟩ | ⟨entry, _, wrong⟩
        · exact ⟨route_returns _ _ _ e unrouted, same rfl⟩
        · cases wrong

theorem routeRequest_ok {envelope : ParsedEnvelope} {entry : DispatchEntry H}
    (routed : routeRequest ext table request = .ok (envelope, entry)) :
    parseEnvelope ext request.body = .ok envelope := by
  simp only [routeRequest, bind_eq_ok, inVersion_eq_ok] at routed
  obtain ⟨_, _, found, parsed, _, _, _, _, same⟩ := routed
  cases same
  exact parsed

/-- A call that ended in a fault is answered by that fault. -/
theorem answered_of_fault (lawful : ext.xml.Lawful) (compositional : ext.xml.Compositional)
    (escapes : ext.Escapes) {served : Served H} {f : SoapFault} {version : SoapVersion}
    (exit : Exit ext svc table nonceCache request moment (.error (.fault f, version)) served)
    (responds : served.response = some (faultResponse ext f version))
    (well : HandlerResult ext (.error f))
    (same : ∀ v envelope, detectSoapVersion (request.contentType.getD []) = .ok v →
      parseEnvelope ext request.body = .ok envelope → version = envelope.soapVersion)
    (noBody : ∀ inv bytes, served.invoked = some inv →
      moment.respond inv.entry.handler inv.body inv.headerChildren ≠ .ok bytes) :
    Answered ext svc table nonceCache request moment served := by
  obtain ⟨accepted, reads⟩ := fault_reads lawful compositional escapes f version well
  refine ⟨_, _, version, responds, exit, accepted, responseContentType_announces version, same, ?_,
    ?_⟩
  · refine ⟨fun wrong => ?_, fun ⟨inv, bytes, ran, result⟩ => absurd result (noBody inv bytes ran)⟩
    exact absurd wrong (show (500 : Nat) ≠ 200 by decide)
  · rintro f v ⟨⟩
    exact reads

theorem plainFault_well {f : SoapFault} (plain : f.detailXml = none) :
    HandlerResult ext (.error f) := by
  intro raw given
  rw [plain] at given
  cases given

/-- A call that did not get stuck is answered. -/
theorem Exit.answered_of_free (lawful : ext.xml.Lawful) (compositional : ext.xml.Compositional)
    (escapes : ext.Escapes)
    (handlers : ∀ h body headers, HandlerResult ext (moment.respond h body headers))
    {outcome : Stage (SoapVersion × Text)} {served : Served H}
    (exit : Exit ext svc table nonceCache request moment outcome served)
    (free : ¬ GetsStuck ext svc table nonceCache request moment) :
    Answered ext svc table nonceCache request moment served := by
  have sameVersion {envelope : ParsedEnvelope} {entry : DispatchEntry H}
      (routed : routeRequest ext table request = .ok (envelope, entry)) (v : SoapVersion) (other : ParsedEnvelope)
      (_ : detectSoapVersion (request.contentType.getD []) = .ok v)
      (parsed : parseEnvelope ext request.body = .ok other) : envelope.soapVersion = other.soapVersion := by
    rw [Except.ok.inj ((routeRequest_ok routed).symm.trans parsed)]
  have given := exit
  -- one case for each place at which the pipeline is left
  cases exit with
  | unrouted failed =>
    obtain ⟨⟨f, rfl, plain⟩, same⟩ := routeRequest_error failed
    exact answered_of_fault lawful compositional escapes given rfl (plainFault_well plain) same
      fun _ _ ran => by cases ran
  | unauthorized routed failed =>
    have returns := authorize_returns_iff.mpr fun stuck => free ⟨_, _, routed, stuck⟩
    obtain ⟨f, rfl, plain⟩ := returns _ (by rw [failed])
    exact answered_of_fault lawful compositional escapes given rfl (plainFault_well plain) (sameVersion routed)
      fun _ _ ran => by cases ran
  | invalid admitted failed =>
    obtain ⟨f, rfl, plain⟩ := validateRequest_returns _ _ _ _ failed
    exact answered_of_fault lawful compositional escapes given rfl (plainFault_well plain)
      (sameVersion admitted.routed) fun _ _ ran => by cases ran
  | @failed envelope entry after f admitted result =>
    refine answered_of_fault lawful compositional escapes given ?_ (result ▸ handlers _ _ _)
      (sameVersion admitted.routed) ?_
    · simp only [invokeHandler, result]
    · rintro inv bytes ⟨⟩ wrong
      cases result.symm.trans wrong
  | @answered envelope entry after bytes admitted result =>
    have responds : (invokeHandler ext envelope entry after moment).response = some ⟨200,
        responseContentType envelope.soapVersion, serializeEnvelope bytes envelope.soapVersion⟩ := by
      simp only [invokeHandler, result]
    refine ⟨_, _, envelope.soapVersion, responds, given,
      body_reads lawful compositional envelope.soapVersion (result ▸ handlers _ _ _),
      responseContentType_announces _, sameVersion admitted.routed, ?_, ?_⟩
    · exact ⟨fun _ => ⟨_, bytes, rfl, result⟩, fun _ => rfl⟩
    · rintro f v ⟨⟩

/-- A check that does not return ends in a panic or never. -/
theorem Stuck.aborts {entry : DispatchEntry H} {headerChildren : List Text}
    (stuck : Stuck ext svc entry headerChildren nonceCache moment) :
    ∃ e after, authorize ext svc entry headerChildren nonceCache moment = (.error e, after) ∧ ∀ f, e ≠ .fault f := by
  obtain ⟨required, authFn, bytes, token, password, auth, header, parsed, known, cause⟩ := stuck
  rcases authorize_required ext nonceCache headerChildren moment required auth
      with ⟨missing, _⟩ | ⟨_, found, step⟩
  · rw [header] at missing
    cases missing
  · obtain rfl := Option.some.inj (header.symm.trans found)
    obtain ⟨e, failed, noFault⟩ := validateUsernameToken_aborts parsed known cause
    exact ⟨e, _, by rw [step, failed]; rfl, noFault⟩

theorem Exit.free_of_answered {outcome : Stage (SoapVersion × Text)} {served : Served H}
    (exit : Exit ext svc table nonceCache request moment outcome served) {r : Response}
    (responds : served.response = some r) :
    ¬ GetsStuck ext svc table nonceCache request moment := by
  rintro ⟨envelope, entry, routed, stuck⟩
  obtain ⟨e, after, aborts, noFault⟩ := stuck.aborts
  have unadmitted {other : ParsedEnvelope} {found : DispatchEntry H} {passed : RotatingNonceCache}
      (admitted : Admitted ext svc table nonceCache request moment other found passed) : False := by
    obtain ⟨rfl, rfl⟩ := Prod.mk.inj (Except.ok.inj (routed.symm.trans admitted.routed))
    have wrong := (Prod.mk.inj (aborts.symm.trans admitted.authorized)).1
    cases wrong
  cases exit with
  | unrouted failed =>
    rw [routed] at failed
    cases failed
  | unauthorized routed' failed =>
    obtain ⟨rfl, rfl⟩ := Prod.mk.inj (Except.ok.inj (routed.symm.trans routed'))
    obtain rfl := Except.error.inj (Prod.mk.inj (aborts.symm.trans failed)).1
    cases e with
    | fault f => exact noFault f rfl
    | panic => cases responds
    | hang => cases responds
  | invalid admitted _ => exact unadmitted admitted
  | failed admitted _ => exact unadmitted admitted
  | answered admitted _ => exact unadmitted admitted

/-- Every call of the two handlers is answered, by a SOAP message in the version that the
response announces, unless it reaches the age check with a tolerance that has no duration,
or the nonce check with a window of no length. -/
theorem answered_iff (lawful : ext.xml.Lawful) (compositional : ext.xml.Compositional)
    (escapes : ext.Escapes) (svc : SoapService H) (nonceCache : RotatingNonceCache)
    (request : Request) (moment : Moment H)
    (handlers : ∀ h body headers, HandlerResult ext (moment.respond h body headers)) :
    (Answered ext svc svc.dispatchTable nonceCache request moment (soapPostHandler ext svc nonceCache request moment) ↔
      ¬ GetsStuck ext svc svc.dispatchTable nonceCache request moment) ∧
    ∀ table, Answered ext svc table nonceCache request moment
        (soapPostHandlerForRoute ext svc table nonceCache request moment) ↔
      ¬ GetsStuck ext svc table nonceCache request moment := by
  have each (table : DispatchTable H) : Answered ext svc table nonceCache request moment
      (postHandler ext svc table nonceCache request moment) ↔ ¬ GetsStuck ext svc table nonceCache request moment := by
    obtain ⟨outcome, exit⟩ := postHandler_exit ext svc table nonceCache request moment
    constructor
    · rintro ⟨_, r, _, responds, _⟩
      exact exit.free_of_answered responds
    · exact exit.answered_of_free lawful compositional escapes handlers
  exact ⟨each svc.dispatchTable, each⟩

/-- With a tolerance that has a duration and a window of some length no call gets stuck. -/
theorem free_of_fits (fits : ToleranceFits svc.timestampToleranceSecs)
    (positive : 0 < nonceCache.halfWindowSecs) :
    ¬ GetsStuck ext svc table nonceCache request moment := by
  rintro ⟨_, _, _, _, _, _, _, _, _, _, _, _, ⟨_, unfit⟩ | ⟨_, zero⟩⟩
  · exact unfit fits
  · exact absurd zero (Nat.ne_of_gt positive)

theorem build_settings {host : Host} {fuel : Nat} {builder : ServerBuilder H}
    (built : build host fuel builder = .ok svc) :
    svc.nonceCache = .new builder.nonceCacheHalfWindowSecs host.started ∧
      svc.timestampToleranceSecs = builder.timestampToleranceSecs := by
  obtain ⟨_, _, built⟩ := bind_eq_ok.mp built
  obtain ⟨_, _, same⟩ := bind_eq_ok.mp built
  obtain rfl := Except.ok.inj same
  exact ⟨rfl, rfl⟩

/-- Every call of every service is answered. -/
def AnswersEveryCall (ext : Externals) : Prop :=
  ∀ (svc : SoapService Text) (request : Request) (moment : Moment Text),
    (∀ h body headers, HandlerResult ext (moment.respond h body headers)) →
      Answered ext svc svc.dispatchTable svc.nonceCache request moment
        (soapPostHandler ext svc svc.nonceCache request moment)

/-- A call of `Ping` with the token of the digest vector. -/
def pingRequest : Request := pingWith (digestToken vectorNonce).header

def pongMoment : Moment Text := ⟨vectorCreatedDt, 0, fun _ _ _ => .ok "<pong/>".toList⟩

theorem pong_well (h body : Text) (headers : List Text) :
    HandlerResult vector (pongMoment.respond h body headers) := by
  refine ⟨⟨⟨"pong".toList, []⟩, none⟩, by decide +kernel, ?_, by decide +kernel⟩
  have written := Markup.scanner_lawful.written_tag (c := .empty ⟨"pong".toList, []⟩ .nil) (by decide +kernel) rfl
  exact (by decide +kernel : (Markup.Content.empty ⟨"pong".toList, []⟩ .nil).write = "<pong/>".toList) ▸ written

theorem pingService_answers : ∃ svc, build pingHost 1 pingBuilder = .ok svc ∧
    Answered vector svc svc.dispatchTable svc.nonceCache pingRequest pongMoment
      (soapPostHandler vector svc svc.nonceCache pingRequest pongMoment) := by
  obtain ⟨svc, built⟩ := pingService_built
  obtain ⟨cache, tolerance⟩ := build_settings built
  refine ⟨svc, built, ((answered_iff Markup.scanner_lawful Markup.scanner_compositional (fun _ => rfl) svc svc.nonceCache
    pingRequest pongMoment pong_well).1).mpr (free_of_fits ?_ ?_)⟩
  · rw [tolerance]
    decide
  · rw [cache]
    decide

/-- A service that tolerates a token of any age. -/
def patientBuilder : ServerBuilder Text := { pingBuilder with timestampToleranceSecs := 9223372036854775807 }

/-- What `patientBuilder` builds panics on a valid token. -/
theorem patientService_panics : ¬ AnswersEveryCall vector := by
  intro answers
  have silent : (build pingHost 1 patientBuilder).toOption.map (fun svc =>
      (soapPostHandler vector svc svc.nonceCache pingRequest pongMoment).response.isNone) = some true := by
    decide +kernel
  obtain ⟨svc, _, none_⟩ := Option.map_eq_some_iff.mp silent
  obtain ⟨_, _, _, responds, _⟩ := answers svc pingRequest pongMoment pong_well
  rw [responds] at none_
  cases none_

end Server

end SoapServer
