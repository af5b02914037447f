import SoapServer.Dispatch.Provenance
import SoapServer.Server.Pipeline
import SoapServer.Wssec.Authentication

/-! Authentication as a gate in front of the handlers, over whole runs of requests. -/

set_option autoImplicit false

namespace SoapServer.Server

open Markup (Text)
open Maps Loops
open Wssec Wsdl Dispatch Envelope

variable {H : Type} {ext : Externals}

/-! The security header. -/

theorem isSecurity_root {events : Events} (security : isSecurity events = true) :
    rootQName events = .ok (.new wsseNs "Security".toList) := by
  fun_induction isSecurity events with
  | case1 => cases security
  | case2 => cases security
  | case3 ns tag rest =>
    obtain ⟨name, bound⟩ := Bool.and_eq_true_iff.mp security
    have nonempty : wsseNs ≠ [] := by decide
    simp only [decide_eq_true_eq] at name bound
    simp [rootQName, expandedQName, name, bound, boundNs, nonempty]
  | case4 ns tag rest =>
    obtain ⟨name, bound⟩ := Bool.and_eq_true_iff.mp security
    have nonempty : wsseNs ≠ [] := by decide
    simp only [decide_eq_true_eq] at name bound
    simp [rootQName, expandedQName, name, bound, boundNs, nonempty]
  | case5 ns name rest ih => exact ih security
  | case6 ns data rest ih => exact ih security

theorem findSecurityHeader_eq_some {headerChildren : List Text} {securityBytes : Text}
    (found : findSecurityHeader ext headerChildren = some securityBytes) :
    securityBytes ∈ headerChildren ∧
      extractBodyQname ext securityBytes = .ok (.new wsseNs "Security".toList) :=
  ⟨List.mem_of_find?_eq_some found,
    isSecurity_root (List.find?_some (p := fun child => isSecurity (ext.xml.nsEvents true child)) found)⟩

/-! The nonce cache over one validation. -/

theorem rotated_contains {cache : RotatingNonceCache} {instant : Nat} {nonce : Text}
    (held : (cache.rotated instant).contains nonce) : cache.contains nonce := by
  rcases RotatingNonceCache.rotated_contains_iff nonce |>.mp held with ⟨member, _⟩ | ⟨member, _⟩
  · exact .inl member
  · exact .inr member

/-- A refused nonce leaves the buckets with nothing new. -/
theorem checkNonce_error_contains {instant : Nat} {nonce : Option Text} {cache : RotatingNonceCache}
    {e : Abort} (rejected : (checkNonce instant nonce cache).1 = .error e) {other : Text}
    (held : (checkNonce instant nonce cache).2.contains other) : cache.contains other := by
  cases nonce with
  | none => cases rejected
  | some nonce =>
    rcases Nat.eq_zero_or_pos cache.halfWindowSecs with zero | positive
    · simpa [checkNonce, RotatingNonceCache.checkAndInsert, RotatingNonceCache.rotateIfNeeded,
        RotatingNonceCache.rotateLoop_of_zero zero] using held
    · simp only [checkNonce, cache.checkAndInsert_eq positive] at rejected held
      split at rejected
      next seen =>
        rw [if_pos seen] at held
        exact rotated_contains held
      next => cases rejected

section Validation

variable {securityBytes : Text} {authFn : AuthFn} {cache : RotatingNonceCache}
    {toleranceSecs now : Int}
  {instant : Nat}

theorem validateUsernameToken_error_contains {e : Abort}
    (rejected : (validateUsernameToken ext securityBytes authFn cache toleranceSecs now instant).1 = .error e)
    {nonce : Text}
    (held : (validateUsernameToken ext securityBytes authFn cache toleranceSecs now instant).2.contains nonce) :
    cache.contains nonce := by
  cases authenticated : authenticate ext securityBytes authFn toleranceSecs now with
  | error e' => rwa [validateUsernameToken_of_error authenticated] at held
  | ok token =>
    rw [validateUsernameToken_of_ok authenticated] at rejected held
    cases checked : (checkNonce instant token.nonce cache).1 with
    | ok u => rw [checked] at rejected; cases rejected
    | error e' => exact checkNonce_error_contains checked held

/-- What an accepted header shows. -/
structure Authenticated (ext : Externals) (authFn : AuthFn) (toleranceSecs now : Int)
    (instant : Nat) (before after : RotatingNonceCache) (securityBytes user password : Text)
    (token : UsernameToken) : Prop where
  parsed : parseUsernameToken ext securityBytes = .ok token
  named : token.username = user
  known : authFn user = some password
  proves : token.Proves ext password
  recent : ∃ created createdDt, token.created = some created ∧ ext.parseRfc3339 created = some createdDt ∧
    |now - createdDt| ≤ toleranceSecs * nanosPerSec
  unseen : ∀ nonce, token.nonce = some nonce → ¬ (before.rotated instant).contains nonce
  remembered : ∀ nonce, token.nonce = some nonce → nonce ∈ after.current

theorem authenticated_of_ok {user : Text}
    (accepted : (validateUsernameToken ext securityBytes authFn cache toleranceSecs now instant).1 = .ok user) :
    ∃ password token, Authenticated ext authFn toleranceSecs now instant cache
      (validateUsernameToken ext securityBytes authFn cache toleranceSecs now instant).2
      securityBytes user password token := by
  obtain ⟨token, authenticated, named, unseen⟩ := validateUsernameToken_ok_iff.mp accepted
  obtain ⟨parsed, password, known, proves, created, createdDt, hasCreated, parsedAt, fresh⟩ :=
    authenticate_ok_iff.mp authenticated
  obtain ⟨_, notOld, notAhead⟩ := (checkFreshness_ok_iff _ _ _).mp fresh
  refine ⟨password, token, parsed, named, named ▸ known, proves,
    ⟨created, createdDt, hasCreated, parsedAt, abs_le.mpr ⟨notAhead, notOld⟩⟩,
    fun nonce same => (unseen nonce same).2, fun nonce same => ?_⟩
  rw [validateUsernameToken_of_ok authenticated]
  simp only [checkNonce, same, cache.checkAndInsert_eq (unseen nonce same).1,
    if_neg (unseen nonce same).2]
  exact Finset.mem_insert_self nonce _

end Validation

/-! One call. -/

variable {svc : SoapService H} {authFn : AuthFn} {cache : RotatingNonceCache}

variable (ext cache) in
/-- The step of a required authentication, by what happens to the header. -/
theorem authorize_required {entry : DispatchEntry H} (headerChildren : List Text)
    (moment : Moment H) (required : entry.authRequired = true) (auth : svc.authFn = some authFn) :
    (findSecurityHeader ext headerChildren = none ∧
      authorize ext svc entry headerChildren cache moment =
        (senderFault "WS-Security header required but not provided".toList, cache)) ∨
    (∃ securityBytes, findSecurityHeader ext headerChildren = some securityBytes ∧
      authorize ext svc entry headerChildren cache moment =
        ((validateUsernameToken ext securityBytes authFn cache svc.timestampToleranceSecs moment.now
            moment.instant).1.map fun _ => (),
          (validateUsernameToken ext securityBytes authFn cache svc.timestampToleranceSecs moment.now
            moment.instant).2)) := by
  have both : entry.authRequired = true ∧ svc.authFn.isSome = true := ⟨required, by rw [auth]; rfl⟩
  cases found : findSecurityHeader ext headerChildren with
  | none => exact .inl ⟨rfl, by rw [authorize, if_pos both, found]⟩
  | some securityBytes =>
    refine .inr ⟨securityBytes, rfl, ?_⟩
    rw [authorize, if_pos both, found, auth]

/-- A handler runs only behind its routed entry and the authentication step. -/
theorem postHandler_invoked {table : DispatchTable H} {request : Request} {moment : Moment H}
    {inv : Invocation H}
    (ran : (postHandler ext svc table cache request moment).invoked = some inv) :
    ∃ envelope, routeRequest ext table request = .ok (envelope, inv.entry) ∧
      inv.headerChildren = envelope.headerChildren ∧
      (authorize ext svc inv.entry envelope.headerChildren cache moment).1 = .ok () ∧
      (postHandler ext svc table cache request moment).nonceCache =
        (authorize ext svc inv.entry envelope.headerChildren cache moment).2 := by
  unfold postHandler at ran ⊢
  cases routed : routeRequest ext table request with
  | error e => rw [routed] at ran; cases ran
  | ok pair =>
    obtain ⟨envelope, entry⟩ := pair
    simp only [routed] at ran ⊢
    cases step : authorize ext svc entry envelope.headerChildren cache moment with
    | mk result after =>
      cases result with
      | error e => simp only [step] at ran; cases ran
      | ok u =>
        simp only [step] at ran ⊢
        cases valid : validateRequest ext envelope.bodyElement svc.typeRegistry entry.validationType with
        | error e => simp only [valid] at ran; cases ran
        | ok u =>
          simp only [valid] at ran
          obtain rfl := Option.some.inj ran
          exact ⟨envelope, rfl, rfl, by rw [step], by rw [step]; rfl⟩

/-- A call whose authentication fails answers that failure, runs no handler and leaves
the cache as the authentication step left it. -/
theorem postHandler_unauthorized {table : DispatchTable H} {request : Request} {moment : Moment H}
    {envelope : ParsedEnvelope} {entry : DispatchEntry H} {e : Abort} {after : RotatingNonceCache}
    (routed : routeRequest ext table request = .ok (envelope, entry))
    (failed : authorize ext svc entry envelope.headerChildren cache moment = (.error e, after)) :
    postHandler ext svc table cache request moment = refused ext after e envelope.soapVersion := by
  rw [postHandler, routed]
  simp only [failed]

/-! The tables of a built service. -/

/-- The table behind an endpoint. -/
def SoapService.tableAt (svc : SoapService H) : Endpoint → Option (DispatchTable H)
  | .mount => some svc.dispatchTable
  | .path path => svc.serviceTables.lookup path

theorem serve_of_table {arrival : Arrival H} {table : DispatchTable H}
    (found : svc.tableAt arrival.endpoint = some table) :
    serve ext svc cache arrival = postHandler ext svc table cache arrival.request arrival.moment := by
  cases at_ : arrival.endpoint with
  | mount =>
    rw [at_] at found
    obtain rfl := Option.some.inj found
    simp only [serve, at_]
    rfl
  | path path =>
    rw [at_, SoapService.tableAt] at found
    simp only [serve, at_, found]
    rfl

theorem serve_invoked_table {arrival : Arrival H} {inv : Invocation H}
    (ran : (serve ext svc cache arrival).invoked = some inv) :
    ∃ table, svc.tableAt arrival.endpoint = some table := by
  cases at_ : arrival.endpoint with
  | mount => exact ⟨_, rfl⟩
  | path path =>
    cases found : svc.serviceTables.lookup path with
    | some table => exact ⟨table, found⟩
    | none =>
      simp only [serve, at_, found] at ran
      cases ran

/-- The entry made for an operation, over some of the registered handlers. -/
def EntryFor (inputs : TableInputs H) (op : CollectedOp) (entry : DispatchEntry H) : Prop :=
  ∃ handlers, dispatchEntry { inputs with handlers } op = .ok entry

theorem EntryFor.authRequired {inputs : TableInputs H} {op : CollectedOp} {entry : DispatchEntry H}
    (made : EntryFor inputs op entry) (guarded : op.name ∉ inputs.authBypass) :
    entry.authRequired = true := by
  obtain ⟨handlers, made⟩ := made
  rw [(dispatchEntry_eq_ok.mp made).2.2]
  exact decide_eq_true guarded

/-- A table of entries made over some of the registered handlers. -/
def Stocked (inputs : TableInputs H) (table : DispatchTable H) : Prop :=
  ∃ handlers ops, Sourced { inputs with handlers } ops table

theorem Stocked.route {inputs : TableInputs H} {table : DispatchTable H}
    (stocked : Stocked inputs table) {q : QName} {soapAction : Option Text}
    {entry : DispatchEntry H} (routed : route table q soapAction = .ok entry) :
    ∃ op, EntryFor inputs op entry := by
  obtain ⟨handlers, ops, sourced⟩ := stocked
  obtain ⟨op, _, made⟩ := sourced.route routed
  exact ⟨op, handlers, made⟩

theorem Stocked.route_entry {inputs : TableInputs H} {table : DispatchTable H} {request : Request}
    {envelope : ParsedEnvelope} {entry : DispatchEntry H} (stocked : Stocked inputs table)
    (routed : routeRequest ext table request = .ok (envelope, entry)) :
    ∃ op, EntryFor inputs op entry := by
  simp only [routeRequest, bind_eq_ok] at routed
  obtain ⟨_, _, _, _, q, _, found, step, same⟩ := routed
  cases same
  cases outcome : Dispatch.route table q (request.soapAction.map trimQuotes) with
  | error e => rw [outcome] at step; cases step
  | ok found =>
    rw [outcome] at step
    exact Except.ok.inj step ▸ stocked.route outcome

theorem stocked_of_build {inputs : TableInputs H} {handlers : HashMap Text H}
    {ops : List CollectedOp} {table : DispatchTable H}
    (built : liftDispatch (buildDispatchTableFromOps { inputs with handlers } ops) = .ok table) :
    Stocked inputs table := by
  unfold liftDispatch at built
  split at built
  next made => exact ⟨handlers, ops, buildDispatchTableFromOps_sourced (Except.ok.inj built ▸ made)⟩
  next => cases built

/-- Every table by path is stocked, after any number of services. -/
def AllStocked (inputs : TableInputs H) (tables : HashMap Text (DispatchTable H)) : Prop :=
  ∀ path table, tables.lookup path = some table → Stocked inputs table

theorem addService_stocked {host : Host} {inputs : TableInputs H} {name : Text}
    {acc grown : HashMap Text (DispatchTable H) × HashMap Text Text}
    (stocked : AllStocked inputs acc.1) (added : addService host inputs acc name = .ok grown) :
    AllStocked inputs grown.1 := by
  simp only [addService] at added
  split at added
  next => cases added
  next service _ =>
    obtain ⟨table, made, same⟩ := bind_eq_ok.mp added
    obtain rfl := Except.ok.inj same
    intro path found known
    by_cases here : path = servicePath host name service
    · subst here
      rw [AList.lookup_insert] at known
      exact Option.some.inj known ▸ stocked_of_build made
    · rw [AList.lookup_insert_ne here] at known
      exact stocked path found known

theorem buildTables_stocked {host : Host} {inputs : TableInputs H} {tables : Tables H}
    (built : buildTables host inputs = .ok tables) :
    Stocked inputs tables.1 ∧ AllStocked inputs tables.2.1 := by
  simp only [buildTables] at built
  split at built
  next =>
    split at built
    next => cases built
    next =>
      obtain ⟨filled, run, same⟩ := bind_eq_ok.mp built
      obtain rfl := Except.ok.inj same
      have all : AllStocked inputs filled.1 :=
        foldlM_invariant (fun acc => AllStocked inputs acc.1)
          (fun _ _ _ _ stocked added => addService_stocked stocked added)
          (fun path table known => by simp at known) run
      refine ⟨?_, all⟩
      cases first : (host.iter.values .serviceTables filled.1).head? with
      | none => exact ⟨∅, [], sourced_empty _ _ _⟩
      | some table =>
        obtain ⟨path, known⟩ := host.iter.mem_values.mp (List.mem_of_head? first)
        exact all path table known
  next =>
    obtain ⟨table, made, same⟩ := bind_eq_ok.mp built
    obtain rfl := Except.ok.inj same
    exact ⟨stocked_of_build made, fun path table known => by simp at known⟩

theorem build_eq_ok {host : Host} {fuel : Nat} {builder : ServerBuilder H}
    (built : build host fuel builder = .ok svc) :
    ∃ resolved, loadWsdl host builder fuel = .ok (svc.wsdlRaw, resolved) ∧ svc.authFn = builder.authFn ∧
      svc.timestampToleranceSecs = builder.timestampToleranceSecs ∧
      ∀ endpoint table, svc.tableAt endpoint = some table →
        Stocked (tableInputs host builder resolved) table := by
  rw [build, bind_eq_ok] at built
  obtain ⟨⟨bytes, resolved⟩, loaded, built⟩ := built
  obtain ⟨⟨mainTable, serviceTables, pathNames⟩, tables, same⟩ := bind_eq_ok.mp built
  obtain rfl := Except.ok.inj same
  obtain ⟨mainStocked, allStocked⟩ := buildTables_stocked tables
  refine ⟨resolved, loaded, rfl, rfl, fun endpoint table found => ?_⟩
  cases endpoint with
  | mount => exact Option.some.inj found ▸ mainStocked
  | path path => exact allStocked path table found

/-! The gate. -/

/-- A call that is turned away: no handler ran and the buckets hold nothing new. -/
structure TurnedAway (before : RotatingNonceCache) (served : Served H) : Prop where
  noHandler : served.invoked = none
  noNonce : ∀ nonce, served.nonceCache.contains nonce → before.contains nonce

/-- What the gate promises of one request, served with the given nonce cache. -/
structure Gated (ext : Externals) (svc : SoapService H) (inputs : TableInputs H) (authFn : AuthFn)
    (cache : RotatingNonceCache) (arrival : Arrival H) : Prop where
  sourced : ∀ inv, (serve ext svc cache arrival).invoked = some inv → ∃ op, EntryFor inputs op inv.entry
  admitted : ∀ inv op, (serve ext svc cache arrival).invoked = some inv → EntryFor inputs op inv.entry →
    op.name ∉ inputs.authBypass → ∃ securityBytes user password token,
      securityBytes ∈ inv.headerChildren ∧
      extractBodyQname ext securityBytes = .ok (.new wsseNs "Security".toList) ∧
      (validateUsernameToken ext securityBytes authFn cache svc.timestampToleranceSecs
        arrival.moment.now arrival.moment.instant).1 = .ok user ∧
      Authenticated ext authFn svc.timestampToleranceSecs arrival.moment.now arrival.moment.instant cache
        (serve ext svc cache arrival).nonceCache securityBytes user password token
  withoutHeader : ∀ table envelope entry op, svc.tableAt arrival.endpoint = some table →
    routeRequest ext table arrival.request = .ok (envelope, entry) → EntryFor inputs op entry →
    op.name ∉ inputs.authBypass → findSecurityHeader ext envelope.headerChildren = none →
      TurnedAway cache (serve ext svc cache arrival) ∧
      ∃ f, (serve ext svc cache arrival).response = some (faultResponse ext f envelope.soapVersion)
  rejected : ∀ table envelope entry op securityBytes e, svc.tableAt arrival.endpoint = some table →
    routeRequest ext table arrival.request = .ok (envelope, entry) → EntryFor inputs op entry →
    op.name ∉ inputs.authBypass → findSecurityHeader ext envelope.headerChildren = some securityBytes →
    (validateUsernameToken ext securityBytes authFn cache svc.timestampToleranceSecs
      arrival.moment.now arrival.moment.instant).1 = .error e →
      TurnedAway cache (serve ext svc cache arrival) ∧
      ∀ f, e = .fault f →
        (serve ext svc cache arrival).response = some (faultResponse ext f envelope.soapVersion)

/-- The gate at one request: its table is stocked, and the service has an auth function. -/
theorem serve_gated {inputs : TableInputs H} {arrival : Arrival H} (auth : svc.authFn = some authFn)
    (stocked : ∀ table, svc.tableAt arrival.endpoint = some table → Stocked inputs table) :
    Gated ext svc inputs authFn cache arrival where
  sourced inv ran := by
    obtain ⟨table, found⟩ := serve_invoked_table ran
    rw [serve_of_table found] at ran
    obtain ⟨envelope, routed, _⟩ := postHandler_invoked ran
    exact (stocked _ found).route_entry routed
  admitted inv op ran made guarded := by
    obtain ⟨table, found⟩ := serve_invoked_table ran
    rw [serve_of_table found] at ran ⊢
    obtain ⟨envelope, routed, sameHeaders, passed, sameCache⟩ := postHandler_invoked ran
    -- the handler ran, so the check of the header came out right
    rcases authorize_required ext cache envelope.headerChildren arrival.moment
      (made.authRequired guarded) auth with
      ⟨_, step⟩ | ⟨securityBytes, header, step⟩
    · rw [step] at passed
      cases passed
    · rw [step] at passed sameCache
      obtain ⟨user, accepted, _⟩ := map_eq_ok.mp passed
      obtain ⟨password, token, authenticated⟩ := authenticated_of_ok accepted
      obtain ⟨member, root⟩ := findSecurityHeader_eq_some header
      exact ⟨securityBytes, user, password, token, sameHeaders ▸ member, root, accepted,
        sameCache ▸ authenticated⟩
  withoutHeader table envelope entry op found routed made guarded missing := by
    rw [serve_of_table found]
    rcases authorize_required ext cache envelope.headerChildren arrival.moment
      (made.authRequired guarded) auth with
      ⟨_, step⟩ | ⟨securityBytes, header, _⟩
    · rw [postHandler_unauthorized routed step]
      exact ⟨⟨rfl, fun _ held => held⟩, _, rfl⟩
    · rw [missing] at header
      cases header
  rejected table envelope entry op securityBytes e found routed made guarded header rejected := by
    rw [serve_of_table found]
    rcases authorize_required ext cache envelope.headerChildren arrival.moment
      (made.authRequired guarded) auth with
      ⟨missing, _⟩ | ⟨securityBytes', header', step⟩
    · rw [missing] at header
      cases header
    · obtain rfl := Option.some.inj (header.symm.trans header')
      rw [rejected] at step
      rw [postHandler_unauthorized routed step]
      refine ⟨⟨rfl, fun _ held => validateUsernameToken_error_contains rejected held⟩, ?_⟩
      rintro f rfl
      rfl

/-- In every run, a handler whose entry belongs to a guarded operation runs only in a call
whose own security header was accepted; a call for such an operation without a header, or
with one that is rejected, gets a fault, runs nothing and adds no nonce. -/
theorem authentication_gate (ext : Externals) {host : Host} {fuel : Nat} {builder : ServerBuilder H}
    (built : build host fuel builder = .ok svc) (auth : builder.authFn = some authFn)
    (before : List (Arrival H)) (arrival : Arrival H) :
    ∃ resolved, loadWsdl host builder fuel = .ok (svc.wsdlRaw, resolved) ∧
      svc.timestampToleranceSecs = builder.timestampToleranceSecs ∧
      Gated ext svc (tableInputs host builder resolved) authFn (nonceCacheAfter ext svc before) arrival := by
  obtain ⟨resolved, loaded, sameAuth, sameTolerance, stocked⟩ := build_eq_ok built
  exact ⟨resolved, loaded, sameTolerance, serve_gated (sameAuth.trans auth) (stocked _)⟩

/-! A service with one guarded operation. -/

/-- A document with one operation `Ping`. -/
def pingWsdl : DomNode :=
  definitionsNode [messageNode "M" "a:Ping", portTypeNode "P" "Ping" "a:M", bindingNode "B" "a:P" "Ping"]

def pingHost : Host where
  iter := .stored
  parseXml := parsesWritten [pingWsdl]
  readFile _ := .error []
  fileLoader _ := noOpLoader
  lowercase s := s
  started := 0

def pingBuilder : ServerBuilder Text :=
  { ServerBuilder.new with
    wsdlBytes := some (nodeToString pingWsdl)
    handlers := (∅ : HashMap Text Text).insert "Ping".toList "pong".toList
    authFn := some adminOnly }

/-- A call of `Ping` with this header. -/
def pingWith (header : Text) : Request :=
  ⟨some "text/xml".toList, none, "<s:Envelope xmlns:s=\"http://schemas.xmlsoap.org/soap/envelope/\"><s:Header>".toList ++
    header ++ "</s:Header><s:Body><Ping xmlns=\"urn:a\"/></s:Body></s:Envelope>".toList⟩

def pingArrival (header : Text) : Arrival Text :=
  ⟨.mount, pingWith header, ⟨vectorCreatedDt, 0, fun _ body _ => .ok body⟩⟩

/-- The token of the digest vector with another digest. -/
def forgedToken : UsernameToken := { digestToken vectorNonce with password := "userpassword".toList }

theorem pingService_built : ∃ svc, build pingHost 1 pingBuilder = .ok svc := by
  have built : (build pingHost 1 pingBuilder).toBool = true := by decide +kernel
  cases service : build pingHost 1 pingBuilder with
  | ok svc => exact ⟨svc, rfl⟩
  | error e => rw [service] at built; cases built

theorem pingTable_stocked {svc : SoapService Text} (built : build pingHost 1 pingBuilder = .ok svc)
    {resolved : ResolvedWsdl}
    (loaded : loadWsdl pingHost pingBuilder 1 = .ok (svc.wsdlRaw, resolved)) :
    Stocked (tableInputs pingHost pingBuilder resolved) svc.dispatchTable := by
  obtain ⟨other, loaded', _, _, stocked⟩ := build_eq_ok built
  obtain ⟨_, rfl⟩ := Prod.mk.inj (Except.ok.inj (loaded.symm.trans loaded'))
  exact stocked .mount _ rfl

/-- The nonce cache that a call without a header and one with the forged token leave behind. -/
def cacheAfterTwo (svc : SoapService Text) : RotatingNonceCache :=
  nonceCacheAfter vector svc [pingArrival [], pingArrival forgedToken.header]

/-- Calls with the token, without a header and with the forged token, as the service meets them. -/
theorem pingArrivals_met : ∃ svc, build pingHost 1 pingBuilder = .ok svc ∧
    (serve vector svc (cacheAfterTwo svc) (pingArrival (digestToken vectorNonce).header)).invoked.isSome = true ∧
    (∃ found, routeRequest vector svc.dispatchTable (pingWith []) = .ok found ∧
      findSecurityHeader vector found.1.headerChildren = none) ∧
    ∃ found, routeRequest vector svc.dispatchTable (pingWith forgedToken.header) = .ok found ∧
      ∃ securityBytes, findSecurityHeader vector found.1.headerChildren = some securityBytes ∧
        (validateUsernameToken vector securityBytes adminOnly (cacheAfterTwo svc) svc.timestampToleranceSecs
          vectorCreatedDt 0).1 = senderFault authenticationFailed := by
  decide +kernel

theorem pingService_gated :
    ∃ svc inv securityBytes user password token, build pingHost 1 pingBuilder = .ok svc ∧
    (serve vector svc (cacheAfterTwo svc) (pingArrival (digestToken vectorNonce).header)).invoked = some inv ∧
    Authenticated vector adminOnly svc.timestampToleranceSecs vectorCreatedDt 0 (cacheAfterTwo svc)
      (serve vector svc (cacheAfterTwo svc) (pingArrival (digestToken vectorNonce).header)).nonceCache securityBytes
      user password token ∧
    TurnedAway (cacheAfterTwo svc) (serve vector svc (cacheAfterTwo svc) (pingArrival [])) ∧
    TurnedAway (cacheAfterTwo svc) (serve vector svc (cacheAfterTwo svc) (pingArrival forgedToken.header)) := by
  obtain ⟨svc, built, ran, ⟨bare, bareRouted, missing⟩, found, routed, securityBytes, header, rejected⟩ :=
    pingArrivals_met
  obtain ⟨inv, ran⟩ := Option.isSome_iff_exists.mp ran
  -- every clause has its premises at one of the three calls
  have gate (arrival : Arrival Text) : ∃ resolved, loadWsdl pingHost pingBuilder 1 = .ok (svc.wsdlRaw, resolved) ∧
      svc.timestampToleranceSecs = pingBuilder.timestampToleranceSecs ∧
      Gated vector svc (tableInputs pingHost pingBuilder resolved) adminOnly (cacheAfterTwo svc) arrival :=
    authentication_gate vector built rfl _ arrival
  obtain ⟨_, _, _, gated⟩ := gate (pingArrival (digestToken vectorNonce).header)
  obtain ⟨op, made⟩ := gated.sourced inv ran
  obtain ⟨securityBytes', user, password, token, _, _, _, authenticated⟩ :=
    gated.admitted inv op ran made List.not_mem_nil
  refine ⟨svc, inv, securityBytes', user, password, token, built, ran, authenticated, ?_, ?_⟩
  · obtain ⟨resolved, loaded, _, gated⟩ := gate (pingArrival [])
    obtain ⟨op, made⟩ := (pingTable_stocked built loaded).route_entry bareRouted
    exact (gated.withoutHeader _ _ _ op rfl bareRouted made List.not_mem_nil missing).1
  · obtain ⟨resolved, loaded, _, gated⟩ := gate (pingArrival forgedToken.header)
    obtain ⟨op, made⟩ := (pingTable_stocked built loaded).route_entry routed
    exact (gated.rejected _ _ _ op _ _ rfl routed made List.not_mem_nil header rejected).1

end SoapServer.Server
