import SoapServer.Library.CriticalSections
import SoapServer.Server.Answers

/-! Requests that are served at the same time.

A handler works by itself until it takes the lock of the nonce cache. Under the lock it reads the
clocks and checks its token; then it gives the lock back and goes on by itself.
-/

set_option autoImplicit false

namespace SoapServer.Server

open Markup (Text)
open Wssec (RotatingNonceCache validateUsernameToken)
open Dispatch Envelope
open CriticalSections (Task Event Run State ResultAt Precedes initial order inTurn)

variable {H : Type}

/-- What the clocks show. UTC may be set back. -/
structure Clock where
  now : Int
  instant : Nat

instance : Preorder Clock := Preorder.lift Clock.instant

/-- A request to an endpoint, and how handlers answer it. -/
structure Call (H : Type) where
  endpoint : Endpoint
  request : Request
  respond : H → Text → List Text → Except SoapFault Text

/-- The call as it is served alone. -/
def Call.arriving (call : Call H) (clock : Clock) : Arrival H :=
  ⟨call.endpoint, call.request, ⟨clock.now, clock.instant, call.respond⟩⟩

/-- What a client sees of a call, and the handler that ran. -/
structure Answer (H : Type) where
  response : Option Response
  invoked : Option (Invocation H)

def Served.answer (served : Served H) : Answer H := ⟨served.response, served.invoked⟩

def giveUp (ext : Externals) (e : Abort) (version : SoapVersion) : Answer H where
  response :=
    match e with
    | .fault f => some (faultResponse ext f version)
    | .panic | .hang => none
  invoked := none

/-- Steps 6 to 8. -/
def proceed (ext : Externals) (svc : SoapService H) (envelope : ParsedEnvelope)
    (entry : DispatchEntry H) (respond : H → Text → List Text → Except SoapFault Text) : Answer H :=
  match validateRequest ext envelope.bodyElement svc.typeRegistry entry.validationType with
  | .error e => giveUp ext e envelope.soapVersion
  | .ok () =>
    { response :=
        match respond entry.handler envelope.bodyElement envelope.headerChildren with
        | .ok bytes =>
          some ⟨200, responseContentType envelope.soapVersion,
            serializeEnvelope bytes envelope.soapVersion⟩
        | .error f => some (faultResponse ext f envelope.soapVersion)
      invoked := some ⟨entry, envelope.bodyElement, envelope.headerChildren⟩ }

/-- The check of a token, and what comes after it. The lock is never given back by a check that does
not end. -/
def checkToken (ext : Externals) (svc : SoapService H) (call : Call H) (envelope : ParsedEnvelope)
    (entry : DispatchEntry H) (securityBytes : Text) (authFn : AuthFn) (clock : Clock)
    (nonceCache : RotatingNonceCache) :
    Option (Answer H × RotatingNonceCache) :=
  match validateUsernameToken ext securityBytes authFn nonceCache svc.timestampToleranceSecs clock.now
    clock.instant with
  | (.error .hang, _) => none
  -- a panic drops the guard of the lock as a return does
  | (.error e, nonceCache) => some (giveUp ext e envelope.soapVersion, nonceCache)
  | (.ok _, nonceCache) => some (proceed ext svc envelope entry call.respond, nonceCache)

/-- The pipeline of both POST handlers. The lock is taken for the check of a token alone. -/
def postTask (ext : Externals) (svc : SoapService H) (table : DispatchTable H) (call : Call H) :
    Task RotatingNonceCache Clock (Answer H) :=
  match routeRequest ext table call.request with
  | .error (e, version) => .settled (giveUp ext e version)
  | .ok (envelope, entry) =>
    if entry.authRequired ∧ svc.authFn.isSome then
      match findSecurityHeader ext envelope.headerChildren with
      | none =>
        .settled (faulted envelope "WS-Security header required but not provided".toList)
      | some securityBytes =>
        match svc.authFn with
        | none => .settled (faulted envelope
            "Authentication required but no credential store configured".toList)
        | some authFn => .uses (checkToken ext svc call envelope entry securityBytes authFn)
    else .settled (proceed ext svc envelope entry call.respond)
where
  faulted (envelope : ParsedEnvelope) (reason : Text) : Answer H :=
    ⟨some (faultResponse ext (.sender reason) envelope.soapVersion), none⟩

/-- A request for a path without a route reaches no handler. -/
def Call.table (svc : SoapService H) (call : Call H) : Option (DispatchTable H) :=
  match call.endpoint with
  | .mount => some svc.dispatchTable
  | .path path => svc.serviceTables.lookup path

/-- What a call does with the nonce cache of its service. -/
def Call.task (ext : Externals) (svc : SoapService H) (call : Call H) :
    Task RotatingNonceCache Clock (Answer H) :=
  match call.table svc with
  | some table => postTask ext svc table call
  | none => .settled ⟨none, none⟩

/-- The arrivals that the turns of a run amount to. -/
def arrivals {ι : Type} (calls : ι → Call H) (turns : List (ι × Clock)) : List (Arrival H) :=
  turns.map fun turn => (calls turn.1).arriving turn.2

variable {ext : Externals} {svc : SoapService H} {table : DispatchTable H} {call : Call H}
    {clock : Clock}
  {cache after : RotatingNonceCache} {answer : Answer H}

/-! A task that is alone does what the handler does. -/

theorem giveUp_answer (ext : Externals) (cache : RotatingNonceCache) (e : Abort)
    (version : SoapVersion) :
    (refused (H := H) ext cache e version).answer = giveUp ext e version := by
  cases e <;> rfl

/-- The handler, where the authentication step is behind it. -/
theorem postHandler_answer {moment : Moment H} {envelope : ParsedEnvelope} {entry : DispatchEntry H}
    (routed : routeRequest ext table call.request = .ok (envelope, entry))
    (authorized : authorize ext svc entry envelope.headerChildren cache moment = (.ok (), after)) :
    (postHandler ext svc table cache call.request moment).answer =
      proceed ext svc envelope entry moment.respond ∧
      (postHandler ext svc table cache call.request moment).nonceCache = after := by
  rw [postHandler, routed]
  simp only [authorized, proceed]
  cases validateRequest ext envelope.bodyElement svc.typeRegistry entry.validationType with
  | error e => exact ⟨giveUp_answer ext after e envelope.soapVersion, rfl⟩
  | ok u => exact ⟨rfl, rfl⟩

/-- A check that ends goes on as its result says. -/
theorem checkToken_eq (call : Call H) (envelope : ParsedEnvelope) (entry : DispatchEntry H)
    {securityBytes : Text}
    {authFn : AuthFn} {result : Outcome Text}
    (checked : validateUsernameToken ext securityBytes authFn cache svc.timestampToleranceSecs clock.now
    clock.instant =
      (result, after)) :
    (result = .error .hang ∧ checkToken ext svc call envelope entry securityBytes authFn clock
      cache = none) ∨
      (∃ e, result = .error e ∧ e ≠ .hang ∧
        checkToken ext svc call envelope entry securityBytes authFn clock cache =
        some (giveUp ext e envelope.soapVersion, after)) ∨
      ∃ user, result = .ok user ∧ checkToken ext svc call envelope entry securityBytes authFn clock cache =
        some (proceed ext svc envelope entry call.respond, after) := by
  unfold checkToken
  rw [checked]
  cases result with
  | ok user => exact .inr (.inr ⟨user, rfl, rfl⟩)
  | error e =>
    cases e with
    | hang => exact .inl ⟨rfl, rfl⟩
    | fault f | panic => exact .inr (.inl ⟨_, rfl, by simp, rfl⟩)

/-- A call is settled before it comes to a token, or its task is the check of one. -/
theorem postTask_cases (ext : Externals) (svc : SoapService H) (table : DispatchTable H)
    (call : Call H) :
    (∃ answer, postTask ext svc table call = .settled answer ∧
      ∀ cache clock, (postHandler ext svc table cache call.request
        (call.arriving clock).moment).answer = answer ∧
        (postHandler ext svc table cache call.request (call.arriving clock).moment).nonceCache = cache) ∨
      ∃ envelope entry securityBytes authFn, routeRequest ext table call.request = .ok (envelope, entry) ∧
        entry.authRequired = true ∧ svc.authFn = some authFn ∧
        findSecurityHeader ext envelope.headerChildren = some securityBytes ∧
        postTask ext svc table call =
          .uses (checkToken ext svc call envelope entry securityBytes authFn) := by
  unfold postTask
  cases routed : routeRequest ext table call.request with
  | error pair =>
    obtain ⟨e, version⟩ := pair
    refine .inl ⟨_, rfl, fun cache clock => ?_⟩
    rw [postHandler, routed]
    exact ⟨giveUp_answer ext cache e version, rfl⟩
  | ok pair =>
    obtain ⟨envelope, entry⟩ := pair
    -- only a guarded operation of a service with an auth function comes to a token
    by_cases guarded : entry.authRequired = true ∧ svc.authFn.isSome = true
    · simp only [if_pos guarded]
      obtain ⟨required, hasAuth⟩ := guarded
      obtain ⟨authFn, auth⟩ := Option.isSome_iff_exists.mp hasAuth
      cases found : findSecurityHeader ext envelope.headerChildren with
      | none =>
        refine .inl ⟨_, rfl, fun cache clock => ?_⟩
        have step : authorize ext svc entry envelope.headerChildren cache (call.arriving clock).moment =
            (senderFault "WS-Security header required but not provided".toList, cache) := by
          simp only [authorize, required, auth, found, Option.isSome_some, and_self, if_true]
        rw [postHandler_unauthorized routed step]
        exact ⟨rfl, rfl⟩
      | some securityBytes =>
        refine .inr ⟨envelope, entry, securityBytes, authFn, rfl, required, auth, found, ?_⟩
        simp only [auth]
    · simp only [if_neg guarded]
      refine .inl ⟨_, rfl, fun cache clock => ?_⟩
      have skipped : authorize ext svc entry envelope.headerChildren cache
          (call.arriving clock).moment = (.ok (), cache) :=
        if_neg guarded
      exact postHandler_answer routed skipped

theorem postTask_alone (done : (postTask ext svc table call).alone clock cache = some (answer, after)) :
    (postHandler ext svc table cache call.request (call.arriving clock).moment).answer = answer ∧
      (postHandler ext svc table cache call.request (call.arriving clock).moment).nonceCache = after := by
  rcases postTask_cases ext svc table call with
    ⟨answer', settled, served⟩ | ⟨envelope, entry, securityBytes, authFn, routed, required, auth,
      found, uses⟩
  · rw [settled] at done
    cases done
    exact served cache clock
  · rw [uses] at done
    cases checked : validateUsernameToken ext securityBytes authFn cache svc.timestampToleranceSecs
      clock.now
        clock.instant with
    | mk result left =>
      have step : authorize ext svc entry envelope.headerChildren cache (call.arriving clock).moment =
          (result.map fun _ => (), left) := by
        simp only [authorize, required, auth, found, Option.isSome_some, and_self, if_true,
          Call.arriving, checked]
      rcases checkToken_eq call envelope entry checked with
        ⟨_, none_⟩ | ⟨e, rfl, _, gone⟩ | ⟨user, rfl, gone⟩
      · cases none_.symm.trans done
      · cases gone.symm.trans done
        rw [postHandler_unauthorized routed step]
        exact ⟨giveUp_answer ext after e envelope.soapVersion, rfl⟩
      · cases gone.symm.trans done
        exact postHandler_answer routed step

theorem serve_eq (ext : Externals) (svc : SoapService H) (cache : RotatingNonceCache)
    (call : Call H) (clock : Clock) :
    serve ext svc cache (call.arriving clock) =
      match call.table svc with
      | some table => postHandler ext svc table cache call.request (call.arriving clock).moment
      | none => ⟨none, none, cache⟩ := by
  obtain ⟨endpoint, request, respond⟩ := call
  cases endpoint with
  | mount => rfl
  | path path =>
    simp only [serve, Call.arriving, Call.table]
    cases svc.serviceTables.lookup path <;> rfl

theorem task_alone (done : (call.task ext svc).alone clock cache = some (answer, after)) :
    (serve ext svc cache (call.arriving clock)).answer = answer ∧
      (serve ext svc cache (call.arriving clock)).nonceCache = after := by
  rw [serve_eq]
  unfold Call.task at done
  cases reached : call.table svc with
  | none =>
    rw [reached] at done
    cases done
    exact ⟨rfl, rfl⟩
  | some table =>
    rw [reached] at done
    exact postTask_alone done

/-- The task of a call that comes to the lock. -/
theorem task_uses {access : Clock → RotatingNonceCache → Option (Answer H × RotatingNonceCache)}
    (uses : call.task ext svc = .uses access) :
    ∃ table envelope entry securityBytes authFn, call.table svc = some table ∧
      routeRequest ext table call.request = .ok (envelope, entry) ∧ entry.authRequired = true ∧
      svc.authFn = some authFn ∧ findSecurityHeader ext envelope.headerChildren = some securityBytes ∧
      access = checkToken ext svc call envelope entry securityBytes authFn := by
  unfold Call.task at uses
  cases reached : call.table svc with
  | none =>
    rw [reached] at uses
    cases uses
  | some table =>
    rw [reached] at uses
    rcases postTask_cases ext svc table call with
      ⟨answer, settled, _⟩ | ⟨envelope, entry, securityBytes, authFn, routed, required, auth,
        found, checks⟩
    · cases settled.symm.trans uses
    · obtain rfl := CriticalSections.Task.uses.inj (checks.symm.trans uses)
      exact ⟨table, envelope, entry, securityBytes, authFn, rfl, routed, required, auth, found, rfl⟩

section Runs

variable {ι : Type} {calls : ι → Call H}

theorem inTurn_arrivals {turns : List (ι × Clock)}
    (done : inTurn (fun i => (calls i).task ext svc) cache turns = some after) :
    (arrivals calls turns).foldl (fun cache arrival => (serve ext svc cache arrival).nonceCache) cache =
      after := by
  induction turns generalizing cache with
  | nil => exact Option.some.inj done
  | cons turn rest ih =>
    obtain ⟨⟨answer, left⟩, first, rest⟩ := Option.bind_eq_some_iff.mp done
    rw [arrivals, List.map_cons, List.foldl_cons, (task_alone first).2]
    exact ih rest

/-- Requests that are served at the same time, in any order of their steps and with any of them
dropped by their clients, are answered as they would be one after the other: at the instants at
which their tokens were checked, and with a request that was answered before another arrived in
front of that one. -/
theorem served_in_turn [DecidableEq ι] (ext : Externals) (svc : SoapService H) (calls : ι → Call H)
    {since : Clock}
    {events : List (Event ι Clock)} {s : State ι RotatingNonceCache Clock (Answer H)}
    (run : Run (fun i => (calls i).task ext svc) (initial svc.nonceCache since) events s) :
    ((order since events).map Prod.fst).Nodup ∧
      (since.instant :: (order since events).map fun turn => turn.2.instant).Pairwise (· ≤ ·) ∧
      s.shared = nonceCacheAfter ext svc (arrivals calls (order since events)) ∧
      (∀ i answer, (s.stage i).result = some answer → ∃ before clock after,
        order since events = before ++ (i, clock) :: after ∧
        (serve ext svc (nonceCacheAfter ext svc (arrivals calls before))
          ((calls i).arriving clock)).answer = answer) ∧
      ∀ done more i j, events = done ++ .arrive j :: more → .answer i ∈ done →
        Precedes (order since events) i j := by
  obtain ⟨nodup, times, shared, results, real⟩ := CriticalSections.linearizable run
  refine ⟨nodup, ?_, (inTurn_arrivals shared).symm, fun i answer got => ?_, real⟩
  · have instants := times.map Clock.instant fun _ _ later => later
    rw [List.map_cons, List.map_map] at instants
    exact instants
  · obtain ⟨before, clock, after, found, left, split, before_, done⟩ := results i answer got
    refine ⟨before, clock, after, split, ?_⟩
    rw [nonceCacheAfter, inTurn_arrivals before_]
    exact (task_alone done).1

end Runs

/-! One call of `Ping` that comes twice. -/

def pings (_ : Bool) : Call Text := ⟨.mount, pingRequest, pongMoment.respond⟩

def pingClock : Clock := ⟨Wssec.vectorCreatedDt, 0⟩

/-- Both are there before one of them is checked, and the later one is checked first. -/
def pingEvents : List (Event Bool Clock) :=
  [.arrive false, .arrive true, .enter true, .use true, .leave true, .enter false, .use false,
    .leave false]

def pingTurns : List (Bool × Clock) := [(true, pingClock), (false, pingClock)]

/-- Whether each of two checks, the second one at `again`, is followed by the handler. -/
def pingsRun (again : Clock) (svc : SoapService Text) : Option (Bool × Bool) := do
  let (answer, cache) ← ((pings true).task Wssec.vector svc).alone pingClock svc.nonceCache
  let (answer', _) ← ((pings true).task Wssec.vector svc).alone again cache
  some (answer.invoked.isSome, answer'.invoked.isSome)

theorem pings_checked {svc : SoapService Text} (built : build pingHost 1 pingBuilder = .ok svc)
    {again : Clock}
    {ran ran' : Bool} (decided : (build pingHost 1 pingBuilder).toOption.bind (pingsRun again) =
    some (ran, ran')) :
    ∃ answer cache answer' cache', ((pings true).task Wssec.vector svc).alone pingClock svc.nonceCache =
      some (answer, cache) ∧
      ((pings true).task Wssec.vector svc).alone again cache = some (answer', cache') ∧
      answer.invoked.isSome = ran ∧ answer'.invoked.isSome = ran' := by
  rw [built, Except.toOption, Option.bind_some, pingsRun] at decided
  obtain ⟨⟨answer, cache⟩, first, decided⟩ := Option.bind_eq_some_iff.mp decided
  obtain ⟨⟨answer', cache'⟩, second, decided⟩ := Option.bind_eq_some_iff.mp decided
  obtain ⟨same, same'⟩ := Prod.mk.inj (Option.some.inj decided)
  exact ⟨answer, cache, answer', cache', first, second, same, same'⟩

/-- Checked twice at once, the call runs its handler once. -/
theorem pings_once : (build pingHost 1 pingBuilder).toOption.bind (pingsRun pingClock) =
    some (true, false) := by
  decide +kernel

theorem pings_use {svc : SoapService Text} (built : build pingHost 1 pingBuilder = .ok svc) :
    ∃ access, ∀ i, (pings i).task Wssec.vector svc = .uses access := by
  obtain ⟨answer, cache, answer', cache', first, second, ran, silent⟩ :=
    pings_checked built pings_once
  cases task : (pings true).task Wssec.vector svc with
  | settled result =>
    -- both would be answered alike
    rw [task] at first second
    cases first
    cases second
    cases ran.symm.trans silent
  | uses access => exact ⟨access, fun _ => task⟩

theorem pings_served_in_turn : ∃ svc s, build pingHost 1 pingBuilder = .ok svc ∧
    Run (fun i => (pings i).task Wssec.vector svc) (initial svc.nonceCache pingClock) pingEvents s ∧
    s.shared = nonceCacheAfter Wssec.vector svc (arrivals pings pingTurns) := by
  obtain ⟨svc, built⟩ := pingService_built
  obtain ⟨access, wants⟩ := pings_use built
  obtain ⟨answer, cache, answer', cache', first, second, _⟩ := pings_checked built pings_once
  rw [wants] at first second
  have start : Run (fun i => (pings i).task Wssec.vector svc) (initial svc.nonceCache pingClock)
      [] _ := .nil
  have arrived := (start.snoc (.arrive (i := false) rfl)).snoc (.arrive (i := true) rfl)
  have later := ((arrived.snoc (.enter (i := true) rfl (wants true) rfl)).snoc
      (.use (i := true) rfl (wants true) first)).snoc
    (.leave (i := true) rfl)
  have run := ((later.snoc (.enter (i := false) rfl (wants false) rfl)).snoc
    (.use (i := false) rfl (wants false) second)).snoc (.leave (i := false) rfl)
  exact ⟨svc, _, built, run, (served_in_turn Wssec.vector svc pings run).2.2.1⟩

end SoapServer.Server
