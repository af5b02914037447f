import SoapServer.Server.Concurrency
import SoapServer.Wssec.NonceWindow

/-! A nonce that several requests carry at the same time.

What requests that are served at the same time do to the nonce cache is a run of its checks.
-/

set_option autoImplicit false

namespace SoapServer

open Markup (Text)

namespace Wssec.RotatingNonceCache

variable {c : RotatingNonceCache} {first second : Check} {between : List Check}

/-- Once accepted, a nonce is refused for a half window, unless others fill a bucket. -/
theorem not_accepts_again (positive : 0 < c.halfWindowSecs) (accepts : c.Accepts first)
    (same : second.nonce = first.nonce)
    (times : ∀ call ∈ between, first.instant ≤ call.instant ∧ call.instant < first.instant + c.width)
    (recent : second.instant < first.instant + c.width)
    (room : ((accepted (c.check first).2 between).erase first.nonce).card ≤ c.maxEntries) :
    ¬ (c.afterChecks (first :: between)).Accepts second := by
  obtain ⟨half, entries⟩ := check_settings positive first
  have positive' : 0 < (c.check first).2.halfWindowSecs := half ▸ positive
  have width : (c.check first).2.width = c.width := by rw [RotatingNonceCache.width, half]; rfl
  obtain ⟨half', _⟩ := afterChecks_settings positive' between
  have width' : ((c.check first).2.afterChecks between).width = c.width := by
    rw [← width, RotatingNonceCache.width, half']
    rfl
  rw [← width] at times
  obtain ⟨others, held⟩ := (holds_of_accepted positive accepts).afterChecks positive' times
    (by rwa [Finset.empty_union, entries])
  have found := (held.rotated (half' ▸ positive') (by rwa [width'])).contains
  rcases check_cases (half' ▸ positive') second with ⟨_, result⟩ | ⟨unseen, _⟩
  · show ¬ ((((c.check first).2.afterChecks between).check second).1 = .ok ())
    rw [result]
    exact fun wrong => by cases wrong
  · exact absurd (same ▸ found) unseen

end Wssec.RotatingNonceCache

namespace Server

open Wssec Wssec.RotatingNonceCache
open Dispatch Envelope
open CriticalSections (Task Event Run State ResultAt initial order inTurn)

variable {H : Type}

/-- The security header of a call for a guarded operation, and the store to check it against. -/
def Call.credentials (ext : Externals) (svc : SoapService H)
    (call : Call H) : Option (Text × AuthFn) := do
  let table ← call.table svc
  let (envelope, entry) ← (routeRequest ext table call.request).toOption
  if entry.authRequired then
    let authFn ← svc.authFn
    let securityBytes ← findSecurityHeader ext envelope.headerChildren
    some (securityBytes, authFn)
  else none

/-- The check of a nonce that a call comes to. -/
def Call.check (ext : Externals) (svc : SoapService H) (call : Call H)
    (clock : Clock) : Option Check := do
  let (securityBytes, authFn) ← call.credentials ext svc
  let token ← (authenticate ext securityBytes authFn svc.timestampToleranceSecs clock.now).toOption
  let nonce ← token.nonce
  some ⟨nonce, clock.instant⟩

/-- The call is for a guarded operation, and its token has this nonce. -/
def Call.Presents (ext : Externals) (svc : SoapService H) (call : Call H) (nonce : Text) : Prop :=
  ∃ securityBytes authFn token, call.credentials ext svc = some (securityBytes, authFn) ∧
    parseUsernameToken ext securityBytes = .ok token ∧ token.nonce = some nonce

/-- The checks that the turns of a run come to. -/
def checks {ι : Type} (ext : Externals) (svc : SoapService H) (calls : ι → Call H)
    (turns : List (ι × Clock)) : List Check :=
  turns.filterMap fun turn => (calls turn.1).check ext svc turn.2

variable {ext : Externals} {svc : SoapService H} {call : Call H} {clock : Clock}
    {cache after : RotatingNonceCache}
  {answer : Answer H}

/-! One call. -/

theorem task_cases (ext : Externals) (svc : SoapService H) (call : Call H) :
    (call.credentials ext svc = none ∧ ∃ answer, call.task ext svc = .settled answer) ∨
      ∃ envelope entry securityBytes authFn, call.credentials ext svc = some (securityBytes, authFn) ∧
        call.task ext svc = .uses (checkToken ext svc call envelope entry securityBytes authFn) := by
  unfold Call.credentials Call.task
  cases call.table svc with
  | none => exact .inl ⟨rfl, _, rfl⟩
  | some table =>
    simp only [postTask, Option.bind_eq_bind, Option.bind_some]
    cases routeRequest ext table call.request with
    | error pair => exact .inl ⟨rfl, _, rfl⟩
    | ok pair =>
      obtain ⟨envelope, entry⟩ := pair
      simp only [Except.toOption, Option.bind_some]
      cases entry.authRequired with
      | false => exact .inl ⟨rfl, _, rfl⟩
      | true =>
        cases svc.authFn with
        | none => exact .inl ⟨rfl, _, rfl⟩
        | some authFn =>
          cases findSecurityHeader ext envelope.headerChildren with
          | none => exact .inl ⟨rfl, _, rfl⟩
          | some securityBytes => exact .inr ⟨envelope, entry, securityBytes, authFn, rfl, rfl⟩

/-- A call leaves the cache as its check does. -/
theorem task_checks (done : (call.task ext svc).alone clock cache = some (answer, after)) :
    after = cache.afterChecks (call.check ext svc clock).toList := by
  rcases task_cases ext svc call with ⟨unguarded, answer', settled⟩ |
    ⟨envelope, entry, securityBytes, authFn, guarded, uses⟩
  · rw [settled] at done
    cases done
    simp only [Call.check, unguarded, Option.bind_eq_bind, Option.bind_none]
    rfl
  · rw [uses] at done
    -- whatever becomes of the call, it leaves the cache that the check left
    have left : (validateUsernameToken ext securityBytes authFn cache svc.timestampToleranceSecs
        clock.now clock.instant).2 = after := by
      cases checked : validateUsernameToken ext securityBytes authFn cache svc.timestampToleranceSecs
        clock.now clock.instant with
      | mk result left =>
        rcases checkToken_eq call envelope entry checked
            with ⟨_, none_⟩ | ⟨_, _, _, gone⟩ | ⟨_, _, gone⟩
        · cases none_.symm.trans done
        · cases gone.symm.trans done
          rfl
        · cases gone.symm.trans done
          rfl
    rw [← left]
    simp only [Call.check, guarded, Option.bind_eq_bind, Option.bind_some]
    cases authenticated : authenticate ext securityBytes authFn svc.timestampToleranceSecs clock.now with
    | error e =>
      rw [validateUsernameToken_of_error authenticated]
      rfl
    | ok token =>
      rw [validateUsernameToken_of_ok authenticated]
      simp only [Except.toOption, Option.bind_some]
      cases token.nonce <;> rfl

/-- A call with a nonce that runs a handler has had its nonce accepted. -/
theorem task_accepts {nonce : Text} (presents : call.Presents ext svc nonce)
    (done : (call.task ext svc).alone clock cache = some (answer, after))
    (ran : answer.invoked.isSome = true) :
    call.check ext svc clock = some ⟨nonce, clock.instant⟩ ∧ cache.Accepts ⟨nonce, clock.instant⟩ := by
  obtain ⟨securityBytes, authFn, token, guarded, parsed, hasNonce⟩ := presents
  rcases task_cases ext svc call with ⟨unguarded, _⟩ |
    ⟨envelope, entry, securityBytes', authFn', guarded', uses⟩
  · cases guarded.symm.trans unguarded
  · obtain ⟨rfl, rfl⟩ := Prod.mk.inj (Option.some.inj (guarded.symm.trans guarded'))
    rw [uses] at done
    -- the handler runs only behind a token that is accepted
    have accepted : ∃ user, (validateUsernameToken ext securityBytes authFn cache
        svc.timestampToleranceSecs clock.now clock.instant).1 = .ok user := by
      cases checked : validateUsernameToken ext securityBytes authFn cache svc.timestampToleranceSecs
        clock.now clock.instant with
      | mk result left =>
        rcases checkToken_eq call envelope entry checked with
          ⟨_, none_⟩ | ⟨_, _, _, gone⟩ | ⟨user, same, _⟩
        · cases none_.symm.trans done
        · cases gone.symm.trans done
          cases ran
        · exact ⟨user, same⟩
    obtain ⟨user, accepted⟩ := accepted
    obtain ⟨token', authenticated, _, unseen⟩ := validateUsernameToken_ok_iff.mp accepted
    obtain rfl := Except.ok.inj ((authenticate_ok_iff.mp authenticated).1.symm.trans parsed)
    refine ⟨?_, (cache.checkAndInsert_ok_iff nonce).mpr (unseen nonce hasNonce)⟩
    simp only [Call.check, guarded, authenticated, hasNonce, Except.toOption, Option.bind_eq_bind,
      Option.bind_some]

/-! Runs. -/

section Runs

variable {ι : Type} {calls : ι → Call H} {turns : List (ι × Clock)}

theorem checks_append (turns more : List (ι × Clock)) :
    checks ext svc calls (turns ++ more) = checks ext svc calls turns ++ checks ext svc calls more :=
  List.filterMap_append

theorem checks_cons {i : ι} {check : Check} (comes : (calls i).check ext svc clock = some check)
    (rest : List (ι × Clock)) :
    checks ext svc calls ((i, clock) :: rest) = check :: checks ext svc calls rest :=
  List.filterMap_cons_some comes

theorem inTurn_checks (done : inTurn (fun i => (calls i).task ext svc) cache turns = some after) :
    after = cache.afterChecks (checks ext svc calls turns) := by
  induction turns generalizing cache with
  | nil => exact (Option.some.inj done).symm
  | cons turn rest ih =>
    obtain ⟨⟨answer, left⟩, first, others⟩ := Option.bind_eq_some_iff.mp done
    rw [ih others, task_checks first]
    simp only [checks, List.filterMap_cons]
    cases (calls turn.1).check ext svc turn.2 <;> rfl

theorem mem_checks {check : Check} (member : check ∈ checks ext svc calls turns) :
    ∃ turn ∈ turns, check.instant = turn.2.instant := by
  obtain ⟨turn, here, found⟩ := List.mem_filterMap.mp member
  refine ⟨turn, here, ?_⟩
  obtain ⟨_, _, found⟩ := Option.bind_eq_some_iff.mp found
  obtain ⟨_, _, found⟩ := Option.bind_eq_some_iff.mp found
  obtain ⟨_, _, found⟩ := Option.bind_eq_some_iff.mp found
  rw [← Option.some.inj found]

/-- The turn of a call with this nonce, after the turns `before`, runs a handler. -/
def RunsAfter (ext : Externals) (svc : SoapService H) (calls : ι → Call H) (nonce : Text)
    (before : List (ι × Clock))
    (turn : ι × Clock) : Prop :=
  (calls turn.1).Presents ext svc nonce ∧ ∃ found answer left,
    inTurn (fun i => (calls i).task ext svc) svc.nonceCache before = some found ∧
    ((calls turn.1).task ext svc).alone turn.2 found = some (answer, left) ∧ answer.invoked.isSome = true

variable {nonce : Text} {before between rest : List (ι × Clock)} {first second : ι × Clock}

/-- Two turns that run handlers for one nonce are a half window apart, or more nonces than a bucket
holds are accepted between them. -/
theorem RunsAfter.apart (positive : 0 < svc.nonceCache.halfWindowSecs)
    (times : ((before ++ first :: (between ++ second :: rest)).map fun turn => turn.2.instant).Pairwise
    (· ≤ ·))
    (one : RunsAfter ext svc calls nonce before first)
    (two : RunsAfter ext svc calls nonce (before ++ first :: between) second) :
    first.2.instant + svc.nonceCache.width ≤ second.2.instant ∨ svc.nonceCache.maxEntries <
      ((accepted (nonceCacheAfter ext svc (arrivals calls (before ++ [first])))
        (checks ext svc calls between)).erase
        nonce).card := by
  obtain ⟨presents, found, answer, left, reached, done, ran⟩ := one
  obtain ⟨presents', found', answer', left', reached', done', ran'⟩ := two
  obtain ⟨comes, accepts⟩ := task_accepts presents done ran
  obtain ⟨_, accepts'⟩ := task_accepts presents' done' ran'
  have ends : nonceCacheAfter ext svc (arrivals calls (before ++ [first])) =
      (found.check ⟨nonce, first.2.instant⟩).2 := by
    apply inTurn_arrivals
    rw [CriticalSections.inTurn_append, reached, Option.bind_some, inTurn, done, task_checks done,
      comes]
    rfl
  -- the second turn finds the cache that the checks in between leave
  have again : found' = found.afterChecks (⟨nonce, first.2.instant⟩ :: checks ext svc calls between) := by
    rw [inTurn_checks reached', inTurn_checks reached, checks_append, checks_cons comes]
    exact List.foldl_append
  obtain ⟨half, entries⟩ : found.halfWindowSecs = svc.nonceCache.halfWindowSecs ∧
      found.maxEntries = svc.nonceCache.maxEntries := by
    rw [inTurn_checks reached]
    exact afterChecks_settings positive (checks ext svc calls before)
  have width : found.width = svc.nonceCache.width := by
    rw [RotatingNonceCache.width, half]
    rfl
  rw [ends, ← width, ← entries]
  -- nearer than that, with few nonces in between, the second would have been refused
  by_contra! both
  obtain ⟨recent, room⟩ := both
  have near (check : Check) (member : check ∈ checks ext svc calls between) :
      first.2.instant ≤ check.instant ∧ check.instant < first.2.instant + found.width := by
    obtain ⟨turn, here, instant⟩ := mem_checks member
    have listed : turn.2.instant ∈ between.map fun turn => turn.2.instant :=
      List.mem_map.mpr ⟨turn, here, rfl⟩
    rw [List.map_append, List.map_cons, List.map_append, List.map_cons] at times
    obtain ⟨later, rest⟩ := List.pairwise_cons.mp (List.pairwise_append.mp times).2.1
    rw [instant]
    refine ⟨later _ (List.mem_append_left _ listed), ?_⟩
    exact ((List.pairwise_append.mp rest).2.2 _ listed _ (.head _)).trans_lt recent
  rw [again] at accepts'
  revert accepts'
  exact not_accepts_again (half ▸ positive) accepts rfl near recent room

/-- Of two requests with one nonce, whatever else is served with them, the handlers run at least a
half window apart, unless more other nonces than a bucket holds are accepted between them. -/
theorem replays_excluded [DecidableEq ι] (ext : Externals) {svc : SoapService H}
    (calls : ι → Call H) {since : Clock}
    {events : List (Event ι Clock)} {s : State ι RotatingNonceCache Clock (Answer H)} {i j : ι}
    {nonce : Text}
    (positive : 0 < svc.nonceCache.halfWindowSecs)
    (run : Run (fun i => (calls i).task ext svc) (initial svc.nonceCache since) events s)
    (other : i ≠ j) (presents : ∀ k, k = i ∨ k = j → (calls k).Presents ext svc nonce)
    (ran : ∀ k, k = i ∨ k = j → ∃ answer, (s.stage k).result = some answer ∧
    answer.invoked.isSome = true) :
    ∃ before first between second after, order since events =
      before ++ first :: (between ++ second :: after) ∧
      (first.1 = i ∧ second.1 = j ∨ first.1 = j ∧ second.1 = i) ∧
      (first.2.instant + svc.nonceCache.width ≤ second.2.instant ∨
        svc.nonceCache.maxEntries <
          ((accepted (nonceCacheAfter ext svc (arrivals calls (before ++ [first])))
            (checks ext svc calls between)).erase
            nonce).card) := by
  -- the run is one of turns after another, at times that do not decrease
  obtain ⟨_, times, _, results, _⟩ := CriticalSections.linearizable run
  have instants : ((order since events).map fun turn => turn.2.instant).Pairwise (· ≤ ·) := by
    have all := (List.pairwise_cons.mp times).2.map Clock.instant fun _ _ later => later
    rwa [List.map_map] at all
  have turn (k : ι) (ofTwo : k = i ∨ k = j) : ∃ before clock after,
    order since events = before ++ (k, clock) :: after ∧
      RunsAfter ext svc calls nonce before (k, clock) := by
    obtain ⟨answer, got, invoked⟩ := ran k ofTwo
    obtain ⟨before, clock, after, found, left, split, reached, done⟩ := results k answer got
    exact ⟨before, clock, after, split, presents k ofTwo, found, answer, left, reached, done,
      invoked⟩
  obtain ⟨before, early, after, split, one⟩ := turn i (.inl rfl)
  obtain ⟨before', late, after', split', two⟩ := turn j (.inr rfl)
  -- the turns of the two are two places of one order
  have halves := List.append_eq_append_iff.mp (split.symm.trans split')
  rcases halves with ⟨_ | ⟨_, gap⟩, rfl, same⟩ | ⟨_ | ⟨_, gap⟩, rfl, same⟩
  · exact absurd (Prod.mk.inj (List.cons.inj same).1).1 other
  · obtain ⟨rfl, rfl⟩ := List.cons.inj same
    exact ⟨before, _, gap, _, after', split, .inl ⟨rfl, rfl⟩,
      one.apart positive (split ▸ instants) two⟩
  · exact absurd (Prod.mk.inj (List.cons.inj same).1).1.symm other
  · obtain ⟨rfl, rfl⟩ := List.cons.inj same
    exact ⟨before', _, gap, _, after, split', .inr ⟨rfl, rfl⟩,
      two.apart positive (split' ▸ instants) one⟩

end Runs

/-! The call of `Ping` again, as long after the first time as its token is fresh. -/

def latePingClock : Clock := ⟨vectorCreatedDt + 300 * nanosPerSec, 300 * nanosPerSec⟩

def latePingEvents : List (Event Bool Clock) :=
  [.arrive true, .enter true, .use true, .leave true, .tick latePingClock, .arrive false,
    .enter false, .use false]

/-- The nonce that a call presents. -/
def Call.nonce (ext : Externals) (svc : SoapService H) (call : Call H) : Option Text := do
  let (securityBytes, _) ← call.credentials ext svc
  let token ← (parseUsernameToken ext securityBytes).toOption
  token.nonce

theorem presents_of_nonce {nonce : Text} (found : call.nonce ext svc = some nonce) :
    call.Presents ext svc nonce := by
  obtain ⟨⟨securityBytes, authFn⟩, guarded, found⟩ := Option.bind_eq_some_iff.mp found
  obtain ⟨token, read, hasNonce⟩ := Option.bind_eq_some_iff.mp found
  refine ⟨securityBytes, authFn, token, guarded, ?_, hasNonce⟩
  cases parsed : parseUsernameToken ext securityBytes with
  | error e => simp [parsed, Except.toOption] at read
  | ok token' => simpa [parsed, Except.toOption] using read

theorem pings_replayed : ∃ svc s, build pingHost 1 pingBuilder = .ok svc ∧
    Run (fun i => (pings i).task vector svc) (initial svc.nonceCache pingClock) latePingEvents s ∧
    ∃ before first between second after,
      order pingClock latePingEvents = before ++ first :: (between ++ second :: after) ∧
      (first.1 = true ∧ second.1 = false ∨ first.1 = false ∧ second.1 = true) ∧
      (first.2.instant + svc.nonceCache.width ≤ second.2.instant ∨
        svc.nonceCache.maxEntries <
          ((accepted (nonceCacheAfter vector svc (arrivals pings (before ++ [first])))
            (checks vector svc pings between)).erase
            vectorNonce).card) := by
  obtain ⟨svc, built⟩ := pingService_built
  obtain ⟨access, wants⟩ := pings_use built
  have both : (build pingHost 1 pingBuilder).toOption.bind (pingsRun latePingClock) =
      some (true, true) := by decide +kernel
  obtain ⟨answer, cache, answer', cache', first, second, ran, ran'⟩ := pings_checked built both
  rw [wants] at first second
  have named : (build pingHost 1 pingBuilder).toOption.bind (fun svc => (pings true).nonce vector svc) =
      some vectorNonce := by
    decide +kernel
  rw [built, Except.toOption, Option.bind_some] at named
  have positive : 0 < svc.nonceCache.halfWindowSecs := by
    rw [(build_settings built).1]
    decide
  have start : Run (fun i => (pings i).task vector svc) (initial svc.nonceCache pingClock) [] _ :=
    .nil
  have waited : pingClock ≤ latePingClock := show 0 ≤ 300 * nanosPerSec by decide
  have early := ((start.snoc (.arrive (i := true) rfl)).snoc
      (.enter (i := true) rfl (wants true) rfl)).snoc
    (.use (i := true) rfl (wants true) first)
  have later := (early.snoc (.leave (i := true) rfl)).snoc (.tick waited)
  have run := ((later.snoc (.arrive (i := false) rfl)).snoc
      (.enter (i := false) rfl (wants false) rfl)).snoc
    (.use (i := false) rfl (wants false) second)
  refine ⟨svc, _, built, run, replays_excluded vector pings positive run (i := true) (j := false)
    (by decide)
    (fun _ _ => presents_of_nonce named) ?_⟩
  rintro k (rfl | rfl)
  · exact ⟨answer, rfl, ran⟩
  · exact ⟨answer', rfl, ran'⟩

end Server

end SoapServer
