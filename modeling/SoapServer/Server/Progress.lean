import SoapServer.Server.Concurrency
import SoapServer.Wssec.NonceWindow

/-! Every request that is served can be answered, whatever others are served with it, where the
window of the nonce cache has some length.
-/

set_option autoImplicit false

namespace SoapServer

open Markup (Text)
open Loops (bind_eq_error)

variable {ext : Externals}

/-- A call that does not run for ever. -/
def Ends {α : Type} (x : Outcome α) : Prop := x ≠ .error .hang

theorem Returns.ends {α : Type} {x : Outcome α} (returns : Returns x) : Ends x := by
  intro hangs
  obtain ⟨f, wrong, _⟩ := returns _ hangs
  cases wrong

theorem Ends.bind {α β : Type} {x : Outcome α} {f : α → Outcome β} (first : Ends x)
    (then_ : ∀ a, Ends (f a)) :
    Ends (x >>= f) := by
  intro hangs
  rcases bind_eq_error.mp hangs with failed | ⟨a, _, failed⟩
  · exact first failed
  · exact then_ a failed

theorem ends_ok {α : Type} (a : α) : Ends (.ok a : Outcome α) := Returns.ends (returns_ok a)

theorem ends_senderFault {α : Type} (reason : Text) : Ends (senderFault reason : Outcome α) :=
  Returns.ends (returns_senderFault reason)

namespace Wssec

theorem durationSeconds_ends (secs : Int) : Ends (durationSeconds secs) := by
  unfold durationSeconds
  split
  · exact ends_ok _
  · rintro ⟨⟩

theorem checkFreshness_ends (now created toleranceSecs : Int) :
    Ends (checkFreshness now created toleranceSecs) := by
  apply (durationSeconds_ends toleranceSecs).bind
  intro latest
  split
  · exact ends_senderFault _
  · apply (durationSeconds_ends (-toleranceSecs)).bind
    intro earliest
    split
    · exact ends_senderFault _
    · exact ends_ok _

theorem verifyPassword_ends (token : UsernameToken) (password : Text) (toleranceSecs now : Int) :
    Ends (verifyPassword ext token password toleranceSecs now) := by
  have okOr {α : Type} (reason : Text) (o : Option α) : Ends (okOr reason o) :=
    Returns.ends (okOr_returns reason o)
  have parse (created : Text) : Ends (parseCreated ext created) :=
    Returns.ends (parseCreated_returns created)
  unfold verifyPassword
  cases token.passwordType with
  | digest =>
    apply (okOr _ _).bind
    intro nonce
    apply (okOr _ _).bind
    intro created
    apply (Returns.ends (computeDigest_returns nonce created password)).bind
    intro expected
    split
    · exact ends_senderFault _
    · exact (parse created).bind fun createdDt => checkFreshness_ends now createdDt toleranceSecs
  | text =>
    apply (okOr _ _).bind
    intro created
    apply (parse created).bind
    intro createdDt
    apply (checkFreshness_ends now createdDt toleranceSecs).bind
    intro _
    split
    · exact ends_senderFault _
    · exact ends_ok _

theorem authenticate_ends (securityBytes : Text) (getPassword : Text → Option Text)
    (toleranceSecs now : Int) :
    Ends (authenticate ext securityBytes getPassword toleranceSecs now) := by
  apply (Returns.ends (parseUsernameToken_returns securityBytes)).bind
  intro token
  apply (Returns.ends (okOr_returns _ _)).bind
  intro password
  exact (verifyPassword_ends token password toleranceSecs now).bind fun _ => ends_ok token

variable {cache : RotatingNonceCache}

theorem checkNonce_halfWindowSecs (positive : 0 < cache.halfWindowSecs) (instant : Nat)
    (nonce : Option Text) :
    (checkNonce instant nonce cache).2.halfWindowSecs = cache.halfWindowSecs := by
  cases nonce with
  | none => rfl
  | some nonce => exact (RotatingNonceCache.check_settings positive ⟨nonce, instant⟩).1

/-- A validation ends, and keeps the window of the cache. -/
theorem validateUsernameToken_ends (ext : Externals) (positive : 0 < cache.halfWindowSecs)
    (securityBytes : Text)
    (getPassword : Text → Option Text) (toleranceSecs now : Int) (instant : Nat) :
    Ends (validateUsernameToken ext securityBytes getPassword cache toleranceSecs now instant).1 ∧
      (validateUsernameToken ext securityBytes getPassword cache toleranceSecs now
        instant).2.halfWindowSecs =
        cache.halfWindowSecs := by
  cases authenticated : authenticate ext securityBytes getPassword toleranceSecs now with
  | error e =>
    rw [validateUsernameToken_of_error authenticated]
    refine ⟨?_, rfl⟩
    rintro ⟨⟩
    exact authenticate_ends securityBytes getPassword toleranceSecs now authenticated
  | ok token =>
    rw [validateUsernameToken_of_ok authenticated]
    refine ⟨?_, checkNonce_halfWindowSecs positive instant token.nonce⟩
    have returns := (checkNonce_returns_iff instant token.nonce cache).mpr fun _ => positive
    exact Returns.ends (Server.returns_map_iff.mpr returns)

end Wssec

namespace Server

open Wssec (RotatingNonceCache validateUsernameToken validateUsernameToken_ends)
open Dispatch Envelope
open CriticalSections (Event Run State initial)

variable {H : Type} {svc : SoapService H} {call : Call H}

theorem checkToken_returns {envelope : ParsedEnvelope} {entry : DispatchEntry H}
    (securityBytes : Text) (authFn : AuthFn) (clock : Clock) {cache : RotatingNonceCache}
    (positive : 0 < cache.halfWindowSecs) :
    ∃ answer after, checkToken ext svc call envelope entry securityBytes authFn clock cache =
      some (answer, after) ∧
      0 < after.halfWindowSecs := by
  obtain ⟨ends, half⟩ := validateUsernameToken_ends ext positive securityBytes authFn
    svc.timestampToleranceSecs
    clock.now clock.instant
  cases checked : validateUsernameToken ext securityBytes authFn cache svc.timestampToleranceSecs clock.now
      clock.instant with
  | mk result after =>
    rw [checked] at ends half
    have kept : 0 < after.halfWindowSecs := half ▸ positive
    rcases checkToken_eq call envelope entry checked
        with ⟨hangs, _⟩ | ⟨e, _, _, done⟩ | ⟨user, _, done⟩
    · exact absurd hangs ends
    · exact ⟨_, after, done, kept⟩
    · exact ⟨_, after, done, kept⟩

variable {ι : Type}

theorem task_returns (ext : Externals) (svc : SoapService H) (calls : ι → Call H) :
    CriticalSections.Returns (fun i => (calls i).task ext svc) fun cache => 0 < cache.halfWindowSecs := by
  intro i access clock cache uses positive
  obtain ⟨_, _, _, securityBytes, authFn, _, _, _, _, _, rfl⟩ := task_uses uses
  exact checkToken_returns securityBytes authFn clock positive

/-- Where the window of the nonce cache has some length, each request that is there, in every state
that requests served at the same time can reach, can still be answered: nobody has to leave, to
arrive, or to wait for the clock. -/
theorem never_stuck [DecidableEq ι] (ext : Externals) {svc : SoapService H} (calls : ι → Call H)
    {since : Clock}
    {events : List (Event ι Clock)} {s : State ι RotatingNonceCache Clock (Answer H)} {i : ι}
    (positive : 0 < svc.nonceCache.halfWindowSecs)
    (run : Run (fun i => (calls i).task ext svc) (initial svc.nonceCache since) events s)
    (here : s.stage i ≠ .absent) (present : s.stage i ≠ .gone) :
    ∃ more s' answer, Run (fun i => (calls i).task ext svc) s more s' ∧ (∀ e ∈ more, e.Working) ∧
      s'.stage i = .answered answer :=
  CriticalSections.answerable (task_returns ext svc calls) positive run here present

/-! Three calls of `Ping`. -/

def crowd (_ : Nat) : Call Text := pings true

/-- The first takes the lock, the second leaves while it waits, and the token of the first is checked. -/
def crowdEvents : List (Event Nat Clock) :=
  [.arrive 0, .arrive 1, .arrive 2, .enter 0, .drop 1, .use 0]

/-- The third one is answered, though the first holds the lock and the second is gone. -/
theorem crowd_never_stuck : ∃ svc s, build pingHost 1 pingBuilder = .ok svc ∧
    Run (fun i => (crowd i).task Wssec.vector svc) (initial svc.nonceCache pingClock) crowdEvents s ∧
    s.holder = some 0 ∧ s.stage 1 = .gone ∧ s.stage 2 = .arrived ∧
    ∃ more s' answer, Run (fun i => (crowd i).task Wssec.vector svc) s more s' ∧
      (∀ e ∈ more, e.Working) ∧ s'.stage 2 = .answered answer := by
  obtain ⟨svc, built⟩ := pingService_built
  have positive : 0 < svc.nonceCache.halfWindowSecs := by
    rw [(build_settings built).1]
    decide
  obtain ⟨access, wants⟩ := pings_use built
  obtain ⟨_, _, _, _, first, _, _⟩ := pings_checked built pings_once
  rw [wants] at first
  have start : Run (fun i => (crowd i).task Wssec.vector svc) (initial svc.nonceCache pingClock)
      [] _ := .nil
  have arrived := ((start.snoc (.arrive (i := 0) rfl)).snoc (.arrive (i := 1) rfl)).snoc
    (.arrive (i := 2) rfl)
  have locked := arrived.snoc (.enter (i := 0) rfl (wants true) rfl)
  have left := locked.snoc (.drop (i := 1) (.inl rfl))
  have run := left.snoc (.use (i := 0) rfl (wants true) first)
  refine ⟨svc, _, built, run, rfl, rfl, rfl, ?_⟩
  exact never_stuck Wssec.vector crowd positive run (i := 2) (fun wrong => by cases wrong)
    (fun wrong => by cases wrong)

end Server

end SoapServer
