import SoapServer.Wssec.Authentication

/-! What a rejected token leaves behind: nothing but rotations that are due anyway. -/

set_option autoImplicit false

namespace SoapServer.Wssec

open Markup (Text)
open Generations
open RotatingNonceCache (replayDetected)

/-- Rotating at two instants rotates once, at the later one. -/
theorem RotatingNonceCache.rotated_rotated {c : RotatingNonceCache} {now later : Nat}
    (order : now ≤ later) :
    (c.rotated now).rotated later = c.rotated later := by
  have split : (c.rotated now).due later + c.due now = c.due later := by
    rw [due, rotated_bucketStart, rotated_width]
    exact generation_startOf order
  calc (c.rotated now).rotated later = rotate^[(c.rotated now).due later] (rotate^[c.due now] c) :=
    rfl
    _ = rotate^[(c.rotated now).due later + c.due now] c :=
      (Function.iterate_add_apply _ _ _ _).symm
    _ = c.rotated later := by rw [split, rotated]

/-- One call of the validation. -/
structure Attempt where
  securityBytes : Text
  getPassword : Text → Option Text
  toleranceSecs : Int
  now : Int
  instant : Nat

section run

variable (ext : Externals)

def attempt (a : Attempt) (cache : RotatingNonceCache) : Outcome Text × RotatingNonceCache :=
  validateUsernameToken ext a.securityBytes a.getPassword cache a.toleranceSecs a.now a.instant

def afterAttempts (cache : RotatingNonceCache) (run : List Attempt) : RotatingNonceCache :=
  run.foldl (fun cache a => (attempt ext a cache).2) cache

/-- The token of the call carries a nonce. -/
def CarriesNonce (a : Attempt) : Prop :=
  ∃ token, parseUsernameToken ext a.securityBytes = .ok token ∧ token.nonce.isSome

end run

/-- Caches that are the same once the rotations due at an instant are made. -/
def Agree (now : Nat) (c c' : RotatingNonceCache) : Prop := c.rotated now = c'.rotated now

variable {ext : Externals} {a : Attempt} {c c' : RotatingNonceCache} {now later : Nat}

theorem Agree.mono (agree : Agree now c c') (order : now ≤ later) : Agree later c c' := by
  unfold Agree at agree ⊢
  rw [← RotatingNonceCache.rotated_rotated order, agree, RotatingNonceCache.rotated_rotated order]

theorem Agree.halfWindowSecs (agree : Agree now c c') : c.halfWindowSecs = c'.halfWindowSecs := by
  calc c.halfWindowSecs = (c.rotated now).halfWindowSecs :=
    RotatingNonceCache.rotated_halfWindowSecs.symm
    _ = (c'.rotated now).halfWindowSecs := congrArg _ agree
    _ = c'.halfWindowSecs := RotatingNonceCache.rotated_halfWindowSecs

/-- On caches that agree the check of a nonce does the same. -/
theorem Agree.checkAndInsert (positive : 0 < c.halfWindowSecs) (agree : Agree now c c')
    (nonce : Text) :
    c.checkAndInsert now nonce = c'.checkAndInsert now nonce := by
  rw [c.checkAndInsert_eq positive, c'.checkAndInsert_eq (agree.halfWindowSecs ▸ positive), agree]

/-- An error leaves the cache as it was, up to rotations. -/
theorem attempt_error_agrees (positive : 0 < c.halfWindowSecs) {e : Abort}
    (rejected : (attempt ext a c).1 = .error e) :
    Agree a.instant (attempt ext a c).2 c := by
  unfold attempt at rejected ⊢
  cases authenticated : authenticate ext a.securityBytes a.getPassword a.toleranceSecs a.now with
  | error e' =>
    rw [validateUsernameToken_of_error authenticated]
    rfl
  | ok token =>
    rw [validateUsernameToken_of_ok authenticated] at rejected ⊢
    cases carried : token.nonce with
    | none => rfl
    | some nonce =>
      simp only [carried, checkNonce] at rejected ⊢
      rw [c.checkAndInsert_eq positive] at rejected ⊢
      split
      next => exact RotatingNonceCache.rotated_rotated le_rfl
      next unseen =>
        rw [if_neg unseen] at rejected
        cases rejected

/-- What a call does on caches that agree. -/
structure SameCall (ext : Externals) (a : Attempt) (c c' : RotatingNonceCache) : Prop where
  result : (attempt ext a c).1 = (attempt ext a c').1
  agree : Agree a.instant (attempt ext a c).2 (attempt ext a c').2
  cache : ∀ user, (attempt ext a c).1 = .ok user → CarriesNonce ext a → (attempt ext a c).2 = (attempt ext a c').2

theorem Agree.attempt (positive : 0 < c.halfWindowSecs) (agree : Agree a.instant c c') :
    SameCall ext a c c' := by
  cases authenticated : authenticate ext a.securityBytes a.getPassword a.toleranceSecs a.now with
  | error e =>
    have step (cache : RotatingNonceCache) : Wssec.attempt ext a cache = (.error e, cache) :=
      validateUsernameToken_of_error authenticated
    refine ⟨?_, ?_, fun user accepted => ?_⟩
    · rw [step, step]
    · rwa [step, step]
    · rw [step] at accepted
      cases accepted
  | ok token =>
    have step (cache : RotatingNonceCache) : Wssec.attempt ext a cache =
        ((checkNonce a.instant token.nonce cache).1.map fun _ => token.username,
          (checkNonce a.instant token.nonce cache).2) := validateUsernameToken_of_ok authenticated
    cases carried : token.nonce with
    | none =>
      refine ⟨?_, ?_, fun user _ carries => ?_⟩
      · rw [step, step, carried]
        rfl
      · rwa [step, step, carried]
      · obtain ⟨token', read, some⟩ := carries
        obtain rfl := Except.ok.inj ((authenticate_ok_iff.mp authenticated).1.symm.trans read)
        rw [carried] at some
        cases some
    | some nonce =>
      -- the nonce is in the one cache exactly if it is in the other
      have same : Wssec.attempt ext a c = Wssec.attempt ext a c' := by
        rw [step, step, carried]
        simp only [checkNonce, agree.checkAndInsert positive nonce]
      exact ⟨by rw [same], by rw [same]; rfl, fun _ _ _ => by rw [same]⟩

theorem attempt_halfWindowSecs (positive : 0 < c.halfWindowSecs) (a : Attempt) :
    (attempt ext a c).2.halfWindowSecs = c.halfWindowSecs := by
  unfold attempt
  cases authenticated : authenticate ext a.securityBytes a.getPassword a.toleranceSecs a.now with
  | error e => rw [validateUsernameToken_of_error authenticated]
  | ok token =>
    rw [validateUsernameToken_of_ok authenticated]
    cases token.nonce with
    | none => rfl
    | some nonce =>
      simp only [checkNonce]
      rw [c.checkAndInsert_eq positive]
      split <;> simp

theorem afterAttempts_halfWindowSecs (positive : 0 < c.halfWindowSecs) (run : List Attempt) :
    (afterAttempts ext c run).halfWindowSecs = c.halfWindowSecs := by
  induction run generalizing c with
  | nil => rfl
  | cons a rest ih =>
    have half : (attempt ext a c).2.halfWindowSecs = c.halfWindowSecs :=
      attempt_halfWindowSecs positive a
    exact (ih (half ▸ positive)).trans half

/-- A run from caches that agree ends in caches that agree. -/
theorem Agree.afterAttempts (positive : 0 < c.halfWindowSecs) {run : List Attempt} {last : Nat}
    (agree : Agree now c c') (order : (now :: (run.map (·.instant) ++ [last])).Pairwise (· ≤ ·)) :
    Agree last (Wssec.afterAttempts ext c run) (Wssec.afterAttempts ext c' run) := by
  induction run generalizing c c' now with
  | nil => exact agree.mono (by simpa using order)
  | cons a rest ih =>
    obtain ⟨bound, order⟩ := List.pairwise_cons.mp order
    have step : SameCall ext a c c' := (agree.mono (bound a.instant (by simp))).attempt positive
    exact ih ((attempt_halfWindowSecs positive a).symm ▸ positive) step.agree order

/-- Deleting a rejected call from a run changes no result, and the cache that a later success
leaves only when its token carries no nonce: by rotations that are due. -/
theorem rejected_leaves_no_trace (positive : 0 < c.halfWindowSecs)
    {before since after : List Attempt} {rejected call : Attempt} {e : Abort}
    (timely : ((before ++ rejected :: (since ++ call :: after)).map (·.instant)).Pairwise (· ≤ ·))
    (refused : (attempt ext rejected (afterAttempts ext c before)).1 = .error e) :
    SameCall ext call (afterAttempts ext c (before ++ rejected :: since))
      (afterAttempts ext c (before ++ since)) := by
  have half : (afterAttempts ext c before).halfWindowSecs = c.halfWindowSecs :=
    afterAttempts_halfWindowSecs positive before
  have agree := attempt_error_agrees (half.symm ▸ positive) refused
  have order : (rejected.instant :: (since.map (·.instant) ++ [call.instant])).Pairwise (· ≤ ·) := by
    rw [show before ++ rejected :: (since ++ call :: after) = before ++ ((rejected :: (since ++ [call])) ++ after) by simp,
      List.map_append, List.map_append] at timely
    simpa using (List.pairwise_append.mp (List.pairwise_append.mp timely).2.1).1
  have run : afterAttempts ext c (before ++ rejected :: since) =
      afterAttempts ext (attempt ext rejected (afterAttempts ext c before)).2 since :=
        by simp [afterAttempts]
  have deleted : afterAttempts ext c (before ++ since) =
      afterAttempts ext (afterAttempts ext c before) since := by simp [afterAttempts]
  have settings : 0 < (attempt ext rejected (afterAttempts ext c before)).2.halfWindowSecs := by
    rw [attempt_halfWindowSecs (half.symm ▸ positive), half]
    exact positive
  rw [run, deleted]
  exact (agree.afterAttempts settings order).attempt ((afterAttempts_halfWindowSecs settings since).symm ▸ settings)

/-- Deleting a rejected call changes no result and no cache that a later success leaves. -/
def Traceless (ext : Externals) : Prop :=
  ∀ (c : RotatingNonceCache) (before since after : List Attempt) (rejected call : Attempt) (e : Abort),
    0 < c.halfWindowSecs →
    ((before ++ rejected :: (since ++ call :: after)).map (·.instant)).Pairwise (· ≤ ·) →
    (attempt ext rejected (afterAttempts ext c before)).1 = .error e →
    let made := attempt ext call (afterAttempts ext c (before ++ rejected :: since))
    let deleted := attempt ext call (afterAttempts ext c (before ++ since))
    made.1 = deleted.1 ∧ ∀ user, made.1 = .ok user → made.2 = deleted.2

/-! A replay turns the buckets, and the next token carries no nonce. -/

def textToken : UsernameToken := ⟨"admin".toList, vectorPassword, .text, none, some vectorCreated⟩

def presented (token : UsernameToken) : Attempt :=
  ⟨token.header, adminOnly, 300, vectorCreatedDt, 150 * nanosPerSec⟩

def usedCache : RotatingNonceCache := ⟨{vectorNonce}, ∅, 0, 150, defaultMaxEntries⟩

theorem textToken_read : parseUsernameToken vector textToken.header = .ok textToken :=
  parseUsernameToken_header Markup.scanner_lawful
    ⟨admin_plain, by decide +kernel, fun _ none => (by cases none),
      fun _ same => Option.some.inj same ▸ vectorCreated_plain⟩

theorem textToken_leaves (c : RotatingNonceCache) :
    attempt vector (presented textToken) c = (.ok "admin".toList, c) := by
  have authenticated : authenticate vector textToken.header adminOnly 300 vectorCreatedDt = .ok textToken :=
    authenticate_ok_iff.mpr ⟨textToken_read, vectorPassword, rfl, rfl, vectorCreated_fresh rfl⟩
  exact validateUsernameToken_of_ok authenticated

theorem replay_refused : attempt vector (presented (digestToken vectorNonce)) usedCache =
    (senderFault replayDetected, usedCache.rotated (150 * nanosPerSec)) := by
  have authenticated : authenticate vector (digestToken vectorNonce).header adminOnly 300 vectorCreatedDt =
      .ok (digestToken vectorNonce) :=
    digestToken_authenticates vectorNonce_plain vectorNonce_decoded (by decide)
  have found : (usedCache.rotated (150 * nanosPerSec)).contains vectorNonce := by decide +kernel
  rw [attempt, presented, validateUsernameToken_of_ok authenticated]
  simp only [digestToken, checkNonce]
  rw [usedCache.checkAndInsert_eq (by decide), if_pos found]
  rfl

theorem replay_turns_buckets : ¬ Traceless vector := by
  intro traceless
  have same := traceless usedCache [] [] [] (presented (digestToken vectorNonce)) (presented textToken) _ (by decide)
    (by decide) (congrArg Prod.fst replay_refused)
  have made : afterAttempts vector usedCache ([] ++ [presented (digestToken vectorNonce)]) =
      usedCache.rotated (150 * nanosPerSec) := by
    rw [List.nil_append, afterAttempts, List.foldl_cons, replay_refused]
    rfl
  have moved := same.2 "admin".toList (by rw [textToken_leaves])
  simp only [textToken_leaves, made] at moved
  have bucketStart : (usedCache.rotated (150 * nanosPerSec)).bucketStart = 0 := by
    rw [moved]
    rfl
  revert bucketStart
  decide +kernel

/-- The text token sees nothing of the replay. -/
theorem textToken_unaffected :
    SameCall vector (presented textToken)
      (afterAttempts vector usedCache ([] ++ presented (digestToken vectorNonce) :: []))
      (afterAttempts vector usedCache ([] ++ [])) :=
  have timely : (([] ++ presented (digestToken vectorNonce) :: ([] ++ presented textToken :: [])).map
      Attempt.instant).Pairwise (· ≤ ·) := by decide
  rejected_leaves_no_trace (show 0 < usedCache.halfWindowSecs by decide) timely (congrArg Prod.fst replay_refused)

end SoapServer.Wssec
