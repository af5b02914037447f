import SoapServer.Wssec.Authentication

/-! Runs of presentations against the cache of one service with its default settings.

The monotonic clock and UTC advance together: `epoch` is the UTC time at instant zero.
A nonce accepted in a bucket that starts at `s` is remembered up to `s` plus twice the
half window, which is as long as its token stays fresh only when `Created` lies before `s`.
-/

set_option autoImplicit false

namespace SoapServer.Wssec

open Markup (Text)
open Generations
open RotatingNonceCache (replayDetected)

/-- One call of the validation; the credential store may answer differently each time. -/
structure Presentation where
  securityBytes : Text
  getPassword : Text → Option Text
  instant : Nat

section run

variable (ext : Externals) (epoch : Int)

def present (p : Presentation) (cache : RotatingNonceCache) : Outcome Text × RotatingNonceCache :=
  validateUsernameToken ext p.securityBytes p.getPassword cache defaultTimestampToleranceSecs
    (epoch + p.instant) p.instant

def cacheAfter (cache : RotatingNonceCache) (run : List Presentation) : RotatingNonceCache :=
  run.foldl (fun cache p => (present ext epoch p cache).2) cache

/-- The nonce that a presentation puts into the cache. -/
def acceptedNonce (p : Presentation) (cache : RotatingNonceCache) : Option Text :=
  match authenticate ext p.securityBytes p.getPassword defaultTimestampToleranceSecs (epoch + p.instant) with
  | .ok token =>
    match (checkNonce p.instant token.nonce cache).1 with
    | .ok _ => token.nonce
    | .error _ => none
  | .error _ => none

def nonceCount : RotatingNonceCache → List Presentation → Nat
  | _, [] => 0
  | cache, p :: rest =>
    (acceptedNonce ext epoch p cache).toList.length + nonceCount (present ext epoch p cache).2 rest

end run

/-- Instants that do not decrease, from the start of the service on. -/
def Timely (start : Nat) (run : List Presentation) : Prop :=
  (start :: run.map (·.instant)).Pairwise (· ≤ ·)

/-- The nonce went into a bucket that started at `s` and still counts: it is in the
current bucket, in the previous one, or two windows have passed. -/
def Remembers (nonce : Text) (s : Nat) (c : RotatingNonceCache) : Prop :=
  (c.bucketStart = s ∧ nonce ∈ c.current) ∨ (c.bucketStart = s + c.width ∧ nonce ∈ c.previous) ∨
    s + 2 * c.width ≤ c.bucketStart

variable {ext : Externals} {epoch : Int} {p : Presentation} {c : RotatingNonceCache}

theorem Remembers.rotate {nonce : Text} {s : Nat} (remembers : Remembers nonce s c) :
    Remembers nonce s c.rotate := by
  rcases remembers with ⟨start, member⟩ | ⟨start, _⟩ | past
  · exact .inr (.inl ⟨by simp [start], member⟩)
  · exact .inr (.inr (by simp [start]; omega))
  · exact .inr (.inr (by simp; omega))

theorem Remembers.rotated {nonce : Text} {s : Nat} (remembers : Remembers nonce s c) (now : Nat) :
    Remembers nonce s (c.rotated now) := by
  unfold RotatingNonceCache.rotated
  induction c.due now with
  | zero => exact remembers
  | succ n ih =>
    rw [Function.iterate_succ_apply']
    exact ih.rotate

theorem Remembers.insert {nonce : Text} {s : Nat} (remembers : Remembers nonce s c) (other : Text) :
    Remembers nonce s (c.insert other) := by
  rcases remembers with ⟨start, member⟩ | previous | past
  · exact .inl ⟨start, Finset.mem_insert_of_mem member⟩
  · exact .inr (.inl previous)
  · exact .inr (.inr past)

/-- Up to the end of the two windows a remembered nonce is in a bucket. -/
theorem Remembers.contains {nonce : Text} {s : Nat} (remembers : Remembers nonce s c)
    (recent : c.bucketStart < s + 2 * c.width) : c.contains nonce := by
  rcases remembers with ⟨_, member⟩ | ⟨_, member⟩ | past
  · exact .inl member
  · exact .inr member
  · omega

/-- What calls up to `last` do to a cache while they put `inserted` nonces into it. -/
structure Advanced (c after : RotatingNonceCache) (inserted last : Nat) : Prop where
  halfWindowSecs : after.halfWindowSecs = c.halfWindowSecs
  maxEntries : after.maxEntries = c.maxEntries
  card : after.current.card ≤ c.current.card + inserted
  bucketStart : c.bucketStart ≤ last → after.bucketStart ≤ last
  remembers : c.current.card + inserted ≤ c.maxEntries →
    ∀ nonce s, Remembers nonce s c → Remembers nonce s after

theorem Advanced.refl (last : Nat) : Advanced c c 0 last :=
  ⟨rfl, rfl, le_rfl, id, fun _ _ _ => id⟩

theorem Advanced.trans {middle after : RotatingNonceCache} {first second last : Nat}
    (one : Advanced c middle first last) (two : Advanced middle after second last) :
    Advanced c after (first + second) last where
  halfWindowSecs := two.halfWindowSecs.trans one.halfWindowSecs
  maxEntries := two.maxEntries.trans one.maxEntries
  card := by have := one.card; have := two.card; omega
  bucketStart := two.bucketStart ∘ one.bucketStart
  remembers room nonce s remembers := by
    refine two.remembers ?_ nonce s (one.remembers (by omega) nonce s remembers)
    have := one.card
    rw [one.maxEntries]
    omega

theorem Advanced.rotated {now last : Nat} (within : now ≤ last) :
    Advanced c (c.rotated now) 0 last where
  halfWindowSecs := RotatingNonceCache.rotated_halfWindowSecs
  maxEntries := RotatingNonceCache.rotated_maxEntries
  card := RotatingNonceCache.rotated_current_card
  bucketStart started := by
    rcases Nat.le_total c.bucketStart now with after | before
    · exact (RotatingNonceCache.rotated_bucketStart_le after).trans within
    · rw [RotatingNonceCache.rotated_of_due]
      · exact started
      · simp [RotatingNonceCache.due, generation, Nat.sub_eq_zero_of_le before]
  remembers _ _ _ remembers := remembers.rotated now

theorem Advanced.insert {now last : Nat} (within : now ≤ last) (nonce : Text) :
    Advanced c ((c.makeRoom now).insert nonce) 1 last := by
  by_cases full : c.current.card ≥ c.maxEntries
  · rw [RotatingNonceCache.makeRoom, if_pos full]
    refine ⟨rfl, rfl, ?_, fun _ => within, fun room => absurd room (by omega)⟩
    simp [RotatingNonceCache.insert, RotatingNonceCache.forceRotate]
  · rw [RotatingNonceCache.makeRoom, if_neg full]
    exact ⟨rfl, rfl, Finset.card_insert_le _ _, id, fun _ _ _ remembers => remembers.insert nonce⟩

/-- One call advances the cache. -/
theorem present_advanced (positive : 0 < c.halfWindowSecs) {last : Nat}
    (within : p.instant ≤ last) :
    Advanced c (present ext epoch p c).2 (acceptedNonce ext epoch p c).toList.length last := by
  unfold present acceptedNonce
  cases authenticated : authenticate ext p.securityBytes p.getPassword defaultTimestampToleranceSecs
      (epoch + p.instant) with
  | error e =>
    rw [validateUsernameToken_of_error authenticated]
    exact .refl last
  | ok token =>
    rw [validateUsernameToken_of_ok authenticated]
    obtain ⟨username, password, passwordType, nonce, created⟩ := token
    cases nonce with
    | none => exact .refl last
    | some nonce =>
      simp only [checkNonce]
      rw [c.checkAndInsert_eq positive]
      split
      · exact .rotated within
      · simpa using (Advanced.rotated within).trans (.insert within nonce)

/-- A run advances the cache. -/
theorem run_advanced (positive : 0 < c.halfWindowSecs) {run : List Presentation} {last : Nat}
    (within : ∀ p ∈ run, p.instant ≤ last) :
    Advanced c (cacheAfter ext epoch c run) (nonceCount ext epoch c run) last := by
  induction run generalizing c with
  | nil => exact .refl last
  | cons p rest ih =>
    have step : Advanced c (present ext epoch p c).2 _ last :=
      present_advanced positive (within p List.mem_cons_self)
    refine step.trans (ih ?_ fun q member => within q (List.mem_cons_of_mem _ member))
    rw [step.halfWindowSecs]
    exact positive

theorem nonceCount_append (c : RotatingNonceCache) (run rest : List Presentation) :
    nonceCount ext epoch c (run ++ rest) =
      nonceCount ext epoch c run + nonceCount ext epoch (cacheAfter ext epoch c run) rest := by
  induction run generalizing c with
  | nil => simp [nonceCount, cacheAfter]
  | cons p run ih =>
    simp only [List.cons_append, nonceCount, ih, cacheAfter, List.foldl_cons]
    omega

theorem nonceCount_le_length (c : RotatingNonceCache) (run : List Presentation) :
    nonceCount ext epoch c run ≤ run.length := by
  induction run generalizing c with
  | nil => exact le_rfl
  | cons p run ih =>
    have rest := ih (present ext epoch p c).2
    have one : (acceptedNonce ext epoch p c).toList.length ≤ 1 := by
      cases acceptedNonce ext epoch p c <;> simp
    simp only [nonceCount, List.length_cons]
    omega

/-! One header presented again. -/

/-- The bucket in use when a token is presented starts after the token's `Created`. -/
def CreatedBeforeBucket (ext : Externals) (epoch : Int) (c : RotatingNonceCache) (instant : Nat)
    (token : UsernameToken) : Prop :=
  ∀ created createdDt, token.created = some created → ext.parseRfc3339 created = some createdDt →
    createdDt < epoch + (c.rotated instant).bucketStart

/-- A header is refused the second time: as a replay or as expired, as long as the store
still has the password it had the first time. -/
structure Refused (ext : Externals) (epoch : Int) (user : Text) (first second : Presentation)
    (c : RotatingNonceCache) : Prop where
  never : ∀ u, (present ext epoch second c).1 ≠ .ok u
  reason : second.getPassword user = first.getPassword user →
    (present ext epoch second c).1 = senderFault replayDetected ∨
      (present ext epoch second c).1 = senderFault timestampExpired

/-- What an accepted presentation of a digest token leaves, below the cap. -/
theorem accepted_digest {token : UsernameToken} {user : Text}
    (read : parseUsernameToken ext p.securityBytes = .ok token)
    (digest : token.passwordType = .digest) (accepted : (present ext epoch p c).1 = .ok user)
    (room : c.current.card < c.maxEntries) :
    ∃ nonce, token.nonce = some nonce ∧ acceptedNonce ext epoch p c = some nonce ∧
      (present ext epoch p c).2 = (c.rotated p.instant).insert nonce := by
  obtain ⟨token', authenticated, _, unseen⟩ := validateUsernameToken_ok_iff.mp accepted
  obtain ⟨read', password, known, proves, _⟩ := authenticate_ok_iff.mp authenticated
  obtain rfl : token = token' := Except.ok.inj (read.symm.trans read')
  unfold UsernameToken.Proves at proves
  simp only [digest] at proves
  obtain ⟨nonce, _, hasNonce, _⟩ := proves
  obtain ⟨positive, absent⟩ := unseen nonce hasNonce
  have spare : ¬ (c.rotated p.instant).current.card ≥ (c.rotated p.instant).maxEntries := by
    have : (c.rotated p.instant).current.card ≤ c.current.card :=
      RotatingNonceCache.rotated_current_card
    rw [RotatingNonceCache.rotated_maxEntries]
    omega
  refine ⟨nonce, hasNonce, ?_, ?_⟩
  · simp only [acceptedNonce, authenticated, hasNonce, checkNonce]
    rw [c.checkAndInsert_eq positive, if_neg absent]
  · rw [present, validateUsernameToken_of_ok authenticated]
    simp only [hasNonce, checkNonce]
    rw [c.checkAndInsert_eq positive, if_neg absent, RotatingNonceCache.makeRoom, if_neg spare]

/-- While its nonce is remembered from a bucket that starts after `Created`, a digest token
is refused. -/
theorem refused_of_remembers {first second : Presentation} {before : RotatingNonceCache}
    {token : UsernameToken} {nonce user : Text} {s : Nat}
    (firstRead : parseUsernameToken ext first.securityBytes = .ok token)
    (secondRead : parseUsernameToken ext second.securityBytes = .ok token)
    (digest : token.passwordType = .digest) (hasNonce : token.nonce = some nonce)
    (accepted : (present ext epoch first before).1 = .ok user)
    (order : first.instant ≤ second.instant)
    (half : c.halfWindowSecs = defaultNonceCacheHalfWindowSecs)
    (started : c.bucketStart ≤ second.instant) (remembers : Remembers nonce s c)
    (bound : ∀ created createdDt, token.created = some created → ext.parseRfc3339 created = some createdDt →
      createdDt < epoch + s) :
    Refused ext epoch token.username first second c := by
  obtain ⟨token', authenticated, _, _⟩ := validateUsernameToken_ok_iff.mp accepted
  obtain ⟨read', password, known, proves, created, createdDt, hasCreated, parsed, fresh⟩ :=
    authenticate_ok_iff.mp authenticated
  obtain rfl : token = token' := Except.ok.inj (firstRead.symm.trans read')
  have width : c.width = nanosPerSec * defaultNonceCacheHalfWindowSecs := by
    rw [RotatingNonceCache.width, half]
  have positive : 0 < c.halfWindowSecs := by rw [half]; decide
  -- a token that is still fresh is young enough for the cache to know its nonce
  have replay (t : UsernameToken) (again : authenticate ext second.securityBytes second.getPassword
      defaultTimestampToleranceSecs (epoch + second.instant) = .ok t) :
      (present ext epoch second c).1 = senderFault replayDetected := by
    obtain ⟨read', _, _, _, created', createdDt', hasCreated', parsed', fresh'⟩ :=
      authenticate_ok_iff.mp again
    obtain rfl : token = t := Except.ok.inj (secondRead.symm.trans read')
    have created := bound created' createdDt' hasCreated' parsed'
    have age := ((checkFreshness_ok_iff _ _ _).mp fresh').2.1
    have within : second.instant < s + 2 * c.width := by
      simp only [width, nanosPerSec, defaultNonceCacheHalfWindowSecs, defaultTimestampToleranceSecs] at age ⊢
      omega
    have found : (c.rotated second.instant).contains nonce := by
      apply (remembers.rotated second.instant).contains
      rw [RotatingNonceCache.rotated_width]
      exact (RotatingNonceCache.rotated_bucketStart_le started).trans_lt within
    rw [present, validateUsernameToken_of_ok again]
    simp only [hasNonce, checkNonce]
    rw [c.checkAndInsert_eq positive, if_pos found]
    rfl
  -- accepted by no store, and with the same store the fault says which check it was
  constructor
  · intro u same
    obtain ⟨t, again, _⟩ := validateUsernameToken_ok_iff.mp same
    rw [replay t again] at same
    cases same
  · intro sameStore
    rcases checkFreshness_later (epoch + second.instant) (by omega) fresh with still | expired
    · refine .inl (replay token ?_)
      rw [authenticate_of_proves secondRead digest (sameStore.trans known) proves hasCreated parsed,
        still]
      rfl
    · right
      have again : authenticate ext second.securityBytes second.getPassword defaultTimestampToleranceSecs
          (epoch + second.instant) = senderFault timestampExpired := by
        rw [authenticate_of_proves secondRead digest (sameStore.trans known) proves hasCreated parsed, expired]
        rfl
      rw [present, validateUsernameToken_of_error again]
      rfl

/-- A digest token accepted no earlier than `Created` in its bucket is accepted again when
the two windows have passed. -/
theorem accepted_again {token : UsernameToken} {user : Text}
    (read : parseUsernameToken ext p.securityBytes = .ok token)
    (digest : token.passwordType = .digest) (accepted : (present ext epoch p c).1 = .ok user)
    (room : c.current.card < c.maxEntries)
    (half : c.halfWindowSecs = defaultNonceCacheHalfWindowSecs)
    (exposed : ¬ CreatedBeforeBucket ext epoch c p.instant token) :
    let later := (c.rotated p.instant).bucketStart + 2 * c.width
    p.instant ≤ later ∧
      (present ext epoch { p with instant := later } (present ext epoch p c).2).1 = .ok user := by
  intro later
  have width : c.width = nanosPerSec * defaultNonceCacheHalfWindowSecs := by
    rw [RotatingNonceCache.width, half]
  have positive : 0 < c.halfWindowSecs := by rw [half]; decide
  have recent : p.instant < (c.rotated p.instant).bucketStart + c.width :=
    RotatingNonceCache.lt_rotated_bucketStart positive
  obtain ⟨token', authenticated, named, _⟩ := validateUsernameToken_ok_iff.mp accepted
  obtain ⟨read', password, known, proves, created, createdDt, hasCreated, parsed, fresh⟩ :=
    authenticate_ok_iff.mp authenticated
  obtain rfl : token = token' := Except.ok.inj (read.symm.trans read')
  obtain ⟨nonce, hasNonce, _, after⟩ := accepted_digest read digest accepted room
  -- the token was created no earlier than the bucket it was put into began
  have notBefore : epoch + (c.rotated p.instant).bucketStart ≤ createdDt := by
    by_contra before
    apply exposed
    intro created' createdDt' hasCreated' parsed'
    obtain rfl : created = created' := Option.some.inj (hasCreated.symm.trans hasCreated')
    obtain rfl : createdDt = createdDt' := Option.some.inj (parsed.symm.trans parsed')
    omega
  -- two windows after that it is not yet too old
  have stillFresh : checkFreshness (epoch + later) createdDt defaultTimestampToleranceSecs = .ok () := by
    obtain ⟨range, _, early⟩ := (checkFreshness_ok_iff _ _ _).mp fresh
    refine (checkFreshness_ok_iff _ _ _).mpr ⟨range, ?_, ?_⟩ <;>
      simp only [later, width, nanosPerSec, defaultNonceCacheHalfWindowSecs,
        defaultTimestampToleranceSecs] at recent early ⊢ <;> omega
  refine ⟨by omega, ?_⟩
  rw [after]
  refine validateUsernameToken_ok_iff.mpr ⟨token, ?_, named, fun n _ => ⟨?_, ?_⟩⟩
  · rw [authenticate_of_proves read digest known proves hasCreated parsed, stillFresh]
    rfl
  · simpa using positive
  · -- and both buckets have been rotated out by then
    have passed : ((c.rotated p.instant).insert nonce).due later = 2 := by
      have same : ((c.rotated p.instant).insert nonce).width = c.width := by
        simp only [RotatingNonceCache.width, RotatingNonceCache.insert_halfWindowSecs,
          RotatingNonceCache.rotated_halfWindowSecs]
      have start : ((c.rotated p.instant).insert nonce).bucketStart = (c.rotated p.instant).bucketStart := rfl
      rw [RotatingNonceCache.due, generation, same, start, Nat.add_sub_cancel_left,
        Nat.mul_div_cancel _ (RotatingNonceCache.width_pos positive)]
    rw [RotatingNonceCache.rotated_contains_iff, passed]
    omega

/-! Whole runs of one service. -/

section service

variable (ext : Externals) (epoch : Int) (start : Nat)

/-- The cache of a service built at `start` with its defaults, after a run. -/
def serviceCache (run : List Presentation) : RotatingNonceCache :=
  cacheAfter ext epoch (.new defaultNonceCacheHalfWindowSecs start) run

/-- The nonces that the service accepted in a run. -/
def acceptedCount (run : List Presentation) : Nat :=
  nonceCount ext epoch (.new defaultNonceCacheHalfWindowSecs start) run

/-- Whatever digest header the service accepts in the run, it refuses ever after. -/
def AcceptedOnce (run : List Presentation) : Prop :=
  ∀ before first between second after token user,
    run = before ++ first :: (between ++ second :: after) →
    parseUsernameToken ext first.securityBytes = .ok token →
    parseUsernameToken ext second.securityBytes = .ok token →
    token.passwordType = .digest →
    (present ext epoch first (serviceCache ext epoch start before)).1 = .ok user →
    Refused ext epoch token.username first second (serviceCache ext epoch start (before ++ first :: between))

/-- No run below the cap accepts a digest header twice. -/
def ReplayFree : Prop :=
  ∀ run, Timely start run → acceptedCount ext epoch start run < defaultMaxEntries →
    AcceptedOnce ext epoch start run

/-- A digest header presented while it is fresh has its `Created` before the bucket in use. -/
def Covered (c : RotatingNonceCache) (p : Presentation) : Prop :=
  ∀ token, parseUsernameToken ext p.securityBytes = .ok token → token.passwordType = .digest →
    token.Fresh ext defaultTimestampToleranceSecs (epoch + p.instant) →
    CreatedBeforeBucket ext epoch c p.instant token

end service

theorem Timely.split {start : Nat} {before after : List Presentation}
    (timely : Timely start (before ++ p :: after)) :
    start ≤ p.instant ∧ (∀ q ∈ before, q.instant ≤ p.instant) ∧ ∀ q ∈ after, p.instant ≤ q.instant :=
  order_split timely

variable (ext epoch) in
/-- The cache of the service when a presentation arrives. -/
theorem service_advanced {start : Nat} {before after : List Presentation}
    (timely : Timely start (before ++ p :: after)) :
    Advanced (.new defaultNonceCacheHalfWindowSecs start) (serviceCache ext epoch start before)
      (acceptedCount ext epoch start before) p.instant ∧
    (serviceCache ext epoch start before).bucketStart ≤ p.instant := by
  have advanced : Advanced (.new defaultNonceCacheHalfWindowSecs start) (serviceCache ext epoch start before)
      (acceptedCount ext epoch start before) p.instant :=
    run_advanced (show 0 < defaultNonceCacheHalfWindowSecs by decide) timely.split.2.1
  exact ⟨advanced, advanced.bucketStart timely.split.1⟩

variable (ext epoch) in
theorem service_room {start : Nat} {before after : List Presentation}
    (timely : Timely start (before ++ p :: after))
    (few : acceptedCount ext epoch start before < defaultMaxEntries) :
    (serviceCache ext epoch start before).current.card <
      (serviceCache ext epoch start before).maxEntries := by
  have advanced := (service_advanced ext epoch timely).1
  have card := advanced.card
  rw [advanced.maxEntries]
  simp only [RotatingNonceCache.new, RotatingNonceCache.withMaxEntries, Finset.card_empty] at card ⊢
  omega

/-- Between an accepted digest presentation and a later one its nonce stays remembered. -/
theorem service_remembers {start : Nat} {before between after : List Presentation}
    {first second : Presentation} {token : UsernameToken} {user : Text}
    (timely : Timely start (before ++ first :: (between ++ second :: after)))
    (few : acceptedCount ext epoch start (before ++ first :: between) < defaultMaxEntries)
    (read : parseUsernameToken ext first.securityBytes = .ok token)
    (digest : token.passwordType = .digest)
    (accepted : (present ext epoch first (serviceCache ext epoch start before)).1 = .ok user) :
    ∃ nonce, token.nonce = some nonce ∧
      Remembers nonce ((serviceCache ext epoch start before).rotated first.instant).bucketStart
        (serviceCache ext epoch start (before ++ first :: between)) := by
  obtain ⟨advanced, _⟩ := service_advanced ext epoch timely
  have split : serviceCache ext epoch start (before ++ first :: between) = cacheAfter ext epoch
      (present ext epoch first (serviceCache ext epoch start before)).2 between := by
    simp [serviceCache, cacheAfter]
  -- the first token counts as one of the nonces accepted
  have count : acceptedCount ext epoch start (before ++ first :: between) =
      acceptedCount ext epoch start before +
        ((acceptedNonce ext epoch first (serviceCache ext epoch start before)).toList.length +
          nonceCount ext epoch (present ext epoch first (serviceCache ext epoch start before)).2 between) :=
    nonceCount_append _ before (first :: between)
  have room := service_room ext epoch timely (by omega)
  obtain ⟨nonce, hasNonce, inserted, held⟩ := accepted_digest read digest accepted room
  refine ⟨nonce, hasNonce, ?_⟩
  rw [inserted, held] at count
  rw [split, held]
  have kept : ((serviceCache ext epoch start before).rotated first.instant).current.card ≤ _ :=
    RotatingNonceCache.rotated_current_card
  have grown : (((serviceCache ext epoch start before).rotated first.instant).insert nonce).current.card ≤
      ((serviceCache ext epoch start before).rotated first.instant).current.card + 1 :=
    Finset.card_insert_le _ _
  have half := advanced.halfWindowSecs
  have entries := advanced.maxEntries
  have card := advanced.card
  simp only [RotatingNonceCache.new, RotatingNonceCache.withMaxEntries, Finset.card_empty] at half entries card
  have positive : 0 < (((serviceCache ext epoch start before).rotated first.instant).insert nonce).halfWindowSecs := by
    simp only [RotatingNonceCache.insert_halfWindowSecs, RotatingNonceCache.rotated_halfWindowSecs,
      half]
    decide
  have within : ∀ q ∈ between, q.instant ≤ second.instant := by
    intro q member
    have later : Timely start ((before ++ first :: between) ++ second :: after) :=
      by simpa using timely
    exact later.split.2.1 q (List.mem_append_right _ (List.mem_cons_of_mem _ member))
  -- so fewer than the bound come after it, and none pushes it out
  refine (run_advanced positive within).remembers ?_ nonce _ (.inl ⟨rfl, Finset.mem_insert_self _ _⟩)
  · have same : (((serviceCache ext epoch start before).rotated first.instant).insert nonce).maxEntries =
        defaultMaxEntries := by
      rw [← entries]
      exact RotatingNonceCache.rotated_maxEntries
    simp only [Option.toList_some, List.length_singleton] at count
    omega

theorem Timely.extend {start later : Nat} {run : List Presentation}
    (timely : Timely start (run ++ [p])) (order : p.instant ≤ later) :
    Timely start (run ++ [p, { p with instant := later }]) := by
  simp only [Timely, List.map_append, List.map_cons, List.map_nil, List.pairwise_cons,
    List.mem_append, List.mem_cons, List.pairwise_append, List.not_mem_nil, or_false] at timely ⊢
  obtain ⟨bound, sorted, _, order'⟩ := timely
  have reached : start ≤ p.instant := bound _ (.inr rfl)
  refine ⟨?_, sorted, ?_, ?_⟩
  · rintro a (member | rfl | rfl)
    · exact bound a (.inl member)
    · exact reached
    · exact reached.trans order
  · simp [order]
  · rintro a member b (rfl | rfl)
    · exact order' a member _ rfl
    · exact (order' a member _ rfl).trans order

/-- Accepted twice in a row, a header is not refused. -/
theorem not_once {start later : Nat} {run : List Presentation} {token : UsernameToken} {user : Text}
    (read : parseUsernameToken ext p.securityBytes = .ok token)
    (digest : token.passwordType = .digest)
    (accepted : (present ext epoch p (serviceCache ext epoch start run)).1 = .ok user)
    (again : (present ext epoch { p with instant := later }
      (present ext epoch p (serviceCache ext epoch start run)).2).1 = .ok user) :
    ¬ AcceptedOnce ext epoch start (run ++ [p, { p with instant := later }]) := by
  intro once
  have refused := once run p [] { p with instant := later } [] token user rfl read read digest accepted
  refine refused.never user ?_
  rw [show serviceCache ext epoch start (run ++ [p]) =
    (present ext epoch p (serviceCache ext epoch start run)).2 by simp [serviceCache, cacheAfter]]
  exact again

/-- A run in which every fresh digest presentation is covered accepts each header once;
one uncovered acceptance is enough for the same header to be accepted again. -/
theorem accepted_once_when_covered (ext : Externals) (epoch : Int) (start : Nat) :
    (∀ run, Timely start run → acceptedCount ext epoch start run < defaultMaxEntries →
      (∀ before p after, run = before ++ p :: after → Covered ext epoch (serviceCache ext epoch start before) p) →
      AcceptedOnce ext epoch start run) ∧
    (∀ run p token user, Timely start (run ++ [p]) →
      acceptedCount ext epoch start (run ++ [p]) < defaultMaxEntries →
      parseUsernameToken ext p.securityBytes = .ok token → token.passwordType = .digest →
      (present ext epoch p (serviceCache ext epoch start run)).1 = .ok user →
      ¬ Covered ext epoch (serviceCache ext epoch start run) p →
      ∃ later, Timely start (run ++ [p, { p with instant := later }]) ∧
        ¬ AcceptedOnce ext epoch start (run ++ [p, { p with instant := later }])) := by
  constructor
  · rintro run timely few covered before first between second after token user rfl firstRead secondRead
      digest accepted
    have whole : acceptedCount ext epoch start (before ++ first :: (between ++ second :: after)) =
        acceptedCount ext epoch start (before ++ first :: between) + nonceCount ext epoch
          (serviceCache ext epoch start (before ++ first :: between)) (second :: after) := by
      rw [show before ++ first :: (between ++ second :: after) =
        (before ++ first :: between) ++ second :: after by simp]
      exact nonceCount_append _ _ _
    -- the nonce of the first is still known when the second comes
    obtain ⟨nonce, hasNonce, remembers⟩ :=
      service_remembers timely (by omega) firstRead digest accepted
    have later : Timely start ((before ++ first :: between) ++ second :: after) :=
      by simpa using timely
    obtain ⟨advanced, started⟩ := service_advanced ext epoch later
    obtain ⟨token', authenticated, _⟩ := validateUsernameToken_ok_iff.mp accepted
    obtain ⟨read', _, _, _, fresh⟩ := authenticate_ok_iff.mp authenticated
    obtain rfl : token = token' := Except.ok.inj (firstRead.symm.trans read')
    exact refused_of_remembers firstRead secondRead digest hasNonce accepted
      (timely.split.2.2 second (by simp)) advanced.halfWindowSecs started remembers
      (covered before first _ rfl token firstRead digest fresh)
  · intro run p token user timely few read digest accepted exposed
    have count : acceptedCount ext epoch start (run ++ [p]) = acceptedCount ext epoch start run + _ :=
      nonceCount_append _ run [p]
    have room := service_room ext epoch timely (by omega)
    obtain ⟨advanced, _⟩ := service_advanced ext epoch timely
    have notBefore : ¬ CreatedBeforeBucket ext epoch (serviceCache ext epoch start run) p.instant token := by
      intro before
      apply exposed
      intro token' read' _ _
      obtain rfl : token = token' := Except.ok.inj (read.symm.trans read')
      exact before
    -- outside of the cover the same header is accepted once its bucket is gone
    obtain ⟨order, again⟩ := accepted_again read digest accepted room advanced.halfWindowSecs notBefore
    refine ⟨_, timely.extend order, fun once => ?_⟩
    exact not_once (p := p) read digest accepted again once

/-- A presentation of the vector's token. -/
def vectorPresentation (secs : Nat) : Presentation :=
  ⟨(digestToken vectorNonce).header, adminOnly, secs * nanosPerSec⟩

theorem vectorPresentation_read (secs : Nat) :
    parseUsernameToken vector (vectorPresentation secs).securityBytes = .ok (digestToken vectorNonce) :=
  digestToken_read vectorNonce_plain

/-- A service built ten seconds after `Created` covers the token, whenever it is presented. -/
theorem vector_accepted_once :
    AcceptedOnce vector (vectorCreatedDt + 10 * nanosPerSec) 0 [vectorPresentation 0, vectorPresentation 1] := by
  refine (accepted_once_when_covered vector _ 0).1 _ ?_ ?_ ?_
  · simp [Timely, vectorPresentation]
  · exact (nonceCount_le_length _ _).trans_lt (by decide)
  · intro before p after split token read _ _ created createdDt hasCreated parsed
    have member : p ∈ [vectorPresentation 0, vectorPresentation 1] := split ▸ by simp
    have same : token = digestToken vectorNonce := by
      simp only [List.mem_cons, List.not_mem_nil, or_false] at member
      rcases member with rfl | rfl
      · exact Except.ok.inj (read.symm.trans (vectorPresentation_read _))
      · exact Except.ok.inj (read.symm.trans (vectorPresentation_read _))
    subst same
    obtain rfl : vectorCreated = created := Option.some.inj hasCreated
    obtain rfl : vectorCreatedDt = createdDt :=
      Option.some.inj (vectorCreated_parsed.symm.trans parsed)
    have : (0 : Int) < nanosPerSec := by decide
    omega

/-- Accepted 149 seconds after the service was built, the token is accepted again at 300
seconds, when it is still 200 seconds old. -/
theorem vector_replayed : ¬ ReplayFree vector (vectorCreatedDt - 100 * nanosPerSec) 0 := by
  intro free
  have accepted : (present vector (vectorCreatedDt - 100 * nanosPerSec) (vectorPresentation 149)
      (serviceCache vector (vectorCreatedDt - 100 * nanosPerSec) 0 [])).1 = .ok "admin".toList := by
    refine validateUsernameToken_ok_iff.mpr ⟨digestToken vectorNonce,
      digestToken_authenticates vectorNonce_plain vectorNonce_decoded (by decide), rfl, fun n _ =>
        ⟨by decide, ?_⟩⟩
    simp [RotatingNonceCache.rotated_contains_iff, serviceCache, cacheAfter, RotatingNonceCache.new,
      RotatingNonceCache.withMaxEntries]
  obtain ⟨_, again⟩ := accepted_again (vectorPresentation_read 149) rfl accepted (by decide) rfl (by
    intro before
    have := before vectorCreated vectorCreatedDt rfl vectorCreated_parsed
    revert this
    decide)
  refine not_once (vectorPresentation_read 149) rfl accepted again ?_
  refine free _ ?_ ((nonceCount_le_length _ _).trans_lt (by decide))
  simp only [Timely]
  decide

end SoapServer.Wssec
