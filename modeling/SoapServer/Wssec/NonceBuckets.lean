import SoapServer.Wssec.NonceWindow

/-! What the buckets of the cache hold in every state that a run reaches: no nonce twice, no
more nonces than there is room for, and each one since a known instant.
-/

set_option autoImplicit false

namespace SoapServer.Wssec

open Markup (Text)

namespace RotatingNonceCache

variable {c : RotatingNonceCache} {nonce : Text} {now t : Nat} {call : Check} {run : List Check}

/-- The last call of the run that accepted the nonce was at that instant. -/
def LastAcceptedAt (c : RotatingNonceCache) (run : List Check) (nonce : Text) (t : Nat) : Prop :=
  ∃ before call after, run = before ++ call :: after ∧ (c.afterChecks before).Accepts call ∧
    call.nonce = nonce ∧ call.instant = t ∧ nonce ∉ accepted (c.afterChecks (before ++ [call])) after

/-- Disjoint buckets with room left for their nonces, each of which was put there at an instant
of its bucket. -/
structure Sound (putAt : Text → Nat → Prop) (c : RotatingNonceCache) : Prop where
  disjoint : Disjoint c.current c.previous
  currentRoom : c.current.card ≤ max c.maxEntries 1
  previousRoom : c.previous.card ≤ max c.maxEntries 1
  current : ∀ n ∈ c.current, ∃ t, putAt n t ∧ c.bucketStart ≤ t ∧ t < c.bucketStart + c.width
  previous : ∀ n ∈ c.previous, ∃ t, putAt n t ∧ t ≤ c.bucketStart ∧
    c.bucketStart + c.width ≤ t + 2 * c.width

variable {putAt putAt' : Text → Nat → Prop}

theorem Sound.mono (sound : Sound putAt c) (kept : ∀ n t, c.contains n → putAt n t → putAt' n t) :
    Sound putAt' c where
  disjoint := sound.disjoint
  currentRoom := sound.currentRoom
  previousRoom := sound.previousRoom
  current n member := (sound.current n member).imp fun t => And.imp_left (kept n t (.inl member))
  previous n member := (sound.previous n member).imp fun t => And.imp_left (kept n t (.inr member))

/-- A rotation by the clock: the bucket that becomes the previous one has ended. -/
theorem Sound.rotate (sound : Sound putAt c) : Sound putAt c.rotate where
  disjoint := Finset.disjoint_empty_left _
  currentRoom := Nat.zero_le _
  previousRoom := sound.currentRoom
  current n member := absurd member (Finset.notMem_empty n)
  previous n member := by
    obtain ⟨t, put, started, ended⟩ := sound.current n member
    refine ⟨t, put, ended.le, ?_⟩
    rw [rotate_bucketStart, rotate_width]
    omega

theorem Sound.rotated (sound : Sound putAt c) (now : Nat) : Sound putAt (c.rotated now) := by
  unfold RotatingNonceCache.rotated
  induction c.due now with
  | zero => exact sound
  | succ n ih =>
    rw [Function.iterate_succ_apply']
    exact ih.rotate

/-- A forced rotation dates the new bucket by the call, before the old one has ended. -/
theorem Sound.forceRotate (sound : Sound putAt c) (past : ∀ n t, putAt n t → t ≤ now)
    (recent : now < c.bucketStart + c.width) : Sound putAt (c.forceRotate now) where
  disjoint := Finset.disjoint_empty_left _
  currentRoom := Nat.zero_le _
  previousRoom := sound.currentRoom
  current n member := absurd member (Finset.notMem_empty n)
  previous n member := by
    obtain ⟨t, put, started, _⟩ := sound.current n member
    refine ⟨t, put, past n t put, ?_⟩
    change now + c.width ≤ t + 2 * c.width
    omega

theorem Sound.insert (sound : Sound putAt c) (unseen : ¬ c.contains nonce)
    (room : c.current.card < max c.maxEntries 1) (started : c.bucketStart ≤ now)
    (recent : now < c.bucketStart + c.width) (put : putAt nonce now) :
    Sound putAt (c.insert nonce) where
  disjoint := Finset.disjoint_insert_left.mpr ⟨fun member => unseen (.inr member), sound.disjoint⟩
  currentRoom := (Finset.card_insert_le _ _).trans room
  previousRoom := sound.previousRoom
  current n member := by
    rcases Finset.mem_insert.mp member with rfl | member
    · exact ⟨now, put, started, recent⟩
    · exact sound.current n member
  previous := sound.previous

/-- The instants after one more call: only the nonce that it accepts gets a new one. -/
def putBy (c : RotatingNonceCache) (call : Check) (putAt : Text → Nat → Prop) (nonce : Text)
    (t : Nat) : Prop :=
  if nonce ∈ c.acceptedBy call then t = call.instant else putAt nonce t

theorem mem_acceptedBy : nonce ∈ c.acceptedBy call ↔ c.Accepts call ∧ nonce = call.nonce := by
  unfold acceptedBy Accepts
  split
  next accepts => simp [accepts]
  next refused => simp [refused]

theorem putBy_of_ne (other : nonce ≠ call.nonce) (put : putAt nonce t) :
    c.putBy call putAt nonce t := by
  rwa [putBy, if_neg fun member => other (mem_acceptedBy.mp member).2]

theorem putBy_of_refused (refused : ¬ c.Accepts call) (put : putAt nonce t) :
    c.putBy call putAt nonce t := by
  rwa [putBy, if_neg fun member => refused (mem_acceptedBy.mp member).1]

theorem putBy_self (accepts : c.Accepts call) : c.putBy call putAt call.nonce call.instant := by
  rw [putBy, if_pos (mem_acceptedBy.mpr ⟨accepts, rfl⟩)]

theorem putBy_le (past : ∀ n t, putAt n t → t ≤ call.instant) (put : c.putBy call putAt nonce t) :
    t ≤ call.instant := by
  unfold putBy at put
  split at put
  · exact put.le
  · exact past nonce t put

/-- One call, by the cases of its spec: what it adds was put there by the call itself. -/
theorem Sound.check (positive : 0 < c.halfWindowSecs) (sound : Sound putAt c)
    (started : c.bucketStart ≤ call.instant) (past : ∀ n t, putAt n t → t ≤ call.instant) :
    Sound (c.putBy call putAt) (c.check call).2 := by
  have rotated := sound.rotated call.instant
  have early : (c.rotated call.instant).bucketStart ≤ call.instant := rotated_bucketStart_le started
  have recent : call.instant < (c.rotated call.instant).bucketStart + (c.rotated call.instant).width := by
    rw [rotated_width]
    exact lt_rotated_bucketStart positive
  rcases check_cases positive call with ⟨_, result⟩ | ⟨unseen, result⟩
  · have refused : ¬ c.Accepts call := by
      rw [Accepts, result]
      exact fun wrong => by cases wrong
    rw [result]
    exact rotated.mono fun n t _ put => putBy_of_refused refused put
  · have accepts : c.Accepts call := by rw [Accepts, result]
    -- the other nonces keep their instants, as none of them is the one that comes in
    have kept : Sound (c.putBy call putAt) (c.rotated call.instant) :=
      rotated.mono fun n t contains put => putBy_of_ne (fun same => unseen (same ▸ contains)) put
    rw [result]
    rcases (c.rotated call.instant).makeRoom_cases call.instant with ⟨_, made⟩ | ⟨room, made⟩
    · have forced := kept.forceRotate (fun n t => putBy_le past) recent
      have wide : 0 < (c.rotated call.instant).width := by
        rw [rotated_width]
        exact width_pos positive
      rw [made]
      refine forced.insert ?_ ?_ le_rfl (Nat.lt_add_of_pos_right wide) (putBy_self accepts)
      · rintro (member | member)
        · exact Finset.notMem_empty _ member
        · exact unseen (.inl member)
      · exact Nat.lt_of_lt_of_le Nat.zero_lt_one (le_max_right _ _)
    · rw [made]
      exact kept.insert unseen (room.trans_le (le_max_left _ _)) early recent (putBy_self accepts)

theorem accepted_append (c : RotatingNonceCache) (first second : List Check) :
    accepted c (first ++ second) = accepted c first ∪ accepted (c.afterChecks first) second := by
  induction first generalizing c with
  | nil => exact (Finset.empty_union _).symm
  | cons call rest ih =>
    rw [List.cons_append, accepted, accepted, ih, Finset.union_assoc]
    rfl

/-- One more call leaves the last instant of a nonce as it was, unless it accepts that nonce. -/
theorem lastAcceptedAt_append (known : (c.afterChecks run).putBy call (LastAcceptedAt c run) nonce t) :
    LastAcceptedAt c (run ++ [call]) nonce t := by
  unfold putBy at known
  split at known
  next member =>
    obtain ⟨accepts, rfl⟩ := mem_acceptedBy.mp member
    exact ⟨run, call, [], rfl, accepts, rfl, known.symm, Finset.notMem_empty _⟩
  next other =>
    obtain ⟨before, earlier, after, rfl, accepts, named, instant, last⟩ := known
    refine ⟨before, earlier, after ++ [call], by simp, accepts, named, instant, fun member => ?_⟩
    have same : (c.afterChecks (before ++ [earlier])).afterChecks after = c.afterChecks (before ++ earlier :: after) := by
      simp [afterChecks]
    rw [accepted_append, same, Finset.mem_union] at member
    rcases member with member | member
    · exact last member
    · rw [accepted, accepted, Finset.union_empty] at member
      exact other member

theorem LastAcceptedAt.le (accepted : LastAcceptedAt c run nonce t)
    (past : ∀ other ∈ run, other.instant ≤ now) :
    t ≤ now := by
  obtain ⟨before, call, after, rfl, _, _, rfl, _⟩ := accepted
  exact past call (List.mem_append_right _ (.head _))

/-- The run: by its last call. -/
theorem afterChecks_sound (positive : 0 < c.halfWindowSecs) (sound : Sound (LastAcceptedAt c []) c)
    (timely : Timely c.bucketStart run) : Sound (LastAcceptedAt c run) (c.afterChecks run) := by
  induction run using List.reverseRecOn with
  | nil => exact sound
  | append_singleton run call ih =>
    obtain ⟨start, order, _⟩ := timely.split
    have settings := (afterChecks_settings positive run).1
    rw [afterChecks_append]
    have stepped := (ih timely.left).check (settings ▸ positive) (afterChecks_bucketStart_le positive start order)
      fun n t accepted => accepted.le order
    exact stepped.mono fun n t _ => lastAcceptedAt_append

theorem withMaxEntries_sound (putAt : Text → Nat → Prop) (halfWindowSecs maxEntries start : Nat) :
    Sound putAt (withMaxEntries halfWindowSecs maxEntries start) where
  disjoint := Finset.disjoint_empty_left _
  currentRoom := Nat.zero_le _
  previousRoom := Nat.zero_le _
  current n member := absurd member (Finset.notMem_empty n)
  previous n member := absurd member (Finset.notMem_empty n)

/-- In every state that a run of a new cache reaches, the buckets are disjoint and hold no more
than `max maxEntries 1` nonces each. Those of the current bucket were last accepted after its
start; those of the previous one no later than that, and at most two half windows before the
current one ends. -/
theorem buckets_sound {halfWindowSecs : Nat} (positive : 1 ≤ halfWindowSecs)
    (maxEntries start : Nat) {run : List Check} (timely : Timely start run) :
    let new := withMaxEntries halfWindowSecs maxEntries start
    let cache := new.afterChecks run
    let halfWindow := nanosPerSec * halfWindowSecs
    Disjoint cache.current cache.previous ∧
    cache.current.card ≤ max maxEntries 1 ∧ cache.previous.card ≤ max maxEntries 1 ∧
    (∀ n ∈ cache.current, ∃ t, LastAcceptedAt new run n t ∧ cache.bucketStart ≤ t) ∧
    (∀ n ∈ cache.previous, ∃ t, LastAcceptedAt new run n t ∧ t ≤ cache.bucketStart ∧
      cache.bucketStart + halfWindow ≤ t + 2 * halfWindow) ∧
    (cache.current ∪ cache.previous).card ≤ 2 * max maxEntries 1 := by
  intro new cache halfWindow
  have settings := afterChecks_settings (c := new) positive run
  have room : cache.maxEntries = maxEntries := settings.2
  have width : cache.width = halfWindow := by
    rw [RotatingNonceCache.width, settings.1]
    rfl
  have sound : Sound (LastAcceptedAt new run) cache :=
    afterChecks_sound positive (withMaxEntries_sound _ halfWindowSecs maxEntries start) timely
  have currentRoom := sound.currentRoom
  have previousRoom := sound.previousRoom
  rw [room] at currentRoom previousRoom
  refine ⟨sound.disjoint, currentRoom, previousRoom, fun n member => ?_, fun n member => ?_, ?_⟩
  · obtain ⟨t, accepted, started, _⟩ := sound.current n member
    exact ⟨t, accepted, started⟩
  · have before := sound.previous n member
    rwa [width] at before
  · have both := Finset.card_union_le cache.current cache.previous
    omega

/-- With room for one nonce, the second call forces the first one's nonce into the previous bucket. -/
theorem otherCall_buckets_sound :
    let cache := (withMaxEntries 1 1 0).afterChecks [firstCall, otherCall]
    cache.current = {otherCall.nonce} ∧ cache.previous = {firstCall.nonce} ∧
      (∃ t, LastAcceptedAt (withMaxEntries 1 1 0) [firstCall, otherCall] firstCall.nonce t ∧ t ≤ cache.bucketStart ∧
        cache.bucketStart + nanosPerSec * 1 ≤ t + 2 * (nanosPerSec * 1)) ∧
      (cache.current ∪ cache.previous).card ≤ 2 := by
  intro cache
  have timely : Timely 0 [firstCall, otherCall] := by
    simp only [Timely]
    decide
  have current : cache.current = {otherCall.nonce} := by decide +kernel
  have previous : cache.previous = {firstCall.nonce} := by decide +kernel
  obtain ⟨_, _, _, _, forced, few⟩ := buckets_sound le_rfl 1 0 timely
  exact ⟨current, previous, forced firstCall.nonce (previous ▸ Finset.mem_singleton_self _), few⟩

end RotatingNonceCache

end SoapServer.Wssec
