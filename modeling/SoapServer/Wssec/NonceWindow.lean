import SoapServer.Wssec.NonceCache

/-! How long the cache refuses a nonce: at least one half window, unless more nonces than
a bucket holds come in, and less than two.
-/

set_option autoImplicit false

namespace SoapServer.Wssec

open Markup (Text)

namespace RotatingNonceCache

/-- A call of `check_and_insert`. -/
structure Check where
  nonce : Text
  instant : Nat

def check (call : Check) (c : RotatingNonceCache) : Outcome Unit × RotatingNonceCache :=
  c.checkAndInsert call.instant call.nonce

def afterChecks (c : RotatingNonceCache) (run : List Check) : RotatingNonceCache :=
  run.foldl (fun c call => (c.check call).2) c

def Accepts (c : RotatingNonceCache) (call : Check) : Prop := (c.check call).1 = .ok ()

/-- What one call accepts. -/
def acceptedBy (c : RotatingNonceCache) (call : Check) : Finset Text :=
  match (c.check call).1 with
  | .ok _ => {call.nonce}
  | .error _ => ∅

/-- The nonces accepted in a run. -/
def accepted : RotatingNonceCache → List Check → Finset Text
  | _, [] => ∅
  | c, call :: rest => c.acceptedBy call ∪ accepted (c.check call).2 rest

/-- Instants that do not decrease, from `start` on. -/
def Timely (start : Nat) (run : List Check) : Prop :=
  (start :: run.map (·.instant)).Pairwise (· ≤ ·)

variable {c : RotatingNonceCache} {nonce : Text} {now t : Nat} {call : Check} {run : List Check}

/-! One call. -/

/-- A call refuses a nonce in a bucket, or adds it to the current one. -/
theorem check_cases (positive : 0 < c.halfWindowSecs) (call : Check) :
    ((c.rotated call.instant).contains call.nonce ∧
        c.check call = (senderFault replayDetected, c.rotated call.instant)) ∨
      (¬ (c.rotated call.instant).contains call.nonce ∧
        c.check call = (.ok (), ((c.rotated call.instant).makeRoom call.instant).insert call.nonce)) := by
  rw [check, checkAndInsert_eq positive]
  by_cases seen : (c.rotated call.instant).contains call.nonce
  · exact .inl ⟨seen, if_pos seen⟩
  · exact .inr ⟨seen, if_neg seen⟩

theorem makeRoom_cases (now : Nat) (c : RotatingNonceCache) :
    (c.maxEntries ≤ c.current.card ∧ c.makeRoom now = c.forceRotate now) ∨
      (c.current.card < c.maxEntries ∧ c.makeRoom now = c) := by
  rcases Nat.lt_or_ge c.current.card c.maxEntries with room | full
  · exact .inr ⟨room, if_neg (Nat.not_le.mpr room)⟩
  · exact .inl ⟨full, if_pos full⟩

@[simp] theorem makeRoom_maxEntries : (c.makeRoom now).maxEntries = c.maxEntries := by
  rcases c.makeRoom_cases now with ⟨_, made⟩ | ⟨_, made⟩
  · rw [made]
    rfl
  · rw [made]

/-- The settings of a cache outlive every call. -/
theorem check_settings (positive : 0 < c.halfWindowSecs) (call : Check) :
    (c.check call).2.halfWindowSecs = c.halfWindowSecs ∧ (c.check call).2.maxEntries = c.maxEntries := by
  rcases check_cases positive call with ⟨_, result⟩ | ⟨_, result⟩
  · rw [result]
    exact ⟨rotated_halfWindowSecs, rotated_maxEntries⟩
  · rw [result]
    exact ⟨by simp, makeRoom_maxEntries.trans rotated_maxEntries⟩

theorem afterChecks_settings (positive : 0 < c.halfWindowSecs) (run : List Check) :
    (c.afterChecks run).halfWindowSecs = c.halfWindowSecs ∧ (c.afterChecks run).maxEntries = c.maxEntries := by
  induction run generalizing c with
  | nil => exact ⟨rfl, rfl⟩
  | cons call rest ih =>
    obtain ⟨half, entries⟩ := check_settings positive call
    obtain ⟨half', entries'⟩ := ih (c := (c.check call).2) (half ▸ positive)
    exact ⟨half'.trans half, entries'.trans entries⟩

/-! A nonce accepted at `t` stays in a bucket for a half window. -/

/-- Where a nonce accepted at `t` is once the nonces `others` came in after it: in the
current bucket, or in the previous one under a current bucket of later nonces only. -/
inductive Holds (nonce : Text) (t : Nat) (others : Finset Text) (c : RotatingNonceCache) : Prop
  | current (member : nonce ∈ c.current) (started : t < c.bucketStart + c.width)
      (kept : others ⊆ c.current)
  | previous (member : nonce ∈ c.previous) (started : t ≤ c.bucketStart) (later : c.current ⊆ others)
      (kept : others ⊆ c.current ∪ c.previous)

variable {others : Finset Text}

theorem Holds.contains (holds : Holds nonce t others c) : c.contains nonce := by
  cases holds with
  | current member => exact .inl member
  | previous member => exact .inr member

/-- Within the half window the clock rotates the bucket of the nonce at most once. -/
theorem Holds.rotated (positive : 0 < c.halfWindowSecs) (holds : Holds nonce t others c)
    (recent : now < t + c.width) : Holds nonce t others (c.rotated now) := by
  have wide := width_pos positive
  by_cases overdue : c.width ≤ now - c.bucketStart
  · cases holds with
    | current member started kept =>
      have once : c.due now = 1 := by
        rw [due_rotate overdue wide, due_eq_zero]
        simp only [rotate_width, rotate_bucketStart]
        omega
      rw [RotatingNonceCache.rotated, once]
      exact .previous member started.le (Finset.empty_subset _) (kept.trans Finset.subset_union_right)
    | previous _ started => omega
  · rwa [rotated_of_due (due_eq_zero overdue)]

/-- A new nonce forces the bucket out only once the later nonces are more than a bucket holds. -/
theorem Holds.insert (holds : Holds nonce t others c) (order : t ≤ now) {other : Text}
    (unseen : ¬ c.contains other) (room : (Insert.insert other others).card ≤ c.maxEntries) :
    Holds nonce t (Insert.insert other others) ((c.makeRoom now).insert other) := by
  rcases c.makeRoom_cases now with ⟨full, made⟩ | ⟨_, made⟩
  · rw [made]
    cases holds with
    | current member started kept =>
      exact .previous member order (Finset.insert_subset_insert _ (Finset.empty_subset _))
        (Finset.insert_subset (Finset.mem_union_left _ (Finset.mem_insert_self _ _))
          (kept.trans Finset.subset_union_right))
    | previous member started later kept =>
      have fresh : other ∉ others := fun among =>
        unseen (Finset.mem_union.mp (kept among))
      have := Finset.card_le_card later
      rw [Finset.card_insert_of_notMem fresh] at room
      omega
  · rw [made]
    cases holds with
    | current member started kept =>
      exact .current (Finset.mem_insert_of_mem member) started (Finset.insert_subset_insert _ kept)
    | previous member started later kept =>
      exact .previous member started (Finset.insert_subset_insert _ later)
        (Finset.insert_subset (Finset.mem_union_left _ (Finset.mem_insert_self _ _))
          (kept.trans (Finset.union_subset_union_left (Finset.subset_insert _ _))))

/-- One call keeps a nonce held while the half window lasts and there is room. -/
theorem Holds.check (positive : 0 < c.halfWindowSecs) (holds : Holds nonce t others c)
    (order : t ≤ call.instant) (recent : call.instant < t + c.width)
    (room : (others ∪ (c.acceptedBy call).erase nonce).card ≤ c.maxEntries) :
    Holds nonce t (others ∪ (c.acceptedBy call).erase nonce) (c.check call).2 := by
  have held := holds.rotated positive recent
  rcases check_cases positive call with ⟨_, result⟩ | ⟨unseen, result⟩
  · have none : c.acceptedBy call = ∅ := by rw [acceptedBy, result]; rfl
    rw [none, result, Finset.erase_empty, Finset.union_empty]
    exact held
  · have different : nonce ≠ call.nonce := fun same => unseen (same ▸ held.contains)
    have one : (c.acceptedBy call).erase nonce = {call.nonce} := by
      rw [acceptedBy, result]
      exact Finset.erase_eq_of_notMem (Finset.mem_singleton.not.mpr different)
    rw [one, Finset.union_singleton] at room ⊢
    rw [result]
    exact held.insert order unseen (by rwa [rotated_maxEntries])

/-- A run keeps it held. -/
theorem Holds.afterChecks (positive : 0 < c.halfWindowSecs) (holds : Holds nonce t others c)
    (times : ∀ call ∈ run, t ≤ call.instant ∧ call.instant < t + c.width)
    (room : (others ∪ (accepted c run).erase nonce).card ≤ c.maxEntries) :
    ∃ others', Holds nonce t others' (c.afterChecks run) := by
  induction run generalizing c others with
  | nil => exact ⟨others, holds⟩
  | cons call rest ih =>
    obtain ⟨order, recent⟩ := times call (.head _)
    obtain ⟨half, entries⟩ := check_settings positive call
    have width : (c.check call).2.width = c.width := by rw [RotatingNonceCache.width, half]; rfl
    rw [accepted, Finset.erase_union_distrib, ← Finset.union_assoc] at room
    have step := holds.check positive order recent
      ((Finset.card_le_card Finset.subset_union_left).trans room)
    refine ih (half ▸ positive) step (fun call' member => ?_) (entries ▸ room)
    rw [width]
    exact times call' (.tail _ member)

/-- The state of a nonce right after it is accepted. -/
theorem holds_of_accepted (positive : 0 < c.halfWindowSecs) (accepts : c.Accepts call) :
    Holds call.nonce call.instant ∅ (c.check call).2 := by
  rcases check_cases positive call with ⟨_, result⟩ | ⟨_, result⟩
  · rw [Accepts, result] at accepts
    cases accepts
  · have recent : call.instant < (c.rotated call.instant).bucketStart + c.width :=
      lt_rotated_bucketStart positive
    have wide := width_pos positive
    rw [result]
    refine .current (Finset.mem_insert_self _ _) ?_ (Finset.empty_subset _)
    rcases (c.rotated call.instant).makeRoom_cases call.instant with ⟨_, made⟩ | ⟨_, made⟩
    · have same : (((c.rotated call.instant).forceRotate call.instant).insert call.nonce).width = c.width :=
        rotated_width
      rw [made, same]
      exact Nat.lt_add_of_pos_right wide
    · have same : ((c.rotated call.instant).insert call.nonce).width = c.width := rotated_width
      rw [made, same]
      exact recent

/-! A nonce in a bucket was accepted less than two half windows ago. -/

/-- The nonces of the buckets, each with an instant at which it was accepted. -/
structure Accounted (acceptedAt : Text → Nat → Prop) (c : RotatingNonceCache) : Prop where
  current : ∀ n ∈ c.current, ∃ t, acceptedAt n t ∧ c.bucketStart ≤ t
  previous : ∀ n ∈ c.previous, ∃ t, acceptedAt n t ∧ c.bucketStart ≤ t + c.width

variable {acceptedAt acceptedAt' : Text → Nat → Prop}

theorem Accounted.mono (accounted : Accounted acceptedAt c)
    (more : ∀ n t, acceptedAt n t → acceptedAt' n t) : Accounted acceptedAt' c where
  current n member := (accounted.current n member).imp fun _ => And.imp_left (more n _)
  previous n member := (accounted.previous n member).imp fun _ => And.imp_left (more n _)

theorem Accounted.rotate (accounted : Accounted acceptedAt c) : Accounted acceptedAt c.rotate where
  current n member := absurd member (Finset.notMem_empty _)
  previous n member := by
    obtain ⟨t, known, bound⟩ := accounted.current n member
    exact ⟨t, known, Nat.add_le_add_right bound _⟩

theorem Accounted.rotated (accounted : Accounted acceptedAt c) (now : Nat) :
    Accounted acceptedAt (c.rotated now) := by
  unfold RotatingNonceCache.rotated
  induction c.due now with
  | zero => exact accounted
  | succ n ih =>
    rw [Function.iterate_succ_apply']
    exact ih.rotate

theorem Accounted.makeRoom (accounted : Accounted acceptedAt c)
    (recent : now < c.bucketStart + c.width) :
    Accounted acceptedAt (c.makeRoom now) := by
  rcases c.makeRoom_cases now with ⟨_, made⟩ | ⟨_, made⟩
  · rw [made]
    refine ⟨fun n member => absurd member (Finset.notMem_empty _), fun n member => ?_⟩
    obtain ⟨t, known, bound⟩ := accounted.current n member
    exact ⟨t, known, recent.le.trans (Nat.add_le_add_right bound _)⟩
  · rwa [made]

theorem makeRoom_bucketStart_le (started : c.bucketStart ≤ now) :
    (c.makeRoom now).bucketStart ≤ now := by
  rcases c.makeRoom_cases now with ⟨_, made⟩ | ⟨_, made⟩
  · rw [made]
    exact le_rfl
  · rwa [made]

theorem Accounted.insert (accounted : Accounted acceptedAt c) (started : c.bucketStart ≤ now)
    (known : acceptedAt nonce now) : Accounted acceptedAt (c.insert nonce) where
  current n member := by
    rcases Finset.mem_insert.mp member with rfl | member
    · exact ⟨now, known, started⟩
    · exact accounted.current n member
  previous := accounted.previous

/-- While no rotation is due, what a bucket holds was accepted within two half windows. -/
theorem Accounted.recent (accounted : Accounted acceptedAt c)
    (settled : now < c.bucketStart + c.width) (contains : c.contains nonce) :
    ∃ t, acceptedAt nonce t ∧ now < t + 2 * c.width := by
  rcases contains with member | member
  · obtain ⟨t, known, bound⟩ := accounted.current nonce member
    exact ⟨t, known, by omega⟩
  · obtain ⟨t, known, bound⟩ := accounted.previous nonce member
    exact ⟨t, known, by omega⟩

/-- A call of the run accepted the nonce at that instant. -/
def AcceptedAt (c : RotatingNonceCache) (run : List Check) (nonce : Text) (t : Nat) : Prop :=
  ∃ before call after, run = before ++ call :: after ∧ (c.afterChecks before).Accepts call ∧
    call.nonce = nonce ∧ call.instant = t

theorem AcceptedAt.append (accepted : AcceptedAt c run nonce t) (more : List Check) :
    AcceptedAt c (run ++ more) nonce t := by
  obtain ⟨before, call, after, rfl, rest⟩ := accepted
  exact ⟨before, call, after ++ more, by simp, rest⟩

@[simp] theorem afterChecks_append (run : List Check) (call : Check) :
    c.afterChecks (run ++ [call]) = ((c.afterChecks run).check call).2 := by
  simp [afterChecks]

theorem check_bucketStart_le (positive : 0 < c.halfWindowSecs) (started : c.bucketStart ≤ now)
    (order : call.instant ≤ now) : (c.check call).2.bucketStart ≤ now := by
  have rotated : (c.rotated call.instant).bucketStart ≤ now := by
    rcases Nat.le_total c.bucketStart call.instant with after | before
    · exact (rotated_bucketStart_le after).trans order
    · have wide := width_pos positive
      rwa [rotated_of_due (due_eq_zero (by omega))]
  rcases check_cases positive call with ⟨_, result⟩ | ⟨_, result⟩
  · rwa [result]
  · rw [result]
    rcases (c.rotated call.instant).makeRoom_cases call.instant with ⟨_, made⟩ | ⟨_, made⟩
    · rw [made]
      exact order
    · rwa [made]

theorem afterChecks_bucketStart_le (positive : 0 < c.halfWindowSecs) (started : c.bucketStart ≤ now)
    (order : ∀ call ∈ run, call.instant ≤ now) : (c.afterChecks run).bucketStart ≤ now := by
  induction run generalizing c with
  | nil => exact started
  | cons call rest ih =>
    exact ih ((check_settings positive call).1 ▸ positive)
      (check_bucketStart_le positive started (order call (.head _))) fun call' member =>
        order call' (.tail _ member)

/-- One call accounts for the nonce that it adds. -/
theorem Accounted.check (positive : 0 < c.halfWindowSecs) (accounted : Accounted acceptedAt c)
    (started : c.bucketStart ≤ call.instant)
    (known : c.Accepts call → acceptedAt call.nonce call.instant) :
    Accounted acceptedAt (c.check call).2 := by
  have rotated := accounted.rotated call.instant
  have early : (c.rotated call.instant).bucketStart ≤ call.instant := rotated_bucketStart_le started
  have recent : call.instant < (c.rotated call.instant).bucketStart + (c.rotated call.instant).width := by
    rw [rotated_width]
    exact lt_rotated_bucketStart positive
  rcases check_cases positive call with ⟨_, result⟩ | ⟨_, result⟩
  · rwa [result]
  · rw [result]
    exact (rotated.makeRoom recent).insert (makeRoom_bucketStart_le early) (known (by rw [Accepts, result]))

theorem Timely.split {start : Nat} {before after : List Check}
    (timely : Timely start (before ++ call :: after)) :
    start ≤ call.instant ∧ (∀ other ∈ before, other.instant ≤ call.instant) ∧
      ∀ other ∈ after, call.instant ≤ other.instant :=
  Generations.order_split timely

theorem Timely.left {start : Nat} {before after : List Check}
    (timely : Timely start (before ++ after)) :
    Timely start before := by
  unfold Timely at timely ⊢
  rw [List.map_append, ← List.cons_append] at timely
  exact (List.pairwise_append.mp timely).1

/-- After a run of a new cache all that its buckets hold is accounted for. -/
theorem afterChecks_accounted (positive : 0 < c.halfWindowSecs) (fresh : ∀ n, ¬ c.contains n)
    (timely : Timely c.bucketStart run) : Accounted (AcceptedAt c run) (c.afterChecks run) := by
  induction run using List.reverseRecOn with
  | nil =>
    exact ⟨fun n member => absurd (.inl member) (fresh n),
      fun n member => absurd (.inr member) (fresh n)⟩
  | append_singleton run call ih =>
    obtain ⟨start, order, _⟩ := timely.split
    have settings := (afterChecks_settings positive run).1
    rw [afterChecks_append]
    refine ((ih timely.left).mono fun n t => fun accepted => accepted.append [call]).check (settings ▸ positive)
      (afterChecks_bucketStart_le positive start order) fun accepts => ?_
    exact ⟨run, call, [], rfl, accepts, rfl, rfl⟩

/-- In every run of a new cache, a nonce accepted at an instant is refused for a half window
while no more than `maxEntries` other nonces are accepted, and a nonce that is refused was
accepted less than two half windows before. -/
theorem nonce_window {halfWindowSecs : Nat} (positive : 1 ≤ halfWindowSecs) (maxEntries start : Nat)
    {run : List Check} (timely : Timely start run) :
    let new := withMaxEntries halfWindowSecs maxEntries start
    (∀ before first between second after, run = before ++ first :: (between ++ second :: after) →
      second.nonce = first.nonce → (new.afterChecks before).Accepts first →
      second.instant < first.instant + nanosPerSec * halfWindowSecs →
      ((accepted (new.afterChecks (before ++ [first])) between).erase first.nonce).card ≤ maxEntries →
      ((new.afterChecks (before ++ first :: between)).check second).1 = senderFault replayDetected) ∧
    (∀ before call after, run = before ++ call :: after → ¬ (new.afterChecks before).Accepts call →
      ∃ t, AcceptedAt new before call.nonce t ∧ call.instant < t + 2 * (nanosPerSec * halfWindowSecs)) := by
  intro new
  have width (checks : List Check) : (new.afterChecks checks).width = nanosPerSec * halfWindowSecs := by
    rw [RotatingNonceCache.width, (afterChecks_settings (c := new) positive checks).1]
    rfl
  have half (checks : List Check) : 0 < (new.afterChecks checks).halfWindowSecs :=
    (afterChecks_settings (c := new) positive checks).1 ▸ positive
  constructor
  · rintro before first between second after rfl same accepts recent few
    have later : Timely start ((before ++ first :: between) ++ second :: after) :=
      by simpa using timely
    have split : new.afterChecks (before ++ first :: between) =
        (new.afterChecks (before ++ [first])).afterChecks between := by simp [afterChecks]
    have wide : first.instant + (new.afterChecks (before ++ [first])).width =
        first.instant + nanosPerSec * halfWindowSecs := by rw [width]
    -- from the instant it is accepted the nonce is held, with no other nonce after it
    have held : Holds first.nonce first.instant ∅ (new.afterChecks (before ++ [first])) := by
      rw [afterChecks_append]
      exact holds_of_accepted (half before) accepts
    -- all that comes between comes within the half window
    have times : ∀ call ∈ between, first.instant ≤ call.instant ∧
        call.instant < first.instant + (new.afterChecks (before ++ [first])).width := by
      intro call member
      rw [wide]
      exact ⟨timely.split.2.2 call (List.mem_append_left _ member),
        (later.split.2.1 call (by simp [member])).trans_lt recent⟩
    have room : (∅ ∪ (accepted (new.afterChecks (before ++ [first])) between).erase first.nonce).card ≤
        (new.afterChecks (before ++ [first])).maxEntries := by
      rwa [Finset.empty_union, (afterChecks_settings (c := new) positive _).2]
    obtain ⟨others, held⟩ := held.afterChecks (half _) times room
    rw [← split] at held
    have found := (held.rotated (half _) (by rw [width]; exact recent)).contains
    rcases check_cases (half (before ++ first :: between)) second with ⟨_, result⟩ | ⟨unseen, _⟩
    · rw [result]
    · exact absurd (same ▸ found) unseen
  · rintro before call after rfl refused
    -- each nonce the cache knows was accepted within the two half windows of its bucket
    have accounted := afterChecks_accounted (c := new) positive (by simp [new, withMaxEntries, contains]) timely.left
    have settled : call.instant < ((new.afterChecks before).rotated call.instant).bucketStart +
        ((new.afterChecks before).rotated call.instant).width := by
      rw [rotated_width]
      exact lt_rotated_bucketStart (half before)
    rcases check_cases (half before) call with ⟨seen, _⟩ | ⟨_, result⟩
    · obtain ⟨t, accepted, recent⟩ := (accounted.rotated call.instant).recent settled seen
      rw [rotated_width, width] at recent
      exact ⟨t, accepted, recent⟩
    · exact absurd (by rw [Accepts, result]) refused

def firstCall : Check := ⟨"first".toList, 0⟩

def otherCall : Check := ⟨"other".toList, nanosPerSec - 1⟩

/-- With a half window of a second and room for one nonce, another one does not displace the
first within the second. -/
theorem firstCall_refused_again :
    let cache := (withMaxEntries 1 1 0).afterChecks [firstCall, otherCall]
    (cache.check { firstCall with instant := nanosPerSec - 1 }).1 = senderFault replayDetected ∧
      ∃ t, AcceptedAt (withMaxEntries 1 1 0) [firstCall, otherCall] firstCall.nonce t ∧
        nanosPerSec - 1 < t + 2 * (nanosPerSec * 1) := by
  intro cache
  have timely : Timely 0 [firstCall, otherCall, { firstCall with instant := nanosPerSec - 1 }] := by
    simp only [Timely]
    decide
  have window := nonce_window le_rfl 1 0 timely
  have refused : (cache.check { firstCall with instant := nanosPerSec - 1 }).1 = senderFault replayDetected :=
    window.1 [] firstCall [otherCall] { firstCall with instant := nanosPerSec - 1 } [] rfl rfl
      (by simp only [Accepts]; decide +kernel) (by decide) (by decide +kernel)
  refine ⟨refused, window.2 [firstCall, otherCall] { firstCall with instant := nanosPerSec - 1 } [] rfl fun accepts => ?_⟩
  cases refused.symm.trans accepts

end RotatingNonceCache

end SoapServer.Wssec
