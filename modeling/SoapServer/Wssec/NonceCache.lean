import Mathlib.Data.Finset.Card
import Mathlib.Logic.Function.Iterate
import SoapServer.Fault
import SoapServer.Wssec.Timestamp
import SoapServer.Library.Generations

/-! The two-bucket rotating nonce cache.

Instants are nanoseconds on the monotonic clock, which is read once per call.
-/

set_option autoImplicit false

namespace SoapServer.Wssec

open Markup (Text)
open Generations

def defaultMaxEntries : Nat := 100000

/-! The settings of a server that says nothing else. -/

def defaultNonceCacheHalfWindowSecs : Nat := 150

def defaultTimestampToleranceSecs : Int := 300

structure RotatingNonceCache where
  current : Finset Text
  previous : Finset Text
  bucketStart : Nat
  halfWindowSecs : Nat
  maxEntries : Nat
  deriving DecidableEq

namespace RotatingNonceCache

def withMaxEntries (halfWindowSecs maxEntries now : Nat) : RotatingNonceCache :=
  ⟨∅, ∅, now, halfWindowSecs, maxEntries⟩

def new (halfWindowSecs now : Nat) : RotatingNonceCache :=
  withMaxEntries halfWindowSecs defaultMaxEntries now

def elapsedSecs (now : Nat) (c : RotatingNonceCache) : Nat := (now - c.bucketStart) / nanosPerSec

/-- The half window on the clock. -/
def width (c : RotatingNonceCache) : Nat := nanosPerSec * c.halfWindowSecs

/-- One rotation: the body of the loop. -/
def rotate (c : RotatingNonceCache) : RotatingNonceCache :=
  { c with previous := c.current, current := ∅, bucketStart := c.bucketStart + c.width }

/-- The loop, run for at most `fuel` tests of its condition. -/
def rotateLoop (now : Nat) : Nat → RotatingNonceCache → Option RotatingNonceCache
  | 0, _ => none
  | fuel + 1, c =>
    if c.elapsedSecs now ≥ c.halfWindowSecs then rotateLoop now fuel c.rotate else some c

/-- No result means that the loop does not end; `rotateLoop_stable` shows that the
bound on the tests is never what stops it. -/
def rotateIfNeeded (now : Nat) (c : RotatingNonceCache) : Option RotatingNonceCache :=
  rotateLoop now (c.elapsedSecs now + 2) c

/-- The rotation that a full current bucket forces. -/
def forceRotate (now : Nat) (c : RotatingNonceCache) : RotatingNonceCache :=
  { c with previous := c.current, current := ∅, bucketStart := now }

def insert (nonce : Text) (c : RotatingNonceCache) : RotatingNonceCache :=
  { c with current := Insert.insert nonce c.current }

def contains (nonce : Text) (c : RotatingNonceCache) : Prop :=
  nonce ∈ c.current ∨ nonce ∈ c.previous

instance (nonce : Text) (c : RotatingNonceCache) : Decidable (c.contains nonce) := by
  unfold contains; infer_instance

def makeRoom (now : Nat) (c : RotatingNonceCache) : RotatingNonceCache :=
  -- the bucket is dated by the call, not by the clock of the generations
  if c.current.card ≥ c.maxEntries then c.forceRotate now else c

def replayDetected : Text := "WS-Security nonce replay detected".toList

def checkAndInsert (now : Nat) (nonce : Text) (c : RotatingNonceCache) :
    Outcome Unit × RotatingNonceCache :=
  match c.rotateIfNeeded now with
  -- a half window of zero seconds
  | none => (.error .hang, c)
  | some c =>
    -- a refused nonce does not count against the capacity
    if c.contains nonce then (senderFault replayDetected, c)
    else (.ok (), (c.makeRoom now).insert nonce)

/-! The loop in closed form. -/

/-- The rotations due at `now`. -/
def due (now : Nat) (c : RotatingNonceCache) : Nat := generation c.bucketStart c.width now

/-- The cache once its due rotations are applied. -/
def rotated (now : Nat) (c : RotatingNonceCache) : RotatingNonceCache := rotate^[c.due now] c

variable {now later : Nat} {c : RotatingNonceCache}

@[simp] theorem rotate_halfWindowSecs : c.rotate.halfWindowSecs = c.halfWindowSecs := rfl
@[simp] theorem rotate_maxEntries : c.rotate.maxEntries = c.maxEntries := rfl
@[simp] theorem rotate_width : c.rotate.width = c.width := rfl
@[simp] theorem rotate_bucketStart : c.rotate.bucketStart = c.bucketStart + c.width := rfl

theorem width_pos (positive : 0 < c.halfWindowSecs) : 0 < c.width :=
  Nat.mul_pos (show 0 < nanosPerSec by decide) positive

theorem elapsedSecs_ge_iff :
    c.elapsedSecs now ≥ c.halfWindowSecs ↔ c.width ≤ now - c.bucketStart := by
  simp only [elapsedSecs, width, ge_iff_le, Nat.mul_comm nanosPerSec]
  exact Nat.le_div_iff_mul_le (by decide)

theorem due_rotate (overdue : c.width ≤ now - c.bucketStart) (positive : 0 < c.width) :
    c.due now = c.rotate.due now + 1 := by
  simp only [due, generation, rotate_bucketStart, rotate_width]
  rw [Nat.div_eq_sub_div positive overdue, Nat.sub_add_eq]

theorem due_eq_zero (settled : ¬ c.width ≤ now - c.bucketStart) : c.due now = 0 :=
  Nat.div_eq_of_lt (Nat.not_le.mp settled)

theorem due_le_elapsedSecs (positive : 0 < c.halfWindowSecs) : c.due now ≤ c.elapsedSecs now := by
  simp only [due, generation, elapsedSecs, width]
  exact Nat.div_le_div_left (Nat.le_mul_of_pos_right _ positive) (by decide)

/-- With enough fuel the loop performs exactly the due rotations. -/
theorem rotateLoop_eq (positive : 0 < c.halfWindowSecs) {fuel : Nat} (enough : c.due now < fuel) :
    rotateLoop now fuel c = some (c.rotated now) := by
  induction fuel generalizing c with
  | zero => omega
  | succ fuel ih =>
    by_cases overdue : c.width ≤ now - c.bucketStart
    · have one := due_rotate overdue (width_pos positive)
      rw [rotateLoop, if_pos (elapsedSecs_ge_iff.mpr overdue),
        ih (c := c.rotate) positive (by omega), rotated, rotated, one, Function.iterate_succ_apply]
    · rw [rotateLoop, if_neg (fun h => overdue (elapsedSecs_ge_iff.mp h)), rotated,
        due_eq_zero overdue, Function.iterate_zero_apply]

theorem rotateIfNeeded_eq (positive : 0 < c.halfWindowSecs) :
    c.rotateIfNeeded now = some (c.rotated now) := by
  have : c.due now ≤ c.elapsedSecs now := due_le_elapsedSecs positive
  exact rotateLoop_eq positive (by omega)

/-- An empty half window keeps the loop running for ever. -/
theorem rotateLoop_of_zero (zero : c.halfWindowSecs = 0) (fuel : Nat) :
    rotateLoop now fuel c = none := by
  induction fuel generalizing c with
  | zero => rfl
  | succ fuel ih =>
    rw [rotateLoop, if_pos (by omega)]
    exact ih zero

/-- More fuel than `rotateIfNeeded` grants changes nothing. -/
theorem rotateLoop_stable (extra : Nat) :
    rotateLoop now (c.elapsedSecs now + 2 + extra) c = c.rotateIfNeeded now := by
  rcases Nat.eq_zero_or_pos c.halfWindowSecs with zero | positive
  · rw [rotateIfNeeded, rotateLoop_of_zero zero, rotateLoop_of_zero zero]
  · have : c.due now ≤ c.elapsedSecs now := due_le_elapsedSecs positive
    rw [rotateIfNeeded_eq positive, rotateLoop_eq positive (by omega)]

/-! What the rotations leave. -/

theorem iterate_rotate (n : Nat) (c : RotatingNonceCache) :
    (rotate^[n] c).halfWindowSecs = c.halfWindowSecs ∧ (rotate^[n] c).maxEntries = c.maxEntries ∧
      (rotate^[n] c).bucketStart = startOf c.bucketStart c.width n := by
  induction n generalizing c with
  | zero => simp [startOf]
  | succ n ih =>
    obtain ⟨half, entries, start⟩ := ih c.rotate
    rw [Function.iterate_succ_apply]
    refine ⟨half, entries, ?_⟩
    rw [start, rotate_bucketStart, rotate_width, startOf, startOf, Nat.succ_mul]
    omega

@[simp] theorem rotated_halfWindowSecs : (c.rotated now).halfWindowSecs = c.halfWindowSecs :=
  (iterate_rotate _ c).1

@[simp] theorem rotated_maxEntries : (c.rotated now).maxEntries = c.maxEntries :=
  (iterate_rotate _ c).2.1

@[simp] theorem rotated_width : (c.rotated now).width = c.width := by
  simp [width]

theorem rotated_bucketStart :
    (c.rotated now).bucketStart = startOf c.bucketStart c.width (c.due now) :=
  (iterate_rotate _ c).2.2

theorem rotated_bucketStart_le (after : c.bucketStart ≤ now) :
    (c.rotated now).bucketStart ≤ now := by
  rw [rotated_bucketStart]
  exact startOf_le after

theorem lt_rotated_bucketStart (positive : 0 < c.halfWindowSecs) :
    now < (c.rotated now).bucketStart + c.width := by
  have := lt_startOf_succ c.bucketStart now (width_pos positive)
  rw [rotated_bucketStart]
  simp only [startOf, due, Nat.add_mul] at this ⊢
  omega

/-- What the buckets hold after `n` rotations. -/
theorem iterate_rotate_buckets (n : Nat) (c : RotatingNonceCache) :
    (rotate^[n] c).current = (if n = 0 then c.current else ∅) ∧
      (rotate^[n] c).previous = (if n = 0 then c.previous else if n = 1 then c.current else ∅) := by
  match n with
  | 0 => simp
  | 1 => simp [rotate]
  | n + 2 =>
    rw [Function.iterate_succ_apply', Function.iterate_succ_apply']
    simp [rotate]

theorem rotated_contains_iff (nonce : Text) :
    (c.rotated now).contains nonce ↔
      (nonce ∈ c.current ∧ c.due now ≤ 1) ∨ (nonce ∈ c.previous ∧ c.due now = 0) := by
  obtain ⟨current, previous⟩ := iterate_rotate_buckets (c.due now) c
  simp only [contains, rotated, current, previous]
  rcases Nat.lt_trichotomy (c.due now) 1 with none | one | more
  · have zero : c.due now = 0 := by omega
    simp [zero]
  · simp [one]
  · have notZero : c.due now ≠ 0 := by omega
    have notOne : c.due now ≠ 1 := by omega
    simp [notZero, notOne, Nat.not_le.mpr more]

theorem rotated_of_due (settled : c.due now = 0) : c.rotated now = c := by
  rw [rotated, settled, Function.iterate_zero_apply]

theorem rotated_current_card : (c.rotated now).current.card ≤ c.current.card := by
  rw [rotated, (iterate_rotate_buckets _ c).1]
  split
  · exact le_rfl
  · simp

/-! What one call does. -/

theorem checkAndInsert_eq (positive : 0 < c.halfWindowSecs) (nonce : Text) :
    c.checkAndInsert now nonce =
      if (c.rotated now).contains nonce then
        (senderFault replayDetected, c.rotated now)
      else (.ok (), ((c.rotated now).makeRoom now).insert nonce) := by
  rw [checkAndInsert, rotateIfNeeded_eq positive]

theorem checkAndInsert_ok_iff (nonce : Text) :
    (c.checkAndInsert now nonce).1 = .ok () ↔
      0 < c.halfWindowSecs ∧ ¬ (c.rotated now).contains nonce := by
  rcases Nat.eq_zero_or_pos c.halfWindowSecs with zero | positive
  · simp [checkAndInsert, rotateIfNeeded, rotateLoop_of_zero zero, zero]
  · rw [checkAndInsert_eq positive]
    split <;> simp_all [senderFault]

@[simp] theorem insert_halfWindowSecs (nonce : Text) :
    (c.insert nonce).halfWindowSecs = c.halfWindowSecs := rfl

@[simp] theorem makeRoom_halfWindowSecs : (c.makeRoom now).halfWindowSecs = c.halfWindowSecs := by
  unfold makeRoom
  split <;> rfl

/-- Right after a nonce went in, no rotation is due. -/
theorem due_makeRoom_insert (positive : 0 < c.halfWindowSecs) (nonce : Text) :
    (((c.rotated now).makeRoom now).insert nonce).due now = 0 := by
  have recent : now < (c.rotated now).bucketStart + c.width := lt_rotated_bucketStart positive
  have wide := width_pos positive
  have same : (((c.rotated now).makeRoom now).insert nonce).width = c.width := by
    simp only [width, insert_halfWindowSecs, makeRoom_halfWindowSecs, rotated_halfWindowSecs]
  apply due_eq_zero
  rw [same]
  by_cases full : (c.rotated now).current.card ≥ (c.rotated now).maxEntries
  · have start : (((c.rotated now).makeRoom now).insert nonce).bucketStart = now := by
      rw [makeRoom, if_pos full]
      rfl
    omega
  · have start : (((c.rotated now).makeRoom now).insert nonce).bucketStart =
        (c.rotated now).bucketStart := by
      rw [makeRoom, if_neg full]
      rfl
    omega

/-- What the buckets hold right after a nonce went in. -/
theorem makeRoom_insert_contains (nonce other : Text) :
    ((c.makeRoom now).insert nonce).contains other ↔
      other = nonce ∨ other ∈ c.current ∨ (other ∈ c.previous ∧ c.current.card < c.maxEntries) := by
  by_cases full : c.current.card ≥ c.maxEntries
  · simp [makeRoom, full, insert, forceRotate, contains, Nat.not_lt.mpr full]
  · simp [makeRoom, full, insert, contains, Nat.not_le.mp full, or_assoc]

/-! The loop ends, and has caught up. -/

/-- The tests that find a rotation due do not end the loop. -/
theorem rotateLoop_of_le (positive : 0 < c.halfWindowSecs) {fuel : Nat} (few : fuel ≤ c.due now) :
    rotateLoop now fuel c = none := by
  induction fuel generalizing c with
  | zero => rfl
  | succ fuel ih =>
    have overdue : c.width ≤ now - c.bucketStart := by
      by_contra settled
      have := due_eq_zero settled
      omega
    have one := due_rotate overdue (width_pos positive)
    rw [rotateLoop, if_pos (elapsedSecs_ge_iff.mpr overdue)]
    exact ih (c := c.rotate) positive (by omega)

/-- The rotations due, counted in the whole seconds that the loop tests. -/
theorem due_eq (now : Nat) (c : RotatingNonceCache) :
    c.due now = c.elapsedSecs now / c.halfWindowSecs := by
  simp only [due, generation, elapsedSecs, width]
  exact (Nat.div_div_eq_div_mul _ _ _).symm

/-- The loop ends after its due rotations, not before, and leaves less than a half window
elapsed; the call around it returns. -/
structure CatchesUp (now : Nat) (c : RotatingNonceCache) : Prop where
  ends : c.rotateIfNeeded now = some (rotate^[c.elapsedSecs now / c.halfWindowSecs] c)
  exactly : rotateLoop now (c.elapsedSecs now / c.halfWindowSecs) c = none
  caughtUp : (rotate^[c.elapsedSecs now / c.halfWindowSecs] c).elapsedSecs now < c.halfWindowSecs
  returns : ∀ nonce, (c.checkAndInsert now nonce).1 = .ok () ∨
    (c.checkAndInsert now nonce).1 = senderFault replayDetected

theorem rotated_elapsedSecs_lt (positive : 0 < c.halfWindowSecs) :
    (c.rotated now).elapsedSecs now < c.halfWindowSecs := by
  have recent : now < (c.rotated now).bucketStart + c.width := lt_rotated_bucketStart positive
  have wide := width_pos positive
  by_contra late
  have overdue := elapsedSecs_ge_iff.mp (show (c.rotated now).elapsedSecs now ≥ (c.rotated now).halfWindowSecs by
    rw [rotated_halfWindowSecs]
    exact Nat.not_lt.mp late)
  rw [rotated_width] at overdue
  omega

/-- The rotation catches up exactly when the half window is not empty. -/
theorem catchesUp_iff (now : Nat) (c : RotatingNonceCache) :
    c.CatchesUp now ↔ 0 < c.halfWindowSecs := by
  constructor
  · intro up
    exact Nat.zero_lt_of_lt up.caughtUp
  · intro positive
    have rotations : rotate^[c.elapsedSecs now / c.halfWindowSecs] c = c.rotated now := by
      rw [rotated, due_eq]
    refine ⟨?_, ?_, ?_, fun nonce => ?_⟩
    · rw [rotations]
      exact rotateIfNeeded_eq positive
    · exact rotateLoop_of_le positive (due_eq now c).ge
    · rw [rotations]
      exact rotated_elapsedSecs_lt positive
    · rw [checkAndInsert_eq positive]
      split
      · exact .inr rfl
      · exact .inl rfl

/-- A cache that the public constructor makes for a window of no length never catches up. -/
theorem emptyWindow_stuck : ¬ ∀ halfWindowSecs maxEntries started now : Nat,
    halfWindowSecs < 2 ^ 64 → (withMaxEntries halfWindowSecs maxEntries started).CatchesUp now := by
  intro catches
  have ends := (catches 0 defaultMaxEntries 0 0 (by decide)).ends
  have never : (withMaxEntries 0 defaultMaxEntries 0).rotateIfNeeded 0 = none :=
    rotateLoop_of_zero rfl 2
  rw [never] at ends
  cases ends

end RotatingNonceCache

end SoapServer.Wssec
