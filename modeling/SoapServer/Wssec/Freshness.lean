import Mathlib.Algebra.Order.Group.Int
import Mathlib.Algebra.Order.Group.Abs
import SoapServer.Envelope.Termination
import SoapServer.Wssec.Timestamp

/-! The arithmetic of the age check, over every tolerance that can be configured. -/

set_option autoImplicit false

namespace SoapServer.Wssec

/-- A tolerance that has a duration. -/
def ToleranceFits (toleranceSecs : Int) : Prop :=
  -9223372036854775 ≤ toleranceSecs ∧ toleranceSecs ≤ 9223372036854775

instance (toleranceSecs : Int) : Decidable (ToleranceFits toleranceSecs) := by
  unfold ToleranceFits
  infer_instance

/-- The age check panics exactly on a tolerance without a duration. -/
theorem checkFreshness_returns_iff (now created toleranceSecs : Int) :
    Returns (checkFreshness now created toleranceSecs) ↔ ToleranceFits toleranceSecs := by
  unfold checkFreshness
  by_cases fits : ToleranceFits toleranceSecs
  · have duration : durationSeconds toleranceSecs = .ok (toleranceSecs * nanosPerSec) := if_pos fits
    have negated : durationSeconds (-toleranceSecs) = .ok (-toleranceSecs * nanosPerSec) := by
      refine if_pos ?_
      obtain ⟨low, high⟩ := fits
      omega
    simp only [fits, iff_true, duration, negated, bind_ok]
    split
    · exact returns_senderFault _
    · split
      · exact returns_senderFault _
      · exact returns_ok _
  · have panics : durationSeconds toleranceSecs = .error .panic := if_neg fits
    simp only [fits, iff_false, panics, bind_error]
    intro returns
    obtain ⟨f, wrong, _⟩ := returns _ rfl
    cases wrong

theorem checkFreshness_panics (now created : Int) {toleranceSecs : Int}
    (unfit : ¬ ToleranceFits toleranceSecs) :
    checkFreshness now created toleranceSecs = .error .panic := by
  have panics : durationSeconds toleranceSecs = .error .panic := if_neg unfit
  simp only [checkFreshness, panics, bind_error]

/-- The age check returns, and accepts exactly the instants within the tolerance. -/
structure FreshnessSafe (now created toleranceSecs : Int) : Prop where
  returns : Returns (checkFreshness now created toleranceSecs)
  window : checkFreshness now created toleranceSecs = .ok () ↔ |now - created| ≤ toleranceSecs * nanosPerSec

theorem checkFreshness_window (now created : Int) {toleranceSecs : Int}
    (fits : ToleranceFits toleranceSecs) :
    checkFreshness now created toleranceSecs = .ok () ↔ |now - created| ≤ toleranceSecs * nanosPerSec := by
  rw [checkFreshness_ok_iff, abs_le]
  constructor
  · rintro ⟨_, late, early⟩
    exact ⟨early, late⟩
  · rintro ⟨early, late⟩
    exact ⟨fits, late, early⟩

/-- The age check is safe exactly for the tolerances that have a duration. -/
theorem freshnessSafe_iff (now created toleranceSecs : Int) :
    FreshnessSafe now created toleranceSecs ↔ ToleranceFits toleranceSecs := by
  constructor
  · intro safe
    exact (checkFreshness_returns_iff now created toleranceSecs).mp safe.returns
  · intro fits
    exact ⟨(checkFreshness_returns_iff now created toleranceSecs).mpr fits,
      checkFreshness_window now created fits⟩

/-- A tolerance of `i64::MAX` seconds panics on a token made this very instant. -/
theorem longestTolerance_panics : ¬ ∀ toleranceSecs now created : Int,
    -2 ^ 63 ≤ toleranceSecs → toleranceSecs < 2 ^ 63 → FreshnessSafe now created toleranceSecs := by
  intro safe
  have returns := (safe (2 ^ 63 - 1) 0 0 (by decide) (by decide)).returns
  have panics : checkFreshness 0 0 (2 ^ 63 - 1) = .error .panic :=
    checkFreshness_panics 0 0 (by decide)
  obtain ⟨f, wrong, _⟩ := returns _ panics
  cases wrong

end SoapServer.Wssec
