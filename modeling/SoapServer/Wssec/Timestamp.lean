import SoapServer.Externals
import SoapServer.Fault

/-! `wsu:Created` timestamps: parsing, and freshness against the current time.

Times are nanoseconds since the Unix epoch.
-/

set_option autoImplicit false

namespace SoapServer.Wssec

open Markup (Text)

def nanosPerSec : Nat := 1000000000

/-- `Duration::seconds`: panics unless the value in milliseconds fits in an `i64`. -/
def durationSeconds (secs : Int) : Outcome Int :=
  if -9223372036854775 ≤ secs ∧ secs ≤ 9223372036854775 then .ok (secs * nanosPerSec)
  else .error .panic

def parseCreated (ext : Externals) (s : Text) : Outcome Int :=
  match ext.parseRfc3339 s with
  | some created => .ok created
  | none => senderFault "Invalid WS-Security timestamp format".toList

def timestampExpired : Text := "WS-Security timestamp expired".toList

def checkFreshness (now created toleranceSecs : Int) : Outcome Unit := do
  let diff := now - created
  if diff > (← durationSeconds toleranceSecs) then
    senderFault timestampExpired
  else if diff < (← durationSeconds (-toleranceSecs)) then
    senderFault "WS-Security timestamp is in the future".toList
  else
    .ok ()

/-- Freshness is a two-sided window, for a tolerance that has a duration. -/
theorem checkFreshness_ok_iff (now created toleranceSecs : Int) :
    checkFreshness now created toleranceSecs = .ok () ↔
      (-9223372036854775 ≤ toleranceSecs ∧ toleranceSecs ≤ 9223372036854775) ∧
        now - created ≤ toleranceSecs * nanosPerSec ∧
        -(toleranceSecs * nanosPerSec) ≤ now - created := by
  by_cases range : -9223372036854775 ≤ toleranceSecs ∧ toleranceSecs ≤ 9223372036854775
  · have negated : -9223372036854775 ≤ -toleranceSecs ∧ -toleranceSecs ≤ 9223372036854775 :=
      by omega
    by_cases late : now - created > toleranceSecs * nanosPerSec
    · simp [checkFreshness, durationSeconds, range, bind, Except.bind, late, senderFault]
      omega
    · by_cases early : now - created < -toleranceSecs * nanosPerSec
      · simp only [checkFreshness, durationSeconds, range, negated, bind, Except.bind, late, early,
          senderFault, and_self, ↓reduceIte, reduceCtorEq, false_iff]
        rw [Int.neg_mul] at early
        omega
      · simp only [checkFreshness, durationSeconds, range, negated, bind, Except.bind, late, early,
          and_self, ↓reduceIte, true_iff, true_and]
        rw [Int.neg_mul] at early
        omega
  · simp only [checkFreshness, durationSeconds, range, bind, Except.bind, ↓reduceIte, reduceCtorEq,
      false_and]

/-- What was fresh can later only fail by its age. -/
theorem checkFreshness_later {now created toleranceSecs : Int} (later : Int) (order : now ≤ later)
    (fresh : checkFreshness now created toleranceSecs = .ok ()) :
    checkFreshness later created toleranceSecs = .ok () ∨
      checkFreshness later created toleranceSecs = senderFault timestampExpired := by
  obtain ⟨range, _, early⟩ := (checkFreshness_ok_iff _ _ _).mp fresh
  by_cases late : later - created > toleranceSecs * nanosPerSec
  · right
    simp only [checkFreshness, durationSeconds, range, bind, Except.bind, late, and_self,
      ↓reduceIte]
  · left
    exact (checkFreshness_ok_iff _ _ _).mpr ⟨range, by omega, by omega⟩

end SoapServer.Wssec
