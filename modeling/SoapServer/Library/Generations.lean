import Mathlib.Data.Nat.Init
import Mathlib.Algebra.Order.Floor.Defs

/-! Time cut into generations of one width, counted from an origin. -/

set_option autoImplicit false

namespace Generations

/-- The generation an instant falls into. -/
def generation (origin width t : Nat) : Nat := (t - origin) / width

/-- The first instant of a generation. -/
def startOf (origin width g : Nat) : Nat := origin + g * width

variable {origin width t : Nat}

theorem startOf_le (after : origin ≤ t) : startOf origin width (generation origin width t) ≤ t := by
  have := Nat.div_mul_le_self (t - origin) width
  simp only [startOf, generation]
  omega

variable (origin t) in
theorem lt_startOf_succ (positive : 0 < width) :
    t < startOf origin width (generation origin width t + 1) := by
  have := Nat.lt_div_mul_add (a := t - origin) positive
  simp only [startOf, generation, Nat.add_mul, Nat.one_mul]
  omega

/-- Generations counted from the start of the one an earlier instant falls into. -/
theorem generation_startOf {now later : Nat} (order : now ≤ later) :
    generation (startOf origin width (generation origin width now)) width later + generation origin width now =
      generation origin width later := by
  have earlier : (now - origin) / width ≤ (later - origin) / width :=
    Nat.div_le_div_right (Nat.sub_le_sub_right order origin)
  have shift : later - (origin + (now - origin) / width * width) =
      later - origin - width * ((now - origin) / width) := by
    rw [Nat.sub_add_eq, Nat.mul_comm]
  simp only [generation, startOf, shift]
  rw [Nat.sub_mul_div, Nat.sub_add_cancel earlier]

/-- One of the items whose instants do not decrease, between those before and after it. -/
theorem order_split {α : Type} {instant : α → Nat} {start : Nat} {before after : List α} {a : α}
    (order : (start :: (before ++ a :: after).map instant).Pairwise (· ≤ ·)) :
    start ≤ instant a ∧ (∀ b ∈ before, instant b ≤ instant a) ∧ ∀ b ∈ after, instant a ≤ instant b := by
  simp only [List.map_append, List.map_cons, List.pairwise_cons, List.mem_append, List.mem_map,
    List.mem_cons, List.pairwise_append] at order
  obtain ⟨bound, _, ⟨within, _⟩, across⟩ := order
  refine ⟨bound _ (.inr (.inl rfl)), fun b member => across _ ⟨b, member, rfl⟩ _ (.inl rfl),
    fun b member => ?_⟩
  exact within _ ⟨b, member, rfl⟩

end Generations
