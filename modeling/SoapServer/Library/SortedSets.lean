import Mathlib.Data.List.Sort

/-! Finite sets as strictly ascending lists. -/

set_option autoImplicit false

namespace SortedSets

variable {α : Type} [LinearOrder α] {a b : α} {s t : List α}

/-- A sorted list of distinct elements. -/
def Ascending (s : List α) : Prop := s.Pairwise (· < ·)

def insert (a : α) (s : List α) : List α := if a ∈ s then s else s.orderedInsert (· ≤ ·) a

theorem mem_insert : b ∈ insert a s ↔ b = a ∨ b ∈ s := by
  unfold insert
  split
  next member => exact ⟨.inr, fun either => either.elim (fun same => same ▸ member) id⟩
  next => exact List.mem_orderedInsert _

theorem ascending_nil : Ascending ([] : List α) := List.Pairwise.nil

theorem Ascending.nodup (ascending : Ascending s) : s.Nodup := ascending.imp ne_of_lt

theorem Ascending.insert (ascending : Ascending s) (a : α) : Ascending (insert a s) := by
  unfold SortedSets.insert
  split
  next => exact ascending
  next fresh =>
    have sorted : (s.orderedInsert (· ≤ ·) a).Pairwise (· ≤ ·) :=
      (ascending.imp le_of_lt).orderedInsert a s
    have distinct : (s.orderedInsert (· ≤ ·) a).Nodup :=
      (List.perm_orderedInsert (· ≤ ·) a s).nodup_iff.mpr (List.nodup_cons.mpr ⟨fresh, ascending.nodup⟩)
    exact (sorted.and distinct).imp fun both => lt_of_le_of_ne both.1 both.2

/-- The set of a list's elements, and of those in `s`. -/
def insertAll (items s : List α) : List α := items.foldl (fun s a => insert a s) s

theorem mem_insertAll {items : List α} : b ∈ insertAll items s ↔ b ∈ items ∨ b ∈ s := by
  induction items generalizing s with
  | nil => simp [insertAll]
  | cons a rest ih =>
    change b ∈ insertAll rest (insert a s) ↔ _
    rw [ih, mem_insert, List.mem_cons]
    exact or_left_comm.trans or_assoc.symm

theorem insertAll_append (items more s : List α) :
    insertAll (items ++ more) s = insertAll more (insertAll items s) :=
  List.foldl_append

theorem Ascending.insertAll (ascending : Ascending s) (items : List α) :
    Ascending (insertAll items s) := by
  induction items generalizing s with
  | nil => exact ascending
  | cons a rest ih => exact ih (ascending.insert a)

/-- A set is known by its members. -/
theorem Ascending.ext (first : Ascending s) (second : Ascending t) (same : ∀ a, a ∈ s ↔ a ∈ t) :
    s = t :=
  first.eq_of_mem_iff second same

end SortedSets
