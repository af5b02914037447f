import Mathlib.Data.List.Chain
import Mathlib.Data.List.Nodup
import Mathlib.Data.List.Duplicate
import Mathlib.Data.List.Perm.Subperm
import Mathlib.Logic.Relation

/-! Descents in a graph of finitely many nodes: they all end, or one comes back to where it was. -/

set_option autoImplicit false

namespace Descent

open Relation

variable {N : Type} (next : N → List N)

def Step (n m : N) : Prop := m ∈ next n

/-- No descent from a node has as many nodes as this. -/
def EndsWithin : Nat → N → Prop
  | 0, _ => False
  | k + 1, n => ∀ m ∈ next n, EndsWithin k m

/-- Some descent from a node goes round. -/
def MeetsCycle (n : N) : Prop := ∃ m, ReflTransGen (Step next) n m ∧ TransGen (Step next) m m

variable {next} {n m : N} {k : Nat}

theorem EndsWithin.mono (ends : EndsWithin next k n) {k' : Nat} (more : k ≤ k') :
    EndsWithin next k' n := by
  induction k generalizing n k' with
  | zero => cases ends
  | succ k ih =>
    obtain ⟨k', rfl⟩ := Nat.exists_eq_add_of_le' (Nat.one_le_iff_ne_zero.mpr (show k' ≠ 0 by omega))
    exact fun m member => ih (ends m member) (by omega)

theorem MeetsCycle.back (step : Step next n m) (meets : MeetsCycle next m) : MeetsCycle next n :=
  meets.imp fun _ => And.imp_left (ReflTransGen.head step)

/-- The last node of a cycle that is met comes back to itself. -/
theorem meetsCycle_of_transGen (cycle : TransGen (Step next) n n) :
    MeetsCycle next n := ⟨n, .refl, cycle⟩

/-- Below a node that meets a cycle there is another one. -/
theorem MeetsCycle.step (meets : MeetsCycle next n) : ∃ m, Step next n m ∧ MeetsCycle next m := by
  obtain ⟨last, path, cycle⟩ := meets
  rcases ReflTransGen.cases_head path with rfl | ⟨m, first, rest⟩
  · obtain ⟨m, first, rest⟩ := TransGen.head'_iff.mp cycle
    exact ⟨m, first, n, rest, cycle⟩
  · exact ⟨m, first, last, rest, cycle⟩

/-- Where every descent ends there is no cycle to meet. -/
theorem not_meetsCycle_of_acc (ends : Acc (fun m n => Step next n m) n) : ¬ MeetsCycle next n := by
  induction ends with
  | intro n _ ih =>
    intro meets
    obtain ⟨m, step, meets⟩ := meets.step
    exact ih m step meets

theorem EndsWithin.acc (ends : EndsWithin next k n) : Acc (fun m n => Step next n m) n := by
  induction k generalizing n with
  | zero => cases ends
  | succ k ih => exact ⟨n, fun m step => ih (ends m step)⟩

/-- A descent as long as asked for, where none has to end before. -/
theorem exists_path (endless : ¬ EndsWithin next k n) :
    ∃ path : List N, path.length = k ∧ (n :: path).IsChain (Step next) := by
  induction k generalizing n with
  | zero => exact ⟨[], rfl, .singleton n⟩
  | succ k ih =>
    simp only [EndsWithin, not_forall] at endless
    obtain ⟨m, step, endless⟩ := endless
    obtain ⟨path, length, chain⟩ := ih endless
    exact ⟨m :: path, by rw [List.length_cons, length], .cons_cons step chain⟩

/-- A path that visits a node twice meets a cycle. -/
theorem meetsCycle_of_not_nodup {path : List N} (chain : (n :: path).IsChain (Step next))
    (repeats : ¬ (n :: path).Nodup) : MeetsCycle next n := by
  have reach : (n :: path).Pairwise (TransGen (Step next)) :=
    (chain.imp fun _ _ step => TransGen.single step).pairwise
  obtain ⟨m, twice⟩ := List.exists_duplicate_iff_not_nodup.mpr repeats
  have cycle : TransGen (Step next) m m :=
    List.rel_of_pairwise_cons (reach.sublist (List.duplicate_iff_sublist.mp twice)) (by simp)
  rcases List.mem_cons.mp twice.mem with rfl | member
  · exact meetsCycle_of_transGen cycle
  · exact ⟨m, (List.rel_of_pairwise_cons reach member).to_reflTransGen, cycle⟩

/-- A path through finitely many nodes that is longer than their number meets a cycle. -/
theorem meetsCycle_of_long_path {nodes path : List N} (known : n ∈ nodes)
    (closed : ∀ n m, Step next n m → m ∈ nodes) (chain : (n :: path).IsChain (Step next))
    (long : nodes.length ≤ path.length) : MeetsCycle next n := by
  have reach : (n :: path).Pairwise (TransGen (Step next)) :=
    (chain.imp fun _ _ step => TransGen.single step).pairwise
  refine meetsCycle_of_not_nodup chain fun distinct => ?_
  have among : n :: path ⊆ nodes := by
    refine List.cons_subset.mpr ⟨known, fun m member => ?_⟩
    obtain ⟨before, _, last⟩ := TransGen.tail'_iff.mp (List.rel_of_pairwise_cons reach member)
    exact closed before m last
  have := (distinct.subperm among).length_le
  rw [List.length_cons] at this
  omega

/-- A node among finitely many ends within their number unless it meets a cycle. -/
theorem endsWithin_iff {nodes : List N} (known : n ∈ nodes)
    (closed : ∀ n m, Step next n m → m ∈ nodes) :
    EndsWithin next nodes.length n ↔ ¬ MeetsCycle next n := by
  constructor
  · exact fun ends => not_meetsCycle_of_acc ends.acc
  · intro free
    by_contra endless
    obtain ⟨path, length, chain⟩ := exists_path endless
    exact free (meetsCycle_of_long_path known closed chain length.ge)

/-- What holds of a node with fuel left as it holds of all next nodes with one less is that
the descents end. -/
theorem iff_endsWithin {R : Nat → N → Prop} {nodes : List N}
    (closed : ∀ n m, Step next n m → m ∈ nodes) (zero : ∀ n ∈ nodes, ¬ R 0 n)
    (succ : ∀ k, ∀ n ∈ nodes, (R (k + 1) n ↔ ∀ m ∈ next n, R k m)) (known : n ∈ nodes) :
    R k n ↔ EndsWithin next k n := by
  induction k generalizing n with
  | zero => exact iff_of_false (zero n known) not_false
  | succ k ih =>
    rw [succ k n known]
    exact forall₂_congr fun m step => ih (closed n m step)

end Descent
