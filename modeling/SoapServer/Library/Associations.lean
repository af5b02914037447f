import Mathlib.Data.List.Nodup
import Mathlib.Data.List.Perm.Basic

/-! Association lists in which each key stands once. -/

set_option autoImplicit false

namespace Associations

variable {κ ν : Type} [BEq κ] [LawfulBEq κ] {l l' : List (κ × ν)} {k : κ} {v : ν}

theorem mem_of_lookup (found : l.lookup k = some v) : (k, v) ∈ l := by
  obtain ⟨before, after, rfl, _⟩ := List.lookup_eq_some_iff.mp found
  simp

theorem lookup_of_mem (distinct : (l.map Prod.fst).Nodup) (member : (k, v) ∈ l) :
    l.lookup k = some v := by
  induction l with
  | nil => cases member
  | cons first rest ih =>
    rw [List.map_cons, List.nodup_cons] at distinct
    rcases List.mem_cons.mp member with rfl | member
    · exact List.lookup_cons_self
    · have different : k ≠ first.1 := fun same =>
        distinct.1 (List.mem_map.mpr ⟨(k, v), member, same⟩)
      rw [List.lookup_cons, beq_false_of_ne different]
      exact ih distinct.2 member

theorem lookup_eq_some_iff (distinct : (l.map Prod.fst).Nodup) : l.lookup k = some v ↔ (k, v) ∈ l :=
  ⟨mem_of_lookup, lookup_of_mem distinct⟩

theorem lookup_eq_none_iff : l.lookup k = none ↔ k ∉ l.map Prod.fst := by
  constructor
  · intro none_ member
    obtain ⟨d, among, same⟩ := List.mem_map.mp member
    have different := List.lookup_eq_none_iff.mp none_ d among
    rw [same, bne_self_eq_false] at different
    cases different
  · intro absent
    by_contra found
    obtain ⟨v, found⟩ := Option.ne_none_iff_exists'.mp found
    exact absent (List.mem_map.mpr ⟨(k, v), mem_of_lookup found, rfl⟩)

theorem lookup_filter (keep : κ → Bool) (kept : keep k = true) :
    (l.filter fun d => keep d.1).lookup k = l.lookup k := by
  induction l with
  | nil => rfl
  | cons first rest ih =>
    have keeps (test : keep first.1 = true) : (first :: rest).filter (fun d => keep d.1) =
        first :: rest.filter fun d => keep d.1 := List.filter_cons_of_pos test
    by_cases same : k = first.1
    · rw [keeps (same ▸ kept), List.lookup_cons, List.lookup_cons, same, BEq.rfl]
    · by_cases test : keep first.1 = true
      · rw [keeps test, List.lookup_cons, List.lookup_cons, beq_false_of_ne same, ih]
      · have drops : (first :: rest).filter (fun d => keep d.1) = rest.filter fun d => keep d.1 :=
          List.filter_cons_of_neg test
        rw [drops, List.lookup_cons, beq_false_of_ne same, ih]

/-- Read from the values to the keys, in any order. -/
theorem lookup_swapped (distinct : (l.map Prod.fst).Nodup) [BEq ν] [LawfulBEq ν]
    (values : (l.map Prod.snd).Nodup) (order : l'.Perm l) :
    (l'.map Prod.swap).lookup v = some k ↔ l.lookup k = some v := by
  have keys : ((l'.map Prod.swap).map Prod.fst).Nodup := by
    rw [List.map_map]
    exact ((order.map Prod.snd).nodup_iff.mpr values)
  rw [lookup_eq_some_iff keys, lookup_eq_some_iff distinct]
  constructor
  · intro member
    obtain ⟨d, among, same⟩ := List.mem_map.mp member
    cases same
    exact order.mem_iff.mp among
  · intro member
    exact List.mem_map.mpr ⟨(k, v), order.mem_iff.mpr member, rfl⟩

end Associations
