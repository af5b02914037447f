import Mathlib.Data.List.Basic

/-! Lists taken item by item by a function that can fail: what the results say of the items. -/

set_option autoImplicit false

namespace Traversals

variable {α β γ : Type} {f g : α → Option β} {as : List α} {bs : List β} {a : α} {b : β}

theorem mapM_cons_eq_some : (a :: as).mapM f = some bs ↔ ∃ b, f a = some b ∧ ∃ rest, as.mapM f = some rest ∧ b :: rest = bs := by
  simp only [List.mapM_cons, bind, Option.bind_eq_some_iff, pure, Option.some.injEq]

theorem exists_source (run : as.mapM f = some bs) (member : b ∈ bs) : ∃ a ∈ as, f a = some b := by
  induction as generalizing bs with
  | nil => cases run; cases member
  | cons a rest ih =>
    obtain ⟨first, here, others, after, rfl⟩ := mapM_cons_eq_some.mp run
    rcases List.mem_cons.mp member with rfl | member
    · exact ⟨a, .head _, here⟩
    · obtain ⟨other, among, found⟩ := ih after member
      exact ⟨other, .tail _ among, found⟩

theorem exists_of_mem (run : as.mapM f = some bs) (member : a ∈ as) : ∃ b, f a = some b := by
  induction as generalizing bs with
  | nil => cases member
  | cons first rest ih =>
    obtain ⟨b, found, others, after, rfl⟩ := mapM_cons_eq_some.mp run
    rcases List.mem_cons.mp member with rfl | member
    · exact ⟨b, found⟩
    · exact ih after member

/-- What each item has in common with its result, all have in order. -/
theorem map_eq_map {h : α → γ} {k : β → γ} (run : as.mapM f = some bs)
    (each : ∀ a b, f a = some b → h a = k b) :
    as.map h = bs.map k := by
  induction as generalizing bs with
  | nil => cases run; rfl
  | cons a rest ih =>
    obtain ⟨b, first, others, after, rfl⟩ := mapM_cons_eq_some.mp run
    rw [List.map_cons, List.map_cons, each a b first, ih after]

theorem mapM_congr (same : ∀ a ∈ as, f a = g a) : as.mapM f = as.mapM g := by
  induction as with
  | nil => rfl
  | cons a rest ih => rw [List.mapM_cons, List.mapM_cons, same a (.head _), ih fun b member => same b (.tail _ member)]

theorem mapM_map_eq_some {h : β → α} (inverse : ∀ b ∈ bs, f (h b) = some b) :
    (bs.map h).mapM f = some bs := by
  induction bs with
  | nil => rfl
  | cons b rest ih =>
    rw [List.map_cons, List.mapM_cons, inverse b (.head _),
      ih fun c member => inverse c (.tail _ member)]
    rfl

/-- Items in another order give their results in that order. -/
theorem mapM_perm {as' : List α} (perm : as.Perm as') (run : as.mapM f = some bs) :
    ∃ bs', as'.mapM f = some bs' ∧ bs.Perm bs' := by
  induction perm generalizing bs with
  | nil => exact ⟨bs, run, .refl bs⟩
  | cons a _ ih =>
    obtain ⟨b, first, rest, after, rfl⟩ := mapM_cons_eq_some.mp run
    obtain ⟨rest', after', perm⟩ := ih after
    exact ⟨b :: rest', by simp [first, after'], perm.cons b⟩
  | swap a a' l =>
    obtain ⟨b, first, _, others, rfl⟩ := mapM_cons_eq_some.mp run
    obtain ⟨b', second, rest, after, rfl⟩ := mapM_cons_eq_some.mp others
    exact ⟨b' :: b :: rest, by simp [first, second, after], .swap b' b rest⟩
  | trans _ _ ih ih' =>
    obtain ⟨mid, run, perm⟩ := ih run
    obtain ⟨last, run, perm'⟩ := ih' run
    exact ⟨last, run, perm.trans perm'⟩

end Traversals
