import Mathlib.Data.List.Basic

/-! Searches of a graph whose nodes are fetched by location, with a list of the locations
visited so far. -/

set_option autoImplicit false

namespace Search

variable {L D : Type} {targets : D → List L} {fetches : L → D → Prop}

/-- What is reached from some roots, following the targets of what is fetched. -/
inductive Reachable (targets : D → List L) (fetches : L → D → Prop) (roots : D → Prop) : D → Prop
  | root {d : D} (held : roots d) : Reachable targets fetches roots d
  | follow {d d' : D} {l : L} (from_ : Reachable targets fetches roots d) (target : l ∈ targets d)
      (fetched : fetches l d') : Reachable targets fetches roots d'

theorem Reachable.trans {roots others : D → Prop}
    (sub : ∀ d, others d → Reachable targets fetches roots d) {d : D}
    (reachable : Reachable targets fetches others d) : Reachable targets fetches roots d := by
  induction reachable with
  | root held => exact sub _ held
  | follow _ target fetched ih => exact ih.follow target fetched

/-- A search that has gone from some visited locations to others over some documents, with
nothing left to follow. -/
structure Visits (targets : D → List L) (fetches : L → D → Prop) (before : List L)
    (documents : List D) (after : List L) : Prop where
  grows : before ⊆ after
  closed : ∀ d ∈ documents, targets d ⊆ after
  fetched : ∀ l ∈ after, l ∈ before ∨ ∃ d ∈ documents, fetches l d

namespace Visits

variable {a b c : List L} {ds es : List D}

theorem nil (a : List L) : Visits targets fetches a [] a :=
  ⟨fun _ member => member, fun _ member => (by cases member), fun _ member => .inl member⟩

theorem append (first : Visits targets fetches a ds b) (next : Visits targets fetches b es c) :
    Visits targets fetches a (ds ++ es) c where
  grows := List.Subset.trans first.grows next.grows
  closed d member := by
    rcases List.mem_append.mp member with member | member
    · exact List.Subset.trans (first.closed d member) next.grows
    · exact next.closed d member
  fetched l member := by
    rcases next.fetched l member with member | ⟨d, among, fetched⟩
    · rcases first.fetched l member with member | ⟨d, among, fetched⟩
      · exact .inl member
      · exact .inr ⟨d, List.mem_append_left _ among, fetched⟩
    · exact .inr ⟨d, List.mem_append_right _ among, fetched⟩

/-- A document all of whose targets have been visited. -/
theorem cons {d : D} (visits : Visits targets fetches a ds b) (followed : targets d ⊆ b) :
    Visits targets fetches a (d :: ds) b where
  grows := visits.grows
  closed e member := by
    rcases List.mem_cons.mp member with rfl | member
    · exact followed
    · exact visits.closed e member
  fetched l member := (visits.fetched l member).imp_right fun ⟨d, among, fetched⟩ => ⟨d,
    .tail _ among, fetched⟩

/-- Locations that are marked before the documents they hold are searched. -/
theorem unmark (visits : Visits targets fetches b ds c) (grows : a ⊆ b)
    (marked : ∀ l ∈ b, l ∈ a ∨ ∃ d ∈ ds, fetches l d) : Visits targets fetches a ds c where
  grows := List.Subset.trans grows visits.grows
  closed := visits.closed
  fetched l member := (visits.fetched l member).elim (marked l) .inr

/-- A search from nothing visited finds all there is to find. -/
theorem mem_of_reachable {roots : D → Prop} (visits : Visits targets fetches [] ds a)
    (unique : ∀ l d d', fetches l d → fetches l d' → d = d') (rooted : ∀ d, roots d → d ∈ ds)
    {d : D} (reachable : Reachable targets fetches roots d) : d ∈ ds := by
  induction reachable with
  | root held => exact rooted _ held
  | follow _ target fetched ih =>
    rcases visits.fetched _ (visits.closed _ ih target) with member | ⟨e, among, same⟩
    · cases member
    · exact unique _ _ _ fetched same ▸ among

end Visits

/-! How much there is to visit. -/

variable [DecidableEq L]

def unvisited (locations visited : List L) : Nat := (locations.filter fun l => l ∉ visited).length

theorem unvisited_le (locations : List L) {visited visited' : List L} (grows : visited ⊆ visited') :
    unvisited locations visited' ≤ unvisited locations visited := by
  refine List.Sublist.length_le (List.monotone_filter_right locations fun l fresh => ?_)
  simp only [decide_eq_true_eq] at fresh ⊢
  exact fun member => fresh (grows member)

theorem unvisited_cons_lt {locations visited : List L} {l : L} (known : l ∈ locations)
    (fresh : l ∉ visited) :
    unvisited locations (l :: visited) < unvisited locations visited := by
  have split : locations.filter (fun m => m ∉ l :: visited) =
      (locations.filter fun m => m ∉ visited).filter fun m => m ≠ l := by
    rw [List.filter_filter]
    exact List.filter_congr fun m _ => by simp
  rw [unvisited, split]
  exact List.length_filter_lt_length_iff_exists.mpr
    ⟨l, List.mem_filter.mpr ⟨known, decide_eq_true fresh⟩, by simp⟩

end Search
