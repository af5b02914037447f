import Mathlib.Data.List.AList
import Mathlib.Data.List.Rotate

/-! Finite maps whose iteration order is left open. -/

set_option autoImplicit false

namespace Maps

abbrev HashMap (K V : Type) := AList fun _ : K => V

/-- The orders in which a program iterates its maps: for each place, every map with its
entries rearranged. -/
structure Iteration (Site : Type) where
  order : Site → {K V : Type} → HashMap K V → HashMap K V
  perm : ∀ (site : Site) {K V : Type} (m : HashMap K V), (order site m).entries.Perm m.entries

variable {Site : Type}

/-- Everywhere the order in which the entries are stored. -/
def Iteration.stored : Iteration Site where
  order _ _ _ m := m
  perm _ _ _ _ := List.Perm.refl _

/-- The entries from the `n`-th on come first. -/
def rotateEntries {K V : Type} (n : Nat) (m : HashMap K V) : HashMap K V :=
  ⟨m.entries.rotate n, (List.perm_nodupKeys (List.rotate_perm m.entries n)).mpr m.nodupKeys⟩

/-- The same orders but for one place, where the entries are rotated. -/
def Iteration.rotating [DecidableEq Site] (iter : Iteration Site) (site : Site) (n : Nat) :
    Iteration Site where
  order s _ _ m := if s = site then rotateEntries n m else iter.order s m
  perm s _ _ m := by
    by_cases here : s = site
    · rw [if_pos here]
      exact List.rotate_perm m.entries n
    · rw [if_neg here]
      exact iter.perm s m

variable {K V : Type}

def Iteration.keys (iter : Iteration Site) (site : Site) (m : HashMap K V) : List K :=
  (iter.order site m).entries.map Sigma.fst

def Iteration.values (iter : Iteration Site) (site : Site) (m : HashMap K V) : List V :=
  (iter.order site m).entries.map Sigma.snd

@[simp] theorem Iteration.values_rotating [DecidableEq Site] (iter : Iteration Site)
    {site other : Site} (n : Nat) (different : other ≠ site) (m : HashMap K V) :
    (iter.rotating site n).values other m = iter.values other m := by
  simp only [Iteration.values, Iteration.rotating, if_neg different]

/-- Every rearrangement of a list is one of all lists, whatever they hold. -/
theorem exists_rearrangement {A : Type} {l arranged : List A} (same : arranged.Perm l) :
    ∃ f : (α : Type) → List α → List α, (∀ α l, (f α l).Perm l) ∧
      (∀ (α β : Type) (g : α → β) l, (f α l).map g = f β (l.map g)) ∧ f A l = arranged := by
  induction same with
  | nil => exact ⟨fun _ l => l, fun _ _ => .refl _, fun _ _ _ _ => rfl, rfl⟩
  | @cons x arranged l _ ih =>
    obtain ⟨f, perm, natural, here⟩ := ih
    refine ⟨fun α l => l.head?.toList ++ f α l.tail, fun α l => ?_, fun α β g l => ?_, ?_⟩
    · cases l with
      | nil => exact perm α []
      | cons y l => exact (perm α l).cons y
    · cases l with
      | nil => exact natural α β g []
      | cons y l => exact congrArg (g y :: ·) (natural α β g l)
    · exact congrArg (x :: ·) here
  | swap x y l =>
    refine ⟨fun α l => (l.take 2).reverse ++ l.drop 2, fun α l => ?_, fun α β g l => ?_, rfl⟩
    · have kept := ((l.take 2).reverse_perm).append_right (l.drop 2)
      rwa [List.take_append_drop] at kept
    · rw [List.map_append, List.map_reverse, List.map_take, List.map_drop]
  | trans _ _ ihFirst ihSecond =>
    obtain ⟨f, perm, natural, rfl⟩ := ihSecond
    obtain ⟨g, perm', natural', rfl⟩ := ihFirst
    refine ⟨fun α l => g α (f α l), fun α l => (perm' α _).trans (perm α l), fun α β h l => ?_, rfl⟩
    rw [natural', natural]

/-- The keys can come in any order. -/
theorem Iteration.exists_keys (site : Site) {m : HashMap K V} {keys : List K}
    (same : keys.Perm (m.entries.map Sigma.fst)) :
    ∃ iter : Iteration Site, iter.keys site m = keys := by
  obtain ⟨f, perm, natural, here⟩ := exists_rearrangement same
  have nodup : ∀ {K V : Type} (m : HashMap K V), (f _ m.entries).NodupKeys := fun m =>
    (List.perm_nodupKeys (perm _ m.entries)).mpr m.nodupKeys
  refine ⟨⟨fun _ _ _ m => ⟨f _ m.entries, nodup m⟩, fun _ _ _ m => perm _ m.entries⟩, ?_⟩
  rw [← here]
  exact natural _ _ Sigma.fst m.entries

variable [DecidableEq K]

@[simp] theorem Iteration.lookup_order (iter : Iteration Site) (site : Site) (m : HashMap K V)
    (k : K) :
    (iter.order site m).lookup k = m.lookup k :=
  AList.perm_lookup (iter.perm site m)

theorem Iteration.mem_order (iter : Iteration Site) {site : Site} {m : HashMap K V} {k : K}
    {v : V} :
    (⟨k, v⟩ : Sigma fun _ : K => V) ∈ (iter.order site m).entries ↔ m.lookup k = some v := by
  rw [← AList.mem_lookup_iff, iter.lookup_order, Option.mem_def]

theorem Iteration.mem_keys (iter : Iteration Site) {site : Site} {m : HashMap K V} {k : K} :
    k ∈ iter.keys site m ↔ (m.lookup k).isSome := by
  simp only [Iteration.keys, List.mem_map, Sigma.exists, exists_and_right, exists_eq_right,
    iter.mem_order, Option.isSome_iff_exists]

theorem Iteration.mem_values (iter : Iteration Site) {site : Site} {m : HashMap K V} {v : V} :
    v ∈ iter.values site m ↔ ∃ k, m.lookup k = some v := by
  simp only [Iteration.values, List.mem_map, Sigma.exists, exists_eq_right, iter.mem_order]

/-- Any entry can come first. -/
theorem Iteration.exists_first_entry [DecidableEq Site] (iter : Iteration Site) (site : Site)
    {m : HashMap K V} {k : K} {v : V} (known : m.lookup k = some v) :
    ∃ n rest, ((iter.rotating site n).order site m).entries = ⟨k, v⟩ :: rest := by
  obtain ⟨before, after, split⟩ := List.append_of_mem (AList.mem_lookup_iff.mp known)
  refine ⟨before.length, after ++ before, ?_⟩
  simp only [Iteration.rotating, if_true, rotateEntries, split, List.rotate_append_length_eq,
    List.cons_append]

/-- Any value can come first. -/
theorem Iteration.exists_first [DecidableEq Site] (iter : Iteration Site) (site : Site)
    {m : HashMap K V} {k : K} {v : V} (known : m.lookup k = some v) :
    ∃ n rest, (iter.rotating site n).values site m = v :: rest := by
  obtain ⟨n, rest, split⟩ := iter.exists_first_entry site known
  exact ⟨n, rest.map Sigma.snd, by rw [Iteration.values, split, List.map_cons]⟩

/-! Merging. -/

theorem lookup_union (s t : HashMap K V) (k : K) :
    (s ∪ t).lookup k = (s.lookup k).or (t.lookup k) := by
  by_cases member : k ∈ s
  · rw [AList.lookup_union_left member]
    obtain ⟨v, known⟩ := Option.isSome_iff_exists.mp (AList.lookup_isSome.mpr member)
    rw [known, Option.some_or]
  · rw [AList.lookup_union_right member, AList.lookup_eq_none.mpr member, Option.none_or]

/-- `extend`: the entries of the second map win. -/
def extend (m n : HashMap K V) : HashMap K V := n ∪ m

theorem lookup_extend (m n : HashMap K V) (k : K) :
    (extend m n).lookup k = (n.lookup k).or (m.lookup k) := lookup_union n m k

/-- `entry(k).or_insert(v)`. -/
def orInsert (m : HashMap K V) (k : K) (v : V) : HashMap K V := if k ∈ m then m else m.insert k v

theorem lookup_orInsert (m : HashMap K V) (k : K) (v : V) (k' : K) :
    (orInsert m k v).lookup k' = (m.lookup k').or (if k' = k then some v else none) := by
  unfold orInsert
  by_cases member : k ∈ m
  · rw [if_pos member]
    by_cases same : k' = k
    · subst same
      obtain ⟨w, known⟩ := Option.isSome_iff_exists.mp (AList.lookup_isSome.mpr member)
      simp [known]
    · simp [same]
  · rw [if_neg member]
    by_cases same : k' = k
    · subst same
      simp [AList.lookup_eq_none.mpr member]
    · simp [same, AList.lookup_insert_ne same]

/-- A loop of `insert` over entries with distinct keys: they win over what was there. -/
theorem lookup_foldl_insert {W : Type} (f : V → W) {entries : List (Sigma fun _ : K => V)}
    (nodup : entries.NodupKeys) (m : HashMap K W) (k : K) :
    (entries.foldl (fun m e => m.insert e.1 (f e.2)) m).lookup k =
      ((entries.dlookup k).map f).or (m.lookup k) := by
  induction entries generalizing m with
  | nil => simp
  | cons e rest ih =>
    obtain ⟨k', v⟩ := e
    obtain ⟨fresh, nodup⟩ := List.nodupKeys_cons.mp nodup
    rw [List.foldl_cons, ih nodup]
    by_cases same : k = k'
    · subst same
      rw [AList.lookup_insert, List.dlookup_eq_none.mpr fresh, List.dlookup_cons_eq]
      rfl
    · rw [AList.lookup_insert_ne same, List.dlookup_cons_ne rest ⟨k', v⟩ same]

end Maps
