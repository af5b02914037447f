import Mathlib.Data.List.Basic

/-! Loops that can fail: what a finished loop says about its steps. -/

set_option autoImplicit false

namespace Loops

variable {ε α β σ : Type}

theorem bind_eq_ok {x : Except ε α} {f : α → Except ε β} {b : β} :
    x >>= f = .ok b ↔ ∃ a, x = .ok a ∧ f a = .ok b := by
  cases x <;> simp [bind, Except.bind]

theorem bind_eq_error {x : Except ε α} {f : α → Except ε β} {e : ε} :
    x >>= f = .error e ↔ x = .error e ∨ ∃ a, x = .ok a ∧ f a = .error e := by
  cases x <;> simp [bind, Except.bind]

theorem map_eq_ok {x : Except ε α} {f : α → β} {b : β} :
    x.map f = .ok b ↔ ∃ a, x = .ok a ∧ f a = b := by
  cases x <;> simp [Except.map]

/-- What a finished call gives can be tried by making the call. -/
instance decidableExistsOk {x : Except ε α} {p : α → Prop} [DecidablePred p] :
    Decidable (∃ a, x = .ok a ∧ p a) :=
  match x with
  | .ok a => decidable_of_iff (p a) (by simp)
  | .error _ => isFalse (by simp)

instance decidableExistsError {x : Except ε α} {p : ε → Prop} [DecidablePred p] :
    Decidable (∃ e, x = .error e ∧ p e) :=
  match x with
  | .ok _ => isFalse (by simp)
  | .error e => decidable_of_iff (p e) (by simp)

instance (priority := low) decidableExistsSome {x : Option α} {p : α → Prop} [DecidablePred p] :
    Decidable (∃ a, x = some a ∧ p a) :=
  match x with
  | some a => decidable_of_iff (p a) (by simp)
  | none => isFalse (by simp)

instance (priority := low) decidableForallSome {x : Option α} {p : α → Prop} [DecidablePred p] :
    Decidable (∀ a, x = some a → p a) :=
  match x with
  | some a => decidable_of_iff (p a) (by simp)
  | none => isTrue (by simp)

theorem foldlM_nil_eq_ok {f : σ → α → Except ε σ} {s t : σ} : [].foldlM f s = .ok t ↔ s = t := by
  simp [pure, Except.pure]

theorem foldlM_cons_eq_ok {f : σ → α → Except ε σ} {a : α} {rest : List α} {s t : σ} :
    (a :: rest).foldlM f s = .ok t ↔ ∃ mid, f s a = .ok mid ∧ rest.foldlM f mid = .ok t := by
  rw [List.foldlM_cons, bind_eq_ok]

/-- The invariant rule: what every step keeps holds after the loop. -/
theorem foldlM_invariant {f : σ → α → Except ε σ} {items : List α} (P : σ → Prop)
    (step : ∀ a ∈ items, ∀ s t, P s → f s a = .ok t → P t) {s t : σ} (start : P s)
    (run : items.foldlM f s = .ok t) : P t := by
  induction items generalizing s with
  | nil => exact foldlM_nil_eq_ok.mp run ▸ start
  | cons a rest ih =>
    obtain ⟨mid, first, run⟩ := foldlM_cons_eq_ok.mp run
    exact ih (fun b member => step b (.tail _ member)) (step a (.head _) s mid start first) run

/-- The invariant rule for what depends on the items done so far. -/
theorem foldlM_prefix_invariant {f : σ → α → Except ε σ} {items : List α} (P : List α → σ → Prop)
    (step : ∀ done a s t, P done s → f s a = .ok t → P (done ++ [a]) t) {s t : σ} (start : P [] s)
    (run : items.foldlM f s = .ok t) : P items t := by
  suffices ∀ done s, P done s → items.foldlM f s = .ok t → P (done ++ items) t from this [] s start run
  clear start run
  induction items with
  | nil =>
    intro done s held run
    rw [List.append_nil, ← foldlM_nil_eq_ok.mp run]
    exact held
  | cons a rest ih =>
    intro done s held run
    obtain ⟨mid, first, run⟩ := foldlM_cons_eq_ok.mp run
    have := ih (done ++ [a]) mid (step done a s mid held first) run
    rwa [List.append_assoc] at this

/-- A finished loop carries a simulation by a loop over the same items. -/
theorem foldlM_simulates {τ : Type} {f : σ → α → Except ε σ} {g : τ → α → Option τ}
    (R : σ → τ → Prop) (step : ∀ a s t s', R s t → f s a = .ok s' → ∃ t', g t a = some t' ∧ R s' t')
    {items : List α} {s s' : σ} {t : τ} (start : R s t) (run : items.foldlM f s = .ok s') :
    ∃ t', items.foldlM g t = some t' ∧ R s' t' := by
  induction items generalizing s t with
  | nil => exact ⟨t, rfl, foldlM_nil_eq_ok.mp run ▸ start⟩
  | cons a rest ih =>
    obtain ⟨mid, first, run⟩ := foldlM_cons_eq_ok.mp run
    obtain ⟨t', stepped, related⟩ := step a s t mid start first
    obtain ⟨t'', stepped', related'⟩ := ih related run
    exact ⟨t'', by rw [List.foldlM_cons, stepped]; exact stepped', related'⟩

/-- A loop fails at the first step that does. -/
theorem foldlM_eq_error {f : σ → α → Except ε σ} {items : List α} {s : σ} {e : ε}
    (run : items.foldlM f s = .error e) :
    ∃ done a rest mid, items = done ++ a :: rest ∧ done.foldlM f s = .ok mid ∧ f mid a = .error e := by
  induction items generalizing s with
  | nil => cases run
  | cons a rest ih =>
    rw [List.foldlM_cons] at run
    cases step : f s a with
    | error e' =>
      rw [step] at run
      cases run
      exact ⟨[], a, rest, s, rfl, rfl, step⟩
    | ok mid =>
      rw [step] at run
      obtain ⟨done, b, after, last, rfl, before, failed⟩ := ih run
      exact ⟨a :: done, b, after, last, rfl, foldlM_cons_eq_ok.mpr ⟨mid, step, before⟩, failed⟩

theorem foldlM_append_eq_ok {f : σ → α → Except ε σ} {xs ys : List α} {s t : σ} :
    (xs ++ ys).foldlM f s = .ok t ↔ ∃ mid, xs.foldlM f s = .ok mid ∧ ys.foldlM f mid = .ok t := by
  rw [List.foldlM_append, bind_eq_ok]

/-- A loop that appends what each item gives. -/
def appendAll (f : α → Except ε (List β)) : List α → Except ε (List β)
  | [] => .ok []
  | a :: rest => do
    let first ← f a
    let rest ← appendAll f rest
    .ok (first ++ rest)

theorem appendAll_cons_eq_ok {f : α → Except ε (List β)} {a : α} {rest : List α} {out : List β} :
    appendAll f (a :: rest) = .ok out ↔
      ∃ first others, f a = .ok first ∧ appendAll f rest = .ok others ∧ out = first ++ others := by
  rw [appendAll, bind_eq_ok]
  constructor
  · rintro ⟨first, given, more⟩
    obtain ⟨others, rest, same⟩ := bind_eq_ok.mp more
    exact ⟨first, others, given, rest, (Except.ok.inj same).symm⟩
  · rintro ⟨first, others, given, rest, rfl⟩
    exact ⟨first, given, bind_eq_ok.mpr ⟨others, rest, rfl⟩⟩

theorem exists_appendAll_iff {f : α → Except ε (List β)} {items : List α} :
    (∃ out, appendAll f items = .ok out) ↔ ∀ a ∈ items, ∃ out, f a = .ok out := by
  induction items with
  | nil => exact iff_of_true ⟨[], rfl⟩ fun a member => by cases member
  | cons a rest ih =>
    rw [List.forall_mem_cons, ← ih]
    constructor
    · rintro ⟨out, run⟩
      obtain ⟨first, others, given, rest, -⟩ := appendAll_cons_eq_ok.mp run
      exact ⟨⟨first, given⟩, others, rest⟩
    · rintro ⟨⟨first, given⟩, others, rest⟩
      exact ⟨first ++ others, appendAll_cons_eq_ok.mpr ⟨first, others, given, rest, rfl⟩⟩

/-- The loop fails as some item does. -/
theorem appendAll_eq_error {f : α → Except ε (List β)} {items : List α} {e : ε}
    (run : appendAll f items = .error e) : ∃ a ∈ items, f a = .error e := by
  induction items with
  | nil => cases run
  | cons a rest ih =>
    rw [appendAll, bind_eq_error] at run
    rcases run with failed | ⟨first, _, more⟩
    · exact ⟨a, .head _, failed⟩
    · rcases bind_eq_error.mp more with failed | ⟨_, _, done⟩
      · obtain ⟨b, member, failed⟩ := ih failed
        exact ⟨b, .tail _ member, failed⟩
      · cases done

end Loops
