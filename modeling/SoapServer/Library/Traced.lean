import SoapServer.Library.Loops

/-! Computations that can fail and keep a trace of what they do, compared with the same
computations without the trace. The trace of a failed computation is kept. -/

set_option autoImplicit false

def Traced (σ ε α : Type) : Type := σ → Except ε α × σ

namespace Traced

variable {σ ε ε' α β : Type}

instance : Monad (Traced σ ε) where
  pure a := fun s => (.ok a, s)
  bind x f := fun s =>
    match x s with
    | (.ok a, s) => f a s
    | (.error e, s) => (.error e, s)

/-- Add to the trace. -/
def note (change : σ → σ) : Traced σ ε Unit := fun s => (.ok (), change s)

/-- A computation that does nothing to the trace. -/
def ofExcept (x : Except ε α) : Traced σ ε α := fun s => (x, s)

def mapError (f : ε → ε') (x : Traced σ ε α) : Traced σ ε' α := fun s =>
  match x s with
  | (.ok a, s) => (.ok a, s)
  | (.error e, s) => (.error (f e), s)

/-- From a trace in `P` the traced computation has the plain one's outcome and leaves a trace
in `Q` when it succeeds, in `E` when it fails. -/
def Refines (x : Traced σ ε α) (y : Except ε α) (P : σ → Prop) (Q : α → σ → Prop)
    (E : σ → Prop) : Prop :=
  ∀ s, P s → (x s).1 = y ∧ (∀ a, y = .ok a → Q a (x s).2) ∧ (∀ e, y = .error e → E (x s).2)

theorem bind_eq_ok {x : Traced σ ε α} {f : α → Traced σ ε β} {s t : σ} {b : β} :
    (x >>= f) s = (.ok b, t) ↔ ∃ a r, x s = (.ok a, r) ∧ f a r = (.ok b, t) := by
  rcases run : x s with ⟨_ | a, r⟩ <;> simp [Bind.bind, run]

theorem ofExcept_eq_ok {x : Except ε α} {s t : σ} {a : α} :
    ofExcept x s = (.ok a, t) ↔ x = .ok a ∧ s = t := by
  rw [ofExcept, Prod.mk.injEq]

theorem mapError_eq_ok {f : ε → ε'} {x : Traced σ ε α} {s t : σ} {a : α} :
    mapError f x s = (.ok a, t) ↔ x s = (.ok a, t) := by
  rcases run : x s with ⟨_ | a, r⟩ <;> simp [mapError, run]

/-- Whatever the outcome is, the second computation has run or the first one is all there was. -/
theorem bind_cases (x : Traced σ ε α) (f : α → Traced σ ε β) (s : σ) :
    (∃ a r, x s = (.ok a, r) ∧ (x >>= f) s = f a r) ∨ ∃ e r, x s = (.error e, r) ∧ (x >>= f) s = (.error e, r) := by
  rcases run : x s with ⟨e | a, r⟩
  · exact .inr ⟨e, r, rfl, by simp only [Bind.bind, run]⟩
  · exact .inl ⟨a, r, rfl, by simp only [Bind.bind, run]⟩

/-- In every state the computation gives a value in `P` or fails with an error in `E`. -/
structure Yields (x : Traced σ ε α) (P : α → Prop) (E : ε → Prop) : Prop where
  ends : ∀ s a t, x s = (.ok a, t) → P a
  stops : ∀ s e t, x s = (.error e, t) → E e

/-! Computations that go through events. -/

section Events

variable {ω : Type} {happens : ω → σ → σ → Prop} {events more : List ω} {r s t : σ}

/-- What happens between two states, event by event. -/
inductive Passage (happens : ω → σ → σ → Prop) : List ω → σ → σ → Prop
  | nil (s : σ) : Passage happens [] s s
  | cons {e : ω} {rest : List ω} {r s t : σ} (first : happens e s r) (later : Passage happens rest r t) :
    Passage happens (e :: rest) s t

theorem Passage.append (first : Passage happens events s r) (later : Passage happens more r t) :
    Passage happens (events ++ more) s t := by
  induction first with
  | nil => exact later
  | cons here _ ih => exact .cons here (ih later)

/-- What gives a value has gone through events of which, together with the value, `P` holds; what fails
has an error in `E`. -/
structure Tells (happens : ω → σ → σ → Prop) (x : Traced σ ε α) (P : List ω → α → Prop)
    (E : ε → Prop) :
    Prop where
  ends : ∀ s a t, x s = (.ok a, t) → ∃ events, Passage happens events s t ∧ P events a
  stops : ∀ s e t, x s = (.error e, t) → E e

variable {P : List ω → α → Prop} {E : ε → Prop}

theorem tells_pure {a : α} (held : P [] a) : Tells happens (pure a : Traced σ ε α) P E where
  ends s b t given := by
    cases given
    exact ⟨[], .nil s, held⟩
  stops s e t failed := by cases failed

theorem tells_ofExcept {x : Except ε α} (ok : ∀ a, x = .ok a → P [] a)
    (error : ∀ e, x = .error e → E e) :
    Tells happens (ofExcept x : Traced σ ε α) P E where
  ends s a t given := by
    obtain ⟨same, rfl⟩ := ofExcept_eq_ok.mp given
    exact ⟨[], .nil s, ok a same⟩
  stops s e t failed := error e (Prod.mk.inj failed).1

theorem tells_mapError {E : ε' → Prop} {x : Traced σ ε α} {f : ε → ε'} (error : ∀ e, E (f e))
    (ends : ∀ s a t, x s = (.ok a, t) → ∃ events, Passage happens events s t ∧ P events a) :
    Tells happens (x.mapError f) P E where
  ends s a t given := ends s a t (mapError_eq_ok.mp given)
  stops s e t failed := by
    rcases run : x s with ⟨e' | a, r⟩
    · simp only [mapError, run] at failed
      cases failed
      exact error e'
    · simp only [mapError, run] at failed
      cases failed

/-- The events of the first computation come before those of the second one. -/
theorem Tells.bind {Q : List ω → β → Prop} {x : Traced σ ε α} {f : α → Traced σ ε β}
    (first : Tells happens x P E)
    (next : ∀ before a, P before a → Tells happens (f a) (fun events b => Q (before ++ events) b) E) :
    Tells happens (x >>= f) Q E where
  ends s b t given := by
    obtain ⟨a, r, here, rest⟩ := bind_eq_ok.mp given
    obtain ⟨before, passed, held⟩ := first.ends s a r here
    obtain ⟨events, passed', held'⟩ := (next before a held).ends r b t rest
    exact ⟨before ++ events, passed.append passed', held'⟩
  stops s e t failed := by
    rcases bind_cases x f s with ⟨a, r, given, step⟩ | ⟨e', r, stopped, step⟩
    · rw [step] at failed
      obtain ⟨before, _, held⟩ := first.ends s a r given
      exact (next before a held).stops r e t failed
    · obtain ⟨same, _⟩ := Prod.mk.inj (step.symm.trans failed)
      exact Except.error.inj same ▸ first.stops s e' r stopped

theorem Tells.mono {Q : List ω → α → Prop} {x : Traced σ ε α} (tells : Tells happens x P E)
    (weaker : ∀ events a, P events a → Q events a) : Tells happens x Q E where
  ends s a t given := by
    obtain ⟨events, passed, held⟩ := tells.ends s a t given
    exact ⟨events, passed, weaker events a held⟩
  stops := tells.stops

theorem Tells.yields {Q : α → Prop} {x : Traced σ ε α} (tells : Tells happens x P E)
    (weaker : ∀ events a, P events a → Q a) : Yields x Q E where
  ends s a t given := by
    obtain ⟨events, _, held⟩ := tells.ends s a t given
    exact weaker events a held
  stops := tells.stops

end Events

variable {P : σ → Prop} {E : σ → Prop}

theorem refines_ofExcept {y : Except ε α} {Q : α → σ → Prop} (ok : ∀ a s, y = .ok a → P s → Q a s)
    (error : ∀ s, P s → E s) : Refines (ofExcept y) y P Q E :=
  fun s held => ⟨rfl, fun a same => ok a s same held, fun _ _ => error s held⟩

theorem refines_pure {a : α} {Q : α → σ → Prop} (ok : ∀ s, P s → Q a s) :
    Refines (pure a : Traced σ ε α) (.ok a) P Q E := by
  refine fun s held => ⟨rfl, fun b same => ?_, fun _ same => by cases same⟩
  cases same
  exact ok s held

theorem Refines.mono {x : Traced σ ε α} {y : Except ε α} {P' : σ → Prop} {Q Q' : α → σ → Prop}
    (refines : Refines x y P Q E) (before : ∀ s, P' s → P s)
    (after : ∀ a s, y = .ok a → Q a s → Q' a s) :
    Refines x y P' Q' E := by
  intro s held
  obtain ⟨same, ok, error⟩ := refines s (before s held)
  exact ⟨same, fun a result => after a _ result (ok a result), error⟩

theorem Refines.bind {x : Traced σ ε α} {y : Except ε α} {f : α → Traced σ ε β} {g : α → Except ε β}
    {R : α → σ → Prop} {Q : β → σ → Prop} (first : Refines x y P R E)
    (next : ∀ a, y = .ok a → Refines (f a) (g a) (R a) Q E) :
    Refines (x >>= f) (y >>= g) P Q E := by
  intro s held
  obtain ⟨same, ok, error⟩ := first s held
  rcases run : x s with ⟨outcome, after⟩
  simp only [run] at same ok error
  subst same
  cases outcome with
  | ok a =>
    have step : (x >>= f) s = f a after := by simp only [Bind.bind, run]
    rw [step]
    exact next a rfl after (ok a rfl)
  | error e =>
    have step : (x >>= f) s = (.error e, after) := by simp only [Bind.bind, run]
    rw [step]
    exact ⟨rfl, fun _ same => (by cases same), fun _ _ => error e rfl⟩

theorem Refines.note {change : σ → σ} {f : Unit → Traced σ ε β} {y : Except ε β} {R : σ → Prop}
    {Q : β → σ → Prop} (noted : ∀ s, P s → R (change s)) (next : Refines (f ()) y R Q E) :
    Refines (Traced.note change >>= f) y P Q E :=
  fun s held => next (change s) (noted s held)

/-- The rule for loops: every step refines its plain counterpart and keeps the invariant. -/
theorem refines_foldlM {f : β → α → Traced σ ε β} {g : β → α → Except ε β} {items : List α}
    (I : β → σ → Prop) (step : ∀ b, ∀ a ∈ items, Refines (f b a) (g b a) (I b) I E) (b : β) :
    Refines (items.foldlM f b) (items.foldlM g b) (I b) I E := by
  induction items generalizing b with
  | nil => exact refines_pure fun _ held => held
  | cons a rest ih =>
    rw [List.foldlM_cons, List.foldlM_cons]
    exact (step b a (.head _)).bind fun b' _ => ih (fun c e member => step c e (.tail _ member)) b'

theorem Refines.mapError {x : Traced σ ε α} {y : Except ε α} {Q : α → σ → Prop}
    (refines : Refines x y P Q E) (f : ε → ε') : Refines (x.mapError f) (y.mapError f) P Q E := by
  intro s held
  obtain ⟨same, ok, error⟩ := refines s held
  rcases run : x s with ⟨outcome, after⟩
  simp only [run] at same ok error
  subst same
  cases outcome with
  | ok a =>
    refine ⟨by simp only [Traced.mapError, run]; rfl, ?_, fun _ same => by cases same⟩
    rintro b ⟨⟩
    simp only [Traced.mapError, run]
    exact ok a rfl
  | error e =>
    refine ⟨by simp only [Traced.mapError, run]; rfl, fun _ same => (by cases same), fun _ _ => ?_⟩
    simp only [Traced.mapError, run]
    exact error e rfl

end Traced
