import SoapServer.Library.Loops

/-! Computations that can fail and log what they do on the way, also when they fail. -/

set_option autoImplicit false

structure Logged (ρ ε α : Type) where
  outcome : Except ε α
  log : List ρ

namespace Logged

variable {ρ ε α β : Type}

instance : Monad (Logged ρ ε) where
  pure a := ⟨.ok a, []⟩
  bind x f :=
    match x.outcome with
    | .ok a => ⟨(f a).outcome, x.log ++ (f a).log⟩
    | .error e => ⟨.error e, x.log⟩

/-- A computation that logs nothing. -/
def ofExcept (x : Except ε α) : Logged ρ ε α := ⟨x, []⟩

/-- A computation that logs one entry. -/
def entry (x : Except ε α) (r : ρ) : Logged ρ ε α := ⟨x, [r]⟩

@[simp] theorem outcome_pure (a : α) : (pure a : Logged ρ ε α).outcome = .ok a := rfl

@[simp] theorem outcome_ofExcept (x : Except ε α) : (ofExcept x : Logged ρ ε α).outcome = x := rfl

@[simp] theorem outcome_entry (x : Except ε α) (r : ρ) : (entry x r).outcome = x := rfl

@[simp] theorem log_pure (a : α) : (pure a : Logged ρ ε α).log = [] := rfl

@[simp] theorem log_ofExcept (x : Except ε α) : (ofExcept x : Logged ρ ε α).log = [] := rfl

@[simp] theorem log_entry (x : Except ε α) (r : ρ) : (entry x r).log = [r] := rfl

@[simp] theorem outcome_bind (x : Logged ρ ε α) (f : α → Logged ρ ε β) :
    (x >>= f).outcome = x.outcome >>= fun a => (f a).outcome := by
  obtain ⟨_ | a, log⟩ := x <;> rfl

/-- What is logged by the second computation is logged only when the first one succeeds. -/
theorem mem_log_bind {x : Logged ρ ε α} {f : α → Logged ρ ε β} {r : ρ} :
    r ∈ (x >>= f).log ↔ r ∈ x.log ∨ ∃ a, x.outcome = .ok a ∧ r ∈ (f a).log := by
  obtain ⟨e | a, log⟩ := x
  · have same : ((⟨.error e, log⟩ : Logged ρ ε α) >>= f).log = log := rfl
    simp [same]
  · have same : ((⟨.ok a, log⟩ : Logged ρ ε α) >>= f).log = log ++ (f a).log := rfl
    simp [same]

instance : LawfulMonad (Logged ρ ε) := LawfulMonad.mk' _
  (fun x => by obtain ⟨_ | a, log⟩ := x <;> simp [Functor.map])
  (fun a f => by simp [Bind.bind, Pure.pure])
  (fun x f g => by
    obtain ⟨_ | a, log⟩ := x
    · rfl
    · simp only [Bind.bind]
      cases (f a).outcome <;> simp)

theorem outcome_foldlM (f : β → α → Logged ρ ε β) (items : List α) (b : β) :
    (items.foldlM f b).outcome = items.foldlM (fun b a => (f b a).outcome) b := by
  induction items generalizing b with
  | nil => rfl
  | cons a rest ih => simp only [List.foldlM_cons, outcome_bind, ih]

theorem outcome_mapM (f : α → Logged ρ ε β) (items : List α) :
    (items.mapM f).outcome = items.mapM fun a => (f a).outcome := by
  induction items with
  | nil => rfl
  | cons a rest ih => simp only [List.mapM_cons, outcome_bind, ih, outcome_pure]; rfl

/-- A loop logs what its steps log, up to the first one that fails. -/
theorem mem_log_foldlM {f : β → α → Logged ρ ε β} {items : List α} {b : β} {r : ρ} :
    r ∈ (items.foldlM f b).log ↔ ∃ done a rest mid, items = done ++ a :: rest ∧
      done.foldlM (fun b a => (f b a).outcome) b = .ok mid ∧ r ∈ (f mid a).log := by
  induction items generalizing b with
  | nil => simp
  | cons a rest ih =>
    rw [List.foldlM_cons, mem_log_bind]
    constructor
    · rintro (here | ⟨mid, first, later⟩)
      · exact ⟨[], a, rest, b, rfl, rfl, here⟩
      · obtain ⟨done, c, after, last, rfl, before, logged⟩ := ih.mp later
        exact ⟨a :: done, c, after, last, rfl, Loops.foldlM_cons_eq_ok.mpr ⟨mid, first, before⟩,
          logged⟩
    · rintro ⟨done, c, after, last, split, before, logged⟩
      cases done with
      | nil =>
        obtain ⟨rfl, rfl⟩ := List.cons.inj split
        obtain rfl := Loops.foldlM_nil_eq_ok.mp before
        exact .inl logged
      | cons d done =>
        obtain ⟨rfl, rfl⟩ := List.cons.inj split
        obtain ⟨mid, first, before⟩ := Loops.foldlM_cons_eq_ok.mp before
        exact .inr ⟨mid, first, ih.mpr ⟨done, c, after, last, rfl, before, logged⟩⟩

theorem mem_log_mapM {f : α → Logged ρ ε β} {items : List α} {r : ρ} :
    r ∈ (items.mapM f).log ↔ ∃ done a rest, items = done ++ a :: rest ∧
      (∀ d ∈ done, ∃ out, (f d).outcome = .ok out) ∧ r ∈ (f a).log := by
  induction items with
  | nil => simp
  | cons a rest ih =>
    rw [List.mapM_cons, mem_log_bind]
    simp only [mem_log_bind, log_pure, List.not_mem_nil, and_false, exists_false, or_false]
    constructor
    · rintro (here | ⟨out, first, later⟩)
      · exact ⟨[], a, rest, rfl, by simp, here⟩
      · obtain ⟨done, c, after, rfl, before, logged⟩ := ih.mp later
        exact ⟨a :: done, c, after, rfl, List.forall_mem_cons.mpr ⟨⟨out, first⟩, before⟩, logged⟩
    · rintro ⟨done, c, after, split, before, logged⟩
      cases done with
      | nil =>
        obtain ⟨rfl, rfl⟩ := List.cons.inj split
        exact .inl logged
      | cons d done =>
        obtain ⟨rfl, rfl⟩ := List.cons.inj split
        obtain ⟨⟨out, first⟩, before⟩ := List.forall_mem_cons.mp before
        exact .inr ⟨out, first, ih.mpr ⟨done, c, after, rfl, before, logged⟩⟩

/-- Every entry is in `P`, and an error that is none of the expected ones has its entry. -/
structure Accounted (P : ρ → Prop) (expected : ε → Prop) (cause : ε → ρ → Prop) (x : Logged ρ ε α) :
    Prop where
  entries : ∀ r ∈ x.log, P r
  failure : ∀ e, x.outcome = .error e → expected e ∨ ∃ r ∈ x.log, cause e r

section accounted

variable {P : ρ → Prop} {expected : ε → Prop} {cause : ε → ρ → Prop}

theorem accounted_pure (a : α) : Accounted P expected cause (pure a : Logged ρ ε α) where
  entries := fun _ member => by cases member
  failure := fun _ failed => by cases failed

theorem accounted_ofExcept {x : Except ε α} (failure : ∀ e, x = .error e → expected e) :
    Accounted P expected cause (ofExcept x : Logged ρ ε α) where
  entries := fun _ member => by cases member
  failure := fun e failed => .inl (failure e failed)

theorem Accounted.mono {x : Logged ρ ε α} {Q : ρ → Prop} (held : Accounted P expected cause x)
    (weaker : ∀ r, P r → Q r) : Accounted Q expected cause x where
  entries := fun r member => weaker r (held.entries r member)
  failure := held.failure

theorem Accounted.bind {x : Logged ρ ε α} {f : α → Logged ρ ε β}
    (first : Accounted P expected cause x)
    (next : ∀ a, x.outcome = .ok a → Accounted P expected cause (f a)) :
    Accounted P expected cause (x >>= f) where
  entries := by
    intro r member
    rcases mem_log_bind.mp member with here | ⟨a, ok, later⟩
    · exact first.entries r here
    · exact (next a ok).entries r later
  failure := by
    intro e failed
    rw [outcome_bind, Loops.bind_eq_error] at failed
    rcases failed with here | ⟨a, ok, later⟩
    · exact (first.failure e here).imp_right fun ⟨r, member, why⟩ => ⟨r,
        mem_log_bind.mpr (.inl member), why⟩
    · exact ((next a ok).failure e later).imp_right fun ⟨r, member, why⟩ =>
        ⟨r, mem_log_bind.mpr (.inr ⟨a, ok, member⟩), why⟩

theorem accounted_foldlM {f : β → α → Logged ρ ε β} {items : List α}
    (step : ∀ b, ∀ a ∈ items, Accounted P expected cause (f b a)) (b : β) :
    Accounted P expected cause (items.foldlM f b) := by
  induction items generalizing b with
  | nil => exact accounted_pure b
  | cons a rest ih =>
    rw [List.foldlM_cons]
    exact (step b a (.head _)).bind fun c _ => ih (fun d e member => step d e (.tail _ member)) c

theorem accounted_mapM {f : α → Logged ρ ε β} {items : List α}
    (step : ∀ a ∈ items, Accounted P expected cause (f a)) :
    Accounted P expected cause (items.mapM f) := by
  induction items with
  | nil => exact accounted_pure []
  | cons a rest ih =>
    rw [List.mapM_cons]
    exact (step a (.head _)).bind fun _ _ =>
      (ih fun b member => step b (.tail _ member)).bind fun _ _ => accounted_pure _

end accounted

end Logged
