import Mathlib.Computability.Language

/-! Content models: groups of particles in sequence, as alternatives or in any order, each
particle with bounds on how often it occurs. What every word of a model has a letter of is
read off the model.
-/

set_option autoImplicit false

namespace ContentModels

variable {α β : Type}

/-! Languages. -/

/-- Every word has such a letter. -/
def Meets (l : Language α) (P : α → Prop) : Prop := ∀ w ∈ l, ∃ a ∈ w, P a

/-- The words that avoid it, when there is one, show that a language does not meet `P`. -/
theorem not_meets_iff {l : Language α} {P : α → Prop} : ¬ Meets l P ↔ ∃ w ∈ l, ∀ a ∈ w, ¬ P a := by
  simp [Meets]

theorem meets_zero (P : α → Prop) : Meets (0 : Language α) P :=
  fun w member => absurd member (Language.notMem_zero w)

theorem not_meets_one (P : α → Prop) : ¬ Meets (1 : Language α) P :=
  not_meets_iff.mpr ⟨[], Language.nil_mem_one, by simp⟩

theorem meets_add {l m : Language α} {P : α → Prop} : Meets (l + m) P ↔ Meets l P ∧ Meets m P := by
  constructor
  · exact fun meets => ⟨fun w member => meets w (.inl member),
      fun w member => meets w (.inr member)⟩
  · rintro ⟨first, second⟩ w (member | member)
    · exact first w member
    · exact second w member

theorem meets_mul {l m : Language α} {P : α → Prop} : Meets (l * m) P ↔ Meets l P ∨ Meets m P := by
  constructor
  · intro meets
    by_contra neither
    rw [not_or, not_meets_iff, not_meets_iff] at neither
    obtain ⟨⟨u, inFirst, without⟩, v, inSecond, without'⟩ := neither
    obtain ⟨a, member, holds⟩ := meets (u ++ v) (Language.append_mem_mul inFirst inSecond)
    rcases List.mem_append.mp member with member | member
    · exact without a member holds
    · exact without' a member holds
  · rintro meets w member
    obtain ⟨u, inFirst, v, inSecond, rfl⟩ := Language.mem_mul.mp member
    rcases meets with meets | meets
    · obtain ⟨a, here, holds⟩ := meets u inFirst
      exact ⟨a, List.mem_append_left _ here, holds⟩
    · obtain ⟨a, here, holds⟩ := meets v inSecond
      exact ⟨a, List.mem_append_right _ here, holds⟩

/-- A word made of two by taking letters from either in turn. -/
inductive Interleaving : List α → List α → List α → Prop
  | nil : Interleaving [] [] []
  | left {a : α} {u v w : List α} (rest : Interleaving u v w) : Interleaving (a :: u) v (a :: w)
  | right {a : α} {u v w : List α} (rest : Interleaving u v w) : Interleaving u (a :: v) (a :: w)

theorem Interleaving.mem_iff {u v w : List α} (made : Interleaving u v w) (a : α) :
    a ∈ w ↔ a ∈ u ∨ a ∈ v := by
  induction made with
  | nil => simp
  | left _ ih => rw [List.mem_cons, ih, List.mem_cons, or_assoc]
  | right _ ih => rw [List.mem_cons, ih, List.mem_cons, or_left_comm]

theorem Interleaving.append (u v : List α) : Interleaving u v (u ++ v) := by
  induction u with
  | nil =>
    induction v with
    | nil => exact .nil
    | cons a v ih => exact .right ih
  | cons a u ih => exact .left ih

def shuffle (l m : Language α) : Language α := {w | ∃ u ∈ l, ∃ v ∈ m, Interleaving u v w}

/-- Order is of no account, so an interleaving meets what a concatenation meets. -/
theorem meets_shuffle {l m : Language α} {P : α → Prop} :
    Meets (shuffle l m) P ↔ Meets l P ∨ Meets m P := by
  rw [← meets_mul]
  constructor
  · intro meets w member
    obtain ⟨u, inFirst, v, inSecond, rfl⟩ := Language.mem_mul.mp member
    exact meets _ ⟨u, inFirst, v, inSecond, .append u v⟩
  · rintro meets w ⟨u, inFirst, v, inSecond, made⟩
    obtain ⟨a, member, holds⟩ := meets _ (Language.append_mem_mul inFirst inSecond)
    exact ⟨a, (made.mem_iff a).mpr (List.mem_append.mp member), holds⟩

theorem meets_pow {l : Language α} {P : α → Prop} {n : Nat} :
    Meets (l ^ n) P ↔ 0 < n ∧ Meets l P := by
  induction n with
  | zero => simpa using not_meets_one P
  | succ n ih =>
    rw [pow_succ, meets_mul, ih]
    constructor
    · rintro (⟨_, meets⟩ | meets) <;> exact ⟨n.succ_pos, meets⟩
    · exact fun meets => .inr meets.2

/-! Bounds. -/

structure Occurs where
  min : Nat
  max : Option Nat
  deriving DecidableEq, Repr

namespace Occurs

def once : Occurs := ⟨1, some 1⟩

def Allows (occurs : Occurs)
    (n : Nat) : Prop := occurs.min ≤ n ∧ ∀ max, occurs.max = some max → n ≤ max

/-- No number is allowed. -/
def Impossible (occurs : Occurs) : Prop := ∃ max, occurs.max = some max ∧ max < occurs.min

theorem impossible_iff {occurs : Occurs} : occurs.Impossible ↔ ∀ n, ¬ occurs.Allows n := by
  constructor
  · rintro ⟨max, bounded, below⟩ n ⟨above, limit⟩
    have := limit max bounded
    omega
  · intro none
    by_contra possible
    refine none occurs.min ⟨le_refl _, fun max bounded => ?_⟩
    by_contra below
    exact possible ⟨max, bounded, by omega⟩

instance (occurs : Occurs) : Decidable occurs.Impossible :=
  match same : occurs.max with
  | none => .isFalse (by rintro ⟨max, bounded, _⟩; rw [same] at bounded; cases bounded)
  | some max => decidable_of_iff (max < occurs.min)
      ⟨fun below => ⟨max, same, below⟩, by
        rintro ⟨other, bounded, below⟩; rw [same] at bounded; cases bounded; exact below⟩

/-- Repetitions of a language. -/
def times (occurs : Occurs) (l : Language α) : Language α := {w | ∃ n, occurs.Allows n ∧ w ∈ l ^ n}

theorem mem_times_once {l : Language α} {w : List α} (member : w ∈ l) : w ∈ once.times l :=
  ⟨1, ⟨le_refl _, fun max bounded => (Option.some.inj bounded).le⟩, by rwa [pow_one]⟩

theorem meets_times {occurs : Occurs} {l : Language α} {P : α → Prop} :
    Meets (occurs.times l) P ↔ 0 < occurs.min ∧ Meets l P ∨ occurs.Impossible := by
  constructor
  · intro meets
    by_contra neither
    obtain ⟨avoids, possible⟩ := not_or.mp neither
    rw [impossible_iff] at possible
    simp only [not_forall, not_not] at possible
    obtain ⟨n, above, limit⟩ := possible
    have least : occurs.Allows occurs.min :=
      ⟨le_refl _, fun max bounded => above.trans (limit max bounded)⟩
    exact avoids (meets_pow.mp fun w member => meets w ⟨_, least, member⟩)
  · rintro (⟨positive, meets⟩ | impossible) w ⟨n, allowed, member⟩
    · exact meets_pow.mpr ⟨positive.trans_le allowed.1, meets⟩ w member
    · exact absurd allowed (impossible_iff.mp impossible n)

end Occurs

/-! Models. -/

inductive GroupKind where
  | sequence
  | choice
  | all
  deriving DecidableEq, Repr

/-- The particles of a group, by first child and next sibling. -/
inductive Particles (β : Type) where
  | nil
  | leaf (b : β) (occurs : Occurs) (rest : Particles β)
  | group (kind : GroupKind) (occurs : Occurs) (kids rest : Particles β)
  deriving DecidableEq, Repr

/-- A group with its bounds. -/
structure Model (β : Type) where
  kind : GroupKind
  occurs : Occurs
  particles : Particles β
  deriving DecidableEq, Repr

namespace GroupKind

/-- The language of a group without particles. -/
def unit : GroupKind → Language α
  | .sequence | .all => 1
  | .choice => 0

def combine : GroupKind → Language α → Language α → Language α
  | .sequence => (· * ·)
  | .choice => (· + ·)
  | .all => shuffle

/-- Alternatives force what each of them forces, other groups what some particle forces. -/
def joinForces : GroupKind → Bool → Bool → Bool
  | .sequence, first, rest | .all, first, rest => first || rest
  | .choice, first, rest => first && rest

def unitForces : GroupKind → Bool
  | .sequence | .all => false
  | .choice => true

theorem meets_unit (kind : GroupKind) (P : α → Prop) :
    Meets kind.unit P ↔ kind.unitForces = true := by
  cases kind with
  | choice => exact iff_of_true (meets_zero P) rfl
  | sequence | all => exact iff_of_false (not_meets_one P) Bool.false_ne_true

theorem meets_combine (kind : GroupKind) {l m : Language α} {P : α → Prop} {first rest : Bool}
    (here : Meets l P ↔ first = true) (there : Meets m P ↔ rest = true) :
    Meets (kind.combine l m) P ↔ kind.joinForces first rest = true := by
  cases kind with
  | sequence => rw [combine, meets_mul, here, there, joinForces, Bool.or_eq_true]
  | choice => rw [combine, meets_add, here, there, joinForces, Bool.and_eq_true]
  | all => rw [combine, meets_shuffle, here, there, joinForces, Bool.or_eq_true]

end GroupKind

/-- Whether a particle forces what its body forces. -/
def Occurs.forces (occurs : Occurs)
    (body : Bool) : Bool := 0 < occurs.min && body || occurs.Impossible

theorem Occurs.meets_times_forces (occurs : Occurs) {l : Language α} {P : α → Prop} {body : Bool}
    (inside : Meets l P ↔ body = true) : Meets (occurs.times l) P ↔ occurs.forces body = true := by
  rw [meets_times, inside]
  simp [forces]

namespace Particles

/-- The words of one letter that a leaf admits. -/
def letters (admits : β → α → Prop) (b : β) : Language α := {w | ∃ a, admits b a ∧ w = [a]}

theorem meets_letters {admits : β → α → Prop} {b : β} {P : α → Prop} :
    Meets (letters admits b) P ↔ ∀ a, admits b a → P a := by
  constructor
  · intro meets a admitted
    obtain ⟨other, member, holds⟩ := meets [a] ⟨a, admitted, rfl⟩
    rwa [List.mem_singleton.mp member] at holds
  · rintro all w ⟨a, admitted, rfl⟩
    exact ⟨a, List.mem_singleton_self a, all a admitted⟩

def language (admits : β → α → Prop) : GroupKind → Particles β → Language α
  | kind, .nil => kind.unit
  | kind, .leaf b occurs rest => kind.combine (occurs.times (letters admits b)) (language admits kind rest)
  | kind, .group inner occurs kids rest =>
    kind.combine (occurs.times (language admits inner kids)) (language admits kind rest)

def forces (leafForces : β → Bool) : GroupKind → Particles β → Bool
  | kind, .nil => kind.unitForces
  | kind, .leaf b occurs rest => kind.joinForces (occurs.forces (leafForces b)) (forces leafForces kind rest)
  | kind, .group inner occurs kids rest =>
    kind.joinForces (occurs.forces (forces leafForces inner kids)) (forces leafForces kind rest)

theorem meets_language_iff {admits : β → α → Prop} {P : α → Prop} {leafForces : β → Bool}
    (leaves : ∀ b, (∀ a, admits b a → P a) ↔ leafForces b = true) (kind : GroupKind)
    (particles : Particles β) :
    Meets (particles.language admits kind) P ↔ particles.forces leafForces kind = true := by
  induction particles generalizing kind with
  | nil => exact kind.meets_unit P
  | leaf b occurs rest ih =>
    exact kind.meets_combine (occurs.meets_times_forces (meets_letters.trans (leaves b))) (ih kind)
  | group inner occurs kids rest kidsIH restIH =>
    exact kind.meets_combine (occurs.meets_times_forces (kidsIH inner)) (restIH kind)

end Particles

namespace Model

def language (admits : β → α → Prop) (model : Model β) : Language α :=
  model.occurs.times (model.particles.language admits model.kind)

def forces (leafForces : β → Bool) (model : Model β) : Bool :=
  model.occurs.forces (model.particles.forces leafForces model.kind)

/-- What a model forces is what all its words have a letter of. -/
theorem meets_language_iff {admits : β → α → Prop} {P : α → Prop} {leafForces : β → Bool}
    (leaves : ∀ b, (∀ a, admits b a → P a) ↔ leafForces b = true) (model : Model β) :
    Meets (model.language admits) P ↔ model.forces leafForces = true :=
  model.occurs.meets_times_forces (Particles.meets_language_iff leaves model.kind model.particles)

end Model

end ContentModels
