import Mathlib.Data.List.Nodup
import Mathlib.Order.Basic

/-! Clients that share a state behind a lock.

A client either needs nothing of the state, or it takes the lock, uses the state once at the
time the clock shows then, and gives the lock back. Whatever the order of their steps, the
clients get what they would get one after the other.
-/

set_option autoImplicit false

namespace CriticalSections

variable {ι σ τ ρ : Type}

/-- What a client does with the state; a use without a result does not end. -/
inductive Task (σ τ ρ : Type) where
  | settled (result : ρ)
  | uses (access : τ → σ → Option (ρ × σ))

/-- The task of a client that is alone. -/
def Task.alone (now : τ) (shared : σ) : Task σ τ ρ → Option (ρ × σ)
  | .settled result => some (result, shared)
  | .uses access => access now shared

inductive Stage (ρ : Type) where
  | absent
  | arrived
  | inside
  | leaving (result : ρ)
  | finished (result : ρ)
  | answered (result : ρ)
  | gone

/-- Before the result is fixed. -/
def Stage.Early : Stage ρ → Prop
  | .absent | .arrived | .inside => True
  | .leaving _ | .finished _ | .answered _ | .gone => False

/-- From taking the lock to giving it back. -/
def Stage.Locked : Stage ρ → Prop
  | .inside | .leaving _ => True
  | .absent | .arrived | .finished _ | .answered _ | .gone => False

def Stage.result : Stage ρ → Option ρ
  | .leaving result | .finished result | .answered result => some result
  | .absent | .arrived | .inside | .gone => none

structure State (ι σ τ ρ : Type) where
  shared : σ
  holder : Option ι
  clock : τ
  stage : ι → Stage ρ

def initial (shared : σ) (clock : τ) : State ι σ τ ρ := ⟨shared, none, clock, fun _ => .absent⟩

inductive Event (ι τ : Type) where
  | tick (now : τ)
  | arrive (i : ι)
  | settle (i : ι)
  | enter (i : ι)
  | use (i : ι)
  | leave (i : ι)
  | answer (i : ι)
  | drop (i : ι)

section Steps

variable [DecidableEq ι] [Preorder τ]

def State.move (s : State ι σ τ ρ) (i : ι) (stage : Stage ρ) : State ι σ τ ρ :=
  { s with stage := Function.update s.stage i stage }

/-- One step. A client is dropped only while it waits for the lock or after it gave it back. -/
inductive Step (task : ι → Task σ τ ρ) : State ι σ τ ρ → Event ι τ → State ι σ τ ρ → Prop
  | tick {s : State ι σ τ ρ} {now : τ} (later : s.clock ≤ now) :
      Step task s (.tick now) { s with clock := now }
  | arrive {s : State ι σ τ ρ} {i : ι} (new : s.stage i = .absent) :
      Step task s (.arrive i) (s.move i .arrived)
  | settle {s : State ι σ τ ρ} {i : ι} {result : ρ} (here : s.stage i = .arrived)
    (wants : task i = .settled result) :
    Step task s (.settle i) (s.move i (.finished result))
  | enter {s : State ι σ τ ρ} {i : ι} {access : τ → σ → Option (ρ × σ)} (here : s.stage i = .arrived)
    (wants : task i = .uses access) (free : s.holder = none) :
    Step task s (.enter i) { s.move i .inside with holder := some i }
  | use {s : State ι σ τ ρ} {i : ι} {access : τ → σ → Option (ρ × σ)} {result : ρ} {shared : σ}
    (here : s.stage i = .inside) (wants : task i = .uses access)
    (used : access s.clock s.shared = some (result, shared)) :
    Step task s (.use i) { s.move i (.leaving result) with shared }
  | leave {s : State ι σ τ ρ} {i : ι} {result : ρ} (here : s.stage i = .leaving result) :
    Step task s (.leave i) { s.move i (.finished result) with holder := none }
  | answer {s : State ι σ τ ρ} {i : ι} {result : ρ} (here : s.stage i = .finished result) :
    Step task s (.answer i) (s.move i (.answered result))
  | drop {s : State ι σ τ ρ} {i : ι} (here : s.stage i = .arrived ∨ ∃ result,
    s.stage i = .finished result) :
    Step task s (.drop i) (s.move i .gone)

inductive Run (task : ι → Task σ τ ρ) (start : State ι σ τ ρ) :
    List (Event ι τ) → State ι σ τ ρ → Prop
  | nil : Run task start [] start
  | snoc {events : List (Event ι τ)} {s s' : State ι σ τ ρ} {e : Event ι τ} (run : Run task start events s)
    (step : Step task s e s') : Run task start (events ++ [e]) s'

end Steps

/-- The steps of clients at work, as against arrivals, departures and the clock. -/
def Event.Working : Event ι τ → Prop
  | .settle _ | .enter _ | .use _ | .leave _ | .answer _ => True
  | .tick _ | .arrive _ | .drop _ => False

/-! The order in which results are fixed. -/

def clockAfter (clock : τ) : List (Event ι τ) → τ
  | [] => clock
  | .tick now :: rest => clockAfter now rest
  | _ :: rest => clockAfter clock rest

/-- The clients whose results are fixed in a run, each with the time on the clock. -/
def order (clock : τ) : List (Event ι τ) → List (ι × τ)
  | [] => []
  | .tick now :: rest => order now rest
  | .settle i :: rest | .use i :: rest => (i, clock) :: order clock rest
  | _ :: rest => order clock rest

/-- The state that clients leave one after the other. -/
def inTurn (task : ι → Task σ τ ρ) (shared : σ) : List (ι × τ) → Option σ
  | [] => some shared
  | (i, now) :: rest => ((task i).alone now shared).bind fun done => inTurn task done.2 rest

/-- What a client gets in its turn. -/
def ResultAt (task : ι → Task σ τ ρ) (shared : σ) (turns : List (ι × τ)) (i : ι)
    (result : ρ) : Prop :=
  ∃ before now after found left, turns = before ++ (i, now) :: after ∧
    inTurn task shared before = some found ∧
    (task i).alone now found = some (result, left)

/-- One client comes before the turn of another, which may never come. -/
def Precedes (turns : List (ι × τ)) (i j : ι) : Prop :=
  ∃ before after, turns = before ++ after ∧ i ∈ before.map Prod.fst ∧ j ∉ before.map Prod.fst

variable {task : ι → Task σ τ ρ} {shared left : σ} {clock now : τ} {events more : List (Event ι τ)}
  {turns : List (ι × τ)} {i j : ι} {result : ρ}

theorem clockAfter_append : clockAfter clock (events ++ more) =
    clockAfter (clockAfter clock events) more := by
  induction events generalizing clock with
  | nil => rfl
  | cons e rest ih => cases e <;> exact ih

theorem order_append : order clock (events ++ more) = order clock events ++
    order (clockAfter clock events) more := by
  induction events generalizing clock with
  | nil => rfl
  | cons e rest ih =>
    cases e with
    | settle i | use i => exact congrArg (List.cons _) ih
    | tick now | arrive i | enter i | leave i | answer i | drop i => exact ih

theorem inTurn_append {more : List (ι × τ)} :
    inTurn task shared (turns ++ more) = (inTurn task shared turns).bind fun left =>
      inTurn task left more := by
  induction turns generalizing shared with
  | nil => rfl
  | cons turn rest ih =>
    rw [List.cons_append, inTurn, inTurn, Option.bind_assoc]
    congr 1
    funext done
    exact ih

theorem ResultAt.append (got : ResultAt task shared turns i result) (more : List (ι × τ)) :
    ResultAt task shared (turns ++ more) i result := by
  obtain ⟨before, now, after, found, left, rfl, rest⟩ := got
  exact ⟨before, now, after ++ more, found, left, by simp, rest⟩

theorem ResultAt.mem (got : ResultAt task shared turns i result) : i ∈ turns.map Prod.fst := by
  obtain ⟨before, now, after, _, _, rfl, _⟩ := got
  simp

/-! What holds after every run. -/

section Moves

variable [DecidableEq ι] {s : State ι σ τ ρ} {stage : Stage ρ}

@[simp] theorem move_shared : (s.move i stage).shared = s.shared := rfl
@[simp] theorem move_holder : (s.move i stage).holder = s.holder := rfl
@[simp] theorem move_clock : (s.move i stage).clock = s.clock := rfl
@[simp] theorem move_stage_self : (s.move i stage).stage i = stage := by simp [State.move]

theorem move_stage_of_ne (other : j ≠ i) : (s.move i stage).stage j = s.stage j := by
  simp [State.move, other]

/-- The lock is held by the one client that is between taking it and giving it back. -/
def Exclusive (s : State ι σ τ ρ) : Prop := ∀ i, s.holder = some i ↔ (s.stage i).Locked

theorem move_early (early : stage.Early → (s.stage i).Early) (j : ι) :
    ((s.move i stage).stage j).Early → (s.stage j).Early := by
  by_cases here : j = i
  · subst here
    rwa [move_stage_self]
  · rw [move_stage_of_ne here]
    exact id

theorem move_result (kept : ∀ result, stage.result = some result → (s.stage i).result = some result)
    (j : ι) (result : ρ) :
    ((s.move i stage).stage j).result = some result → (s.stage j).result = some result := by
  by_cases here : j = i
  · subst here
    rw [move_stage_self]
    exact kept result
  · rw [move_stage_of_ne here]
    exact id

theorem Exclusive.move (exclusive : Exclusive s) (same : stage.Locked ↔ (s.stage i).Locked) :
    Exclusive (s.move i stage) := by
  intro k
  by_cases here : k = i
  · subst here
    rw [move_stage_self, same]
    exact exclusive k
  · rw [move_stage_of_ne here]
    exact exclusive k

end Moves

section Runs

variable [DecidableEq ι] [Preorder τ] {start s s' : State ι σ τ ρ} {e : Event ι τ}

theorem Run.append (run : Run task start events s) (rest : Run task s more s') :
    Run task start (events ++ more) s' := by
  induction rest with
  | nil => rwa [List.append_nil]
  | snoc _ step ih =>
    rw [← List.append_assoc]
    exact ih.snoc step

theorem Run.split {done : List (Event ι τ)} (run : Run task start (done ++ more) s) :
    ∃ mid, Run task start done mid ∧ Run task mid more s := by
  generalize same : done ++ more = whole at run
  induction run generalizing done more with
  | nil =>
    obtain ⟨rfl, rfl⟩ := List.append_eq_nil_iff.mp same
    exact ⟨start, .nil, .nil⟩
  | @snoc events s₁ s₂ e run step ih =>
    rcases List.eq_nil_or_concat more with rfl | ⟨before, last, rfl⟩
    · obtain rfl : done = events ++ [e] := by simpa using same
      exact ⟨s₂, run.snoc step, .nil⟩
    · rw [List.concat_eq_append, ← List.append_assoc] at same
      obtain ⟨front, back⟩ := List.append_inj' same rfl
      obtain rfl := List.singleton_inj.mp back
      obtain ⟨mid, first, rest⟩ := ih front
      rw [List.concat_eq_append]
      exact ⟨mid, first, rest.snoc step⟩

theorem Run.split_at {done : List (Event ι τ)} (run : Run task start (done ++ e :: more) s) :
    ∃ mid mid', Run task start done mid ∧ Step task mid e mid' ∧ Run task mid' more s := by
  rw [List.append_cons] at run
  obtain ⟨mid', first, rest⟩ := run.split
  generalize same : done ++ [e] = whole at first
  cases first with
  | nil => simp at same
  | snoc before step =>
    obtain ⟨rfl, last⟩ := List.append_inj' same rfl
    obtain rfl := List.singleton_inj.mp last
    exact ⟨_, mid', before, step, rest⟩

theorem Exclusive.step (exclusive : Exclusive s) (step : Step task s e s') : Exclusive s' := by
  cases step with
  | tick later => exact exclusive
  | arrive new => exact exclusive.move (by rw [new]; exact Iff.rfl)
  | settle here wants => exact exclusive.move (by rw [here]; exact Iff.rfl)
  | @enter i access here wants free =>
    intro k
    by_cases other : k = i
    · subst other
      exact iff_of_true rfl (by simp [Stage.Locked])
    · -- whoever enters finds the lock free, so nobody else is inside
      have outside : ¬ (s.stage k).Locked :=
        fun locked => by simp [(exclusive k).mpr locked] at free
      apply iff_of_false (fun held => other (Option.some.inj held).symm)
      show ¬ ((s.move i .inside).stage k).Locked
      rwa [move_stage_of_ne other]
  | use here wants used => exact exclusive.move (by rw [here]; exact Iff.rfl)
  | @leave i result here =>
    -- only the holder can leave
    have held : s.holder = some i := (exclusive i).mpr (by rw [here]; trivial)
    intro k
    apply iff_of_false (fun none_ => by cases none_)
    show ¬ ((s.move i (.finished result)).stage k).Locked
    by_cases other : k = i
    · subst other
      rw [move_stage_self]
      exact id
    · rw [move_stage_of_ne other, ← exclusive k, held]
      exact fun same => other (Option.some.inj same).symm
  | answer here => exact exclusive.move (by rw [here]; exact Iff.rfl)
  | drop here =>
    apply exclusive.move
    rcases here with here | ⟨result, here⟩ <;> rw [here] <;> exact Iff.rfl

end Runs

section Turns

variable [Preorder τ] {s s' : State ι σ τ ρ} {e : Event ι τ} {found : σ} {since : τ}

/-- A run so far, as the clients one after the other. -/
structure Ordered (task : ι → Task σ τ ρ) (found : σ) (since : τ) (events : List (Event ι τ))
    (s : State ι σ τ ρ) :
    Prop where
  clock : clockAfter since events = s.clock
  shared : inTurn task found (order since events) = some s.shared
  early : ∀ i, i ∈ (order since events).map Prod.fst → ¬ (s.stage i).Early
  result : ∀ i result, (s.stage i).result = some result → ResultAt task found (order since events) i result
  nodup : ((order since events).map Prod.fst).Nodup
  times : (since :: (order since events).map Prod.snd).Pairwise (· ≤ ·)
  past : ∀ now ∈ since :: (order since events).map Prod.snd, now ≤ s.clock

theorem ordered_initial : Ordered task found since [] (initial found since) where
  clock := rfl
  shared := rfl
  early _ member := by cases member
  result _ _ got := by cases got
  nodup := .nil
  times := List.pairwise_singleton _ _
  past now member := by rw [List.mem_singleton.mp member]; exact le_rfl

/-- A step that fixes no result keeps the order. -/
theorem Ordered.keep (ordered : Ordered task found since events s)
    (none_ : ∀ clock, order clock [e] = []) (sameShared : s'.shared = s.shared)
    (sameClock : clockAfter s.clock [e] = s'.clock) (later : s.clock ≤ s'.clock)
    (early : ∀ i, (s'.stage i).Early → (s.stage i).Early)
    (result : ∀ i result, (s'.stage i).result = some result → (s.stage i).result = some result) :
    Ordered task found since (events ++ [e]) s' := by
  have same : order since (events ++ [e]) = order since events := by
    rw [order_append, none_, List.append_nil]
  refine ⟨?_, ?_, ?_, ?_, ?_, ?_, ?_⟩
  · rw [clockAfter_append, ordered.clock, sameClock]
  · rw [same, ordered.shared, sameShared]
  · intro i member is
    exact ordered.early i (same ▸ member) (early i is)
  · intro i r got
    rw [same]
    exact ordered.result i r (result i r got)
  · rw [same]
    exact ordered.nodup
  · rw [same]
    exact ordered.times
  · rw [same]
    exact fun now member => (ordered.past now member).trans later

/-- A step that fixes the result of a client puts it at the end of the order. -/
theorem Ordered.fix (ordered : Ordered task found since events s)
    (fixes : ∀ clock, order clock [e] = [(i, clock)])
    (sameClock : clockAfter s.clock [e] = s'.clock) (still : s'.clock = s.clock)
    (here : (s.stage i).Early) (got : (task i).alone s.clock s.shared = some (result, s'.shared))
    (moved : ∀ j, j ≠ i → s'.stage j = s.stage j) (now : (s'.stage i).result = some result) :
    Ordered task found since (events ++ [e]) s' := by
  have grown : order since (events ++ [e]) = order since events ++ [(i, s.clock)] := by
    rw [order_append, fixes, ordered.clock]
  -- an early client has no turn in the order yet
  have unseen : i ∉ (order since events).map Prod.fst := fun member => ordered.early i member here
  have settled : ¬ (s'.stage i).Early := by
    cases at_ : s'.stage i <;> rw [at_] at now
    all_goals first | exact id | cases now
  refine ⟨?_, ?_, ?_, ?_, ?_, ?_, ?_⟩
  · rw [clockAfter_append, ordered.clock, sameClock]
  · rw [grown, inTurn_append, ordered.shared, Option.bind_some, inTurn, got]
    rfl
  · intro j member
    by_cases own : j = i
    · exact own ▸ settled
    · rw [moved j own]
      rw [grown, List.map_append, List.mem_append] at member
      exact ordered.early j (member.resolve_right fun last => own (by simpa using last))
  · intro j r has
    rw [grown]
    -- the others keep the turns that they had
    by_cases own : j = i
    · subst own
      obtain rfl := Option.some.inj (now.symm.trans has)
      exact ⟨order since events, s.clock, [], s.shared, s'.shared, rfl, ordered.shared, got⟩
    · rw [moved j own] at has
      exact (ordered.result j r has).append _
  · rw [grown, List.map_append]
    exact List.nodup_append'.mpr ⟨ordered.nodup, List.nodup_singleton _, by simpa using unseen⟩
  · rw [grown, List.map_append, ← List.cons_append]
    apply List.pairwise_append.mpr ⟨ordered.times, List.pairwise_singleton _ _, ?_⟩
    intro before member last same
    rw [List.mem_singleton.mp same]
    exact ordered.past before member
  · rw [grown, List.map_append, ← List.cons_append, still]
    intro t member
    rcases List.mem_append.mp member with member | member
    · exact ordered.past t member
    · rw [List.mem_singleton.mp member]

end Turns

section Runs

variable [DecidableEq ι] [Preorder τ] {start s s' : State ι σ τ ρ} {e : Event ι τ} {found : σ}
    {since : τ}

theorem Ordered.step (ordered : Ordered task found since events s) (step : Step task s e s') :
    Ordered task found since (events ++ [e]) s' := by
  cases step with
  | tick later => exact ordered.keep (fun _ => rfl) rfl rfl later (fun _ => id) fun _ _ => id
  | arrive new =>
    refine ordered.keep (fun _ => rfl) rfl rfl le_rfl (move_early fun _ => ?_)
      (move_result fun _ got => ?_)
    · rw [new]
      trivial
    · cases got
  | @settle i result here wants =>
    have got : (task i).alone s.clock s.shared = some (result, s.shared) := by rw [wants]; rfl
    refine ordered.fix (fun _ => rfl) rfl rfl ?_ got (fun j other => move_stage_of_ne other) ?_
    · rw [here]
      trivial
    · exact congrArg Stage.result move_stage_self
  | enter here wants free =>
    refine ordered.keep (fun _ => rfl) rfl rfl le_rfl (move_early fun _ => ?_)
      (move_result fun _ got => ?_)
    · rw [here]
      trivial
    · cases got
  | @use i access result shared here wants used =>
    have got : (task i).alone s.clock s.shared = some (result, shared) := by rw [wants]; exact used
    refine ordered.fix (fun _ => rfl) rfl rfl ?_ got (fun j other => move_stage_of_ne other) ?_
    · rw [here]
      trivial
    · exact congrArg Stage.result move_stage_self
  | leave here | answer here =>
    refine ordered.keep (fun _ => rfl) rfl rfl le_rfl (move_early fun early => False.elim early)
      (move_result fun _ got => ?_)
    rw [here]
    exact got
  | drop here =>
    exact ordered.keep (fun _ => rfl) rfl rfl le_rfl (move_early fun early => False.elim early)
      (move_result fun _ got => by cases got)

/-- The run lemma. -/
theorem Run.ordered (run : Run task (initial found since) events s) :
    Ordered task found since events s := by
  induction run with
  | nil => exact ordered_initial
  | snoc _ step ih => exact ih.step step

theorem Step.of_answer (step : Step task s (.answer i) s') :
    ∃ result, (s.stage i).result = some result := by
  cases step with
  | answer here => exact ⟨_, by rw [here]; rfl⟩

theorem Step.of_arrive (step : Step task s (.arrive i) s') : (s.stage i).Early := by
  cases step with
  | arrive new =>
    rw [new]
    trivial

/-- A client that has its answer before another one arrives comes before it. -/
theorem Run.precedes {done : List (Event ι τ)}
    (run : Run task (initial found since) (done ++ .arrive j :: more) s)
    (answered : .answer i ∈ done) : Precedes (order since (done ++ .arrive j :: more)) i j := by
  obtain ⟨mid, _, first, arrives, _⟩ := run.split_at
  refine ⟨order since done, _, order_append, ?_,
    fun member => first.ordered.early j member arrives.of_arrive⟩
  -- the result was fixed when the answer was given, and the order only grows
  obtain ⟨before, after, rfl⟩ := List.append_of_mem answered
  obtain ⟨_, _, early, answers, _⟩ := first.split_at
  obtain ⟨result, got⟩ := answers.of_answer
  rw [order_append, List.map_append]
  exact List.mem_append_left _ (early.ordered.result i result got).mem

/-- Whatever the order of the steps, the clients get what they get one after the other, in an order
that agrees with the clock and with which of them were done before others came. -/
theorem linearizable (run : Run task (initial found since) events s) :
    ((order since events).map Prod.fst).Nodup ∧ (since :: (order since events).map Prod.snd).Pairwise
      (· ≤ ·) ∧
      inTurn task found (order since events) = some s.shared ∧
      (∀ i result, (s.stage i).result = some result → ResultAt task found (order since events) i result) ∧
      ∀ done more i j, events = done ++ .arrive j :: more → .answer i ∈ done →
        Precedes (order since events) i j := by
  have ordered := run.ordered
  refine ⟨ordered.nodup, ordered.times, ordered.shared, ordered.result, ?_⟩
  rintro done more i j rfl answered
  exact run.precedes answered

/-! Nobody waits for ever. -/

/-- Every use of a state that is as it should be ends, and leaves such a state. -/
def Returns (task : ι → Task σ τ ρ) (Good : σ → Prop) : Prop :=
  ∀ i access now shared, task i = .uses access → Good shared →
    ∃ result left, access now shared = some (result, left) ∧ Good left

structure Healthy (task : ι → Task σ τ ρ) (Good : σ → Prop) (s : State ι σ τ ρ) : Prop where
  exclusive : Exclusive s
  inside : ∀ i, s.stage i = .inside → ∃ access, task i = .uses access
  good : Good s.shared

variable {Good : σ → Prop}

omit [DecidableEq ι] [Preorder τ] in
theorem healthy_initial (good : Good found) : Healthy task Good (initial found since) where
  exclusive _ := iff_of_false (fun held => by cases held) id
  inside _ inside := by cases inside
  good := good

theorem Healthy.step (returns : Returns task Good) (healthy : Healthy task Good s)
    (step : Step task s e s') :
    Healthy task Good s' where
  exclusive := healthy.exclusive.step step
  inside j here := by
    cases step with
    | tick later => exact healthy.inside j here
    | @enter i access _ wants =>
      by_cases own : j = i
      · exact own ▸ ⟨access, wants⟩
      · exact healthy.inside j ((move_stage_of_ne own).symm.trans here)
    | @arrive i | @settle i | @use i | @leave i | @answer i | @drop i =>
      by_cases own : j = i
      · subst own
        cases move_stage_self.symm.trans here
      · exact healthy.inside j ((move_stage_of_ne own).symm.trans here)
  good := by
    cases step with
    | use here wants used =>
      obtain ⟨_, _, ends, good⟩ := returns _ _ s.clock s.shared wants healthy.good
      cases used.symm.trans ends
      exact good
    | tick | arrive | settle | enter | leave | answer | drop => exact healthy.good

theorem Run.healthy (returns : Returns task Good) (healthy : Healthy task Good start)
    (run : Run task start events s) :
    Healthy task Good s := by
  induction run with
  | nil => exact healthy
  | snoc _ step ih => exact ih.step returns step

/-- The client with the lock can give it back, in a few steps of its own. -/
theorem Healthy.unlock (returns : Returns task Good) (healthy : Healthy task Good s)
    (locked : (s.stage i).Locked) :
    ∃ events s' result, Run task s events s' ∧ (∀ e ∈ events, e.Working) ∧ s'.holder = none ∧
      s'.stage i = .finished result ∧ ∀ j, j ≠ i → s'.stage j = s.stage j := by
  cases here : s.stage i with
  | inside =>
    obtain ⟨access, wants⟩ := healthy.inside i here
    obtain ⟨result, left, used, _⟩ := returns i access s.clock s.shared wants healthy.good
    have using_ := Run.nil.snoc (Step.use here wants used)
    have left := using_.snoc (.leave move_stage_self)
    refine ⟨_, _, result, left, ?_, rfl, move_stage_self, ?_⟩
    · simp [Event.Working]
    · intro j other
      exact (move_stage_of_ne other).trans (move_stage_of_ne other)
  | leaving result =>
    have left : Run task s [.leave i] _ := Run.nil.snoc (.leave here)
    refine ⟨_, _, result, left, ?_, rfl, move_stage_self, ?_⟩
    · simp [Event.Working]
    · exact fun j other => move_stage_of_ne other
  | absent | arrived | finished | answered | gone =>
    rw [here] at locked
    cases locked

/-- A client that finds the lock free gets its result. -/
theorem Healthy.finish (returns : Returns task Good) (healthy : Healthy task Good s)
    (free : s.holder = none)
    (here : s.stage i = .arrived) :
    ∃ events s' result, Run task s events s' ∧ (∀ e ∈ events, e.Working) ∧
      s'.stage i = .finished result := by
  cases wants : task i with
  | settled result =>
    exact ⟨[] ++ [.settle i], _, result, Run.nil.snoc (.settle here wants), by simp [Event.Working],
      move_stage_self⟩
  | uses access =>
    have entered := Step.enter here wants free
    have locked : (({ s.move i .inside with holder := some i } : State ι σ τ ρ).stage i).Locked := by
      rw [show _ = Stage.inside from move_stage_self]
      trivial
    obtain ⟨events, s', result, run, working, _, finished, _⟩ :=
      (healthy.step returns entered).unlock returns locked
    refine ⟨_, s', result, (Run.nil.snoc entered).append run, ?_, finished⟩
    simpa [Event.Working] using working

/-- From every state that a run reaches, every client that is there can be answered by steps of the
clients alone. -/
theorem answerable (returns : Returns task Good) (good : Good found)
    (run : Run task (initial found since) events s)
    (here : s.stage i ≠ .absent) (present : s.stage i ≠ .gone) :
    ∃ more s' result, Run task s more s' ∧ (∀ e ∈ more, e.Working) ∧ s'.stage i = .answered result := by
  have healthy : Healthy task Good s :=
    run.healthy returns (healthy_initial good)
  -- first whoever holds the lock gives it back
  obtain ⟨freeing, s₁, freed, working, free, kept⟩ : ∃ freeing s₁, Run task s freeing s₁ ∧
    (∀ e ∈ freeing, e.Working) ∧
      s₁.holder = none ∧ (s₁.stage i = s.stage i ∧ ¬ (s.stage i).Locked ∨ ∃ result,
        s₁.stage i = .finished result) := by
    cases held : s.holder with
    | none =>
      refine ⟨[], s, .nil, by simp, held, .inl ⟨rfl, fun locked => ?_⟩⟩
      rw [(healthy.exclusive i).mpr locked] at held
      cases held
    | some j =>
      have locked := (healthy.exclusive j).mp held
      obtain ⟨freeing, s₁, result, freed, working, free, finished, others⟩ :=
        healthy.unlock returns locked
      refine ⟨freeing, s₁, freed, working, free, ?_⟩
      by_cases own : i = j
      · exact .inr ⟨result, own ▸ finished⟩
      · refine .inl ⟨others i own, fun own' => own ?_⟩
        exact Option.some.inj (((healthy.exclusive i).mpr own').symm.trans held)
  -- then the client goes on by itself
  suffices ∃ more s' result, Run task s₁ more s' ∧ (∀ e ∈ more, e.Working) ∧
    s'.stage i = .answered result by
    obtain ⟨more, s', result, rest, working', answered⟩ := this
    refine ⟨freeing ++ more, s', result, freed.append rest, fun e member => ?_, answered⟩
    exact (List.mem_append.mp member).elim (working e) (working' e)
  have finish {s₂ : State ι σ τ ρ} {result : ρ} {more : List (Event ι τ)} (run : Run task s₁ more s₂)
      (working : ∀ e ∈ more, e.Working) (finished : s₂.stage i = .finished result) :
      ∃ more s' result, Run task s₁ more s' ∧ (∀ e ∈ more, e.Working) ∧ s'.stage i = .answered result := by
    refine ⟨more ++ [.answer i], _, result, run.snoc (.answer finished), ?_, move_stage_self⟩
    intro e member
    rcases List.mem_append.mp member with member | member
    · exact working e member
    · rw [List.mem_singleton.mp member]
      trivial
  rcases kept with ⟨same, unlocked⟩ | ⟨result, finished⟩
  · cases at_ : s.stage i with
    | absent => exact absurd at_ here
    | gone => exact absurd at_ present
    | inside | leaving =>
      rw [at_] at unlocked
      exact absurd trivial unlocked
    | arrived =>
      obtain ⟨more, s₂, result, run, working, finished⟩ :=
        (freed.healthy returns healthy).finish returns free (same.trans at_)
      exact finish run working finished
    | finished result => exact finish .nil (by simp) (same.trans at_)
    | answered result => exact ⟨[], s₁, result, .nil, by simp, same.trans at_⟩
  · exact finish .nil (by simp) finished

end Runs

end CriticalSections
