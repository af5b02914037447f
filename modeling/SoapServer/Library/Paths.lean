import Mathlib.Data.List.Count
import Mathlib.Data.List.Infix

/-! Walks in a tree of named nodes without links. A node is the list of the names on the way
from the root to it, the innermost first.
-/

set_option autoImplicit false

namespace Paths

variable {α : Type}

inductive Step (α : Type) where
  | stay
  | up
  | down (name : α)
  deriving DecidableEq

def Step.isUp : Step α → Bool
  | .up => true
  | _ => false

def Step.isDown : Step α → Bool
  | .down _ => true
  | _ => false

/-- Where a step leads. There is nothing above the root. -/
def Step.from (node : List α) : Step α → List α
  | .stay => node
  | .up => node.tail
  | .down name => name :: node

def lands (node : List α) (steps : List (Step α)) : List α := steps.foldl Step.from node

@[simp] theorem lands_nil (node : List α) : lands node [] = node := rfl

@[simp] theorem lands_cons (node : List α) (step : Step α) (rest : List (Step α)) :
    lands node (step :: rest) = lands (step.from node) rest := rfl

def ups (steps : List (Step α)) : Nat := steps.countP Step.isUp

def downs (steps : List (Step α)) : Nat := steps.countP Step.isDown

/-- Steps that never go above the `depth`th node over the one they start from. -/
def Grounded (depth : Nat) (steps : List (Step α)) : Prop :=
  ∀ before, before <+: steps → ups before ≤ downs before + depth

variable {depth : Nat} {step : Step α} {steps : List (Step α)} {node top : List α}

theorem grounded_nil : Grounded (α := α) depth [] := by
  intro before isPrefix
  rw [List.prefix_nil.mp isPrefix]
  exact Nat.zero_le _

theorem grounded_cons_iff :
    Grounded depth (step :: steps) ↔ ∀ before, before <+: steps →
      ups (step :: before) ≤ downs (step :: before) + depth := by
  constructor
  · intro grounded before isPrefix
    exact grounded _ (List.cons_prefix_cons.mpr ⟨rfl, isPrefix⟩)
  · intro each before isPrefix
    rcases List.prefix_cons_iff.mp isPrefix with rfl | ⟨rest, rfl, inner⟩
    · exact Nat.zero_le _
    · exact each rest inner

theorem grounded_stay : Grounded depth (.stay :: steps) ↔ Grounded depth steps := by
  rw [grounded_cons_iff]
  rfl

theorem grounded_down (name : α) :
    Grounded depth (.down name :: steps) ↔ Grounded (depth + 1) steps := by
  rw [grounded_cons_iff]
  refine forall₂_congr fun before _ => ?_
  have more : downs (.down name :: before) = downs before + 1 := List.countP_cons_of_pos rfl
  have same : ups (.down name :: before) = ups before :=
    List.countP_cons_of_neg (by simp [Step.isUp])
  rw [more, same]
  omega

theorem grounded_up : Grounded (depth + 1) (.up :: steps) ↔ Grounded depth steps := by
  rw [grounded_cons_iff]
  refine forall₂_congr fun before _ => ?_
  have more : ups (Step.up :: before) = ups before + 1 := List.countP_cons_of_pos rfl
  have same : downs (Step.up :: before) = downs before :=
    List.countP_cons_of_neg (by simp [Step.isDown])
  rw [more, same]
  omega

theorem not_grounded_up : ¬ Grounded 0 (.up :: steps) := by
  intro grounded
  have one : 1 ≤ 0 := grounded [.up] (List.cons_prefix_cons.mpr ⟨rfl, List.nil_prefix⟩)
  cases one

/-- Grounded steps see nothing of the node they start under. -/
theorem lands_append_of_grounded (grounded : Grounded top.length steps) :
    lands (top ++ node) steps = lands top steps ++ node := by
  induction steps generalizing top with
  | nil => rfl
  | cons step rest ih =>
    cases step with
    | stay => exact ih (grounded_stay.mp grounded)
    | down name =>
      have inner : Grounded (name :: top).length rest := (grounded_down name).mp grounded
      exact ih inner
    | up =>
      cases top with
      | nil => exact absurd grounded not_grounded_up
      | cons name top => exact ih (grounded_up.mp grounded)

theorem length_lands_add_ups (node : List α) (steps : List (Step α)) :
    downs steps + node.length ≤ (lands node steps).length + ups steps ∧
      (downs steps + node.length = (lands node steps).length + ups steps ↔ Grounded node.length steps) := by
  induction steps generalizing node with
  | nil => exact ⟨(Nat.zero_add _).le, iff_of_true (Nat.zero_add _) grounded_nil⟩
  | cons step rest ih =>
    cases step with
    | stay =>
      obtain ⟨bound, exact_⟩ := ih node
      exact ⟨bound, exact_.trans grounded_stay.symm⟩
    | down name =>
      obtain ⟨bound, exact_⟩ := ih (name :: node)
      have more : downs (.down name :: rest) = downs rest + 1 := List.countP_cons_of_pos rfl
      have same : ups (.down name :: rest) = ups rest :=
        List.countP_cons_of_neg (by simp [Step.isUp])
      rw [grounded_down, ← List.length_cons, ← exact_, lands_cons, more, same]
      simp only [Step.from, List.length_cons] at bound ⊢
      exact ⟨by omega, by omega⟩
    | up =>
      have more : ups (Step.up :: rest) = ups rest + 1 := List.countP_cons_of_pos rfl
      have same : downs (Step.up :: rest) = downs rest :=
        List.countP_cons_of_neg (by simp [Step.isDown])
      cases node with
      | nil =>
        -- a step up from the root is lost
        obtain ⟨bound, _⟩ := ih []
        rw [lands_cons, more, same]
        simp only [Step.from, List.tail_nil, List.length_nil] at bound ⊢
        exact ⟨by omega, iff_of_false (by omega) not_grounded_up⟩
      | cons name node =>
        obtain ⟨bound, exact_⟩ := ih node
        rw [List.length_cons, grounded_up, ← exact_, lands_cons, more, same]
        simp only [Step.from, List.tail_cons] at bound ⊢
        exact ⟨by omega, by omega⟩

/-- Steps that go down more often than up leave their start below them, when grounded. -/
theorem length_lands (grounded : Grounded node.length steps) :
    downs steps + node.length = (lands node steps).length + ups steps :=
  (length_lands_add_ups node steps).2.mpr grounded

/-- Under a deep enough start, ungrounded steps land elsewhere than where they land from the root. -/
theorem grounded_of_lands_append (deep : ups steps ≤ node.length)
    (same : lands node steps = lands [] steps ++ node) :
    Grounded 0 steps := by
  have below : Grounded node.length steps := by
    intro before isPrefix
    have := List.Sublist.countP_le (p := Step.isUp) isPrefix.sublist
    simp only [ups] at deep ⊢
    omega
  have whole := length_lands below
  rw [same, List.length_append] at whole
  refine (length_lands_add_ups [] steps).2.mp ?_
  rw [List.length_nil]
  omega

/-! Trees. -/

inductive Kind where
  | directory
  | file
  deriving DecidableEq

/-- What there is at each node: a root, and entries in directories only. -/
structure Tree (α : Type) where
  kind : List α → Option Kind
  root : kind [] = some .directory
  within : ∀ name node, (kind (name :: node)).isSome = true → kind node = some .directory

namespace Tree

variable (tree : Tree α) {target : List α}

/-- A step is made in a directory, to a node that is there. -/
def enter (node : List α) (s : Step α) : Option (List α) :=
  if tree.kind node = some .directory ∧ (tree.kind (s.from node)).isSome = true then some (s.from node) else none

def walk (node : List α) (steps : List (Step α)) : Option (List α) := steps.foldlM tree.enter node

theorem walk_cons (node : List α) (s : Step α) (rest : List (Step α)) :
    tree.walk node (s :: rest) = (tree.enter node s).bind fun next => tree.walk next rest :=
  List.foldlM_cons

variable {tree}

theorem enter_eq_some {s : Step α} : tree.enter node s = some target ↔
    (tree.kind node = some .directory ∧ (tree.kind (s.from node)).isSome = true) ∧ s.from node = target := by
  rw [enter, Option.ite_none_right_eq_some, Option.some.injEq]

/-- A walk ends where its steps land, at a node that is there. -/
theorem lands_of_walk (present : (tree.kind node).isSome = true)
    (walked : tree.walk node steps = some target) :
    target = lands node steps ∧ (tree.kind target).isSome = true := by
  induction steps generalizing node with
  | nil =>
    obtain rfl : node = target := Option.some.inj walked
    exact ⟨rfl, present⟩
  | cons s rest ih =>
    rw [walk_cons, Option.bind_eq_some_iff] at walked
    obtain ⟨next, first, walked⟩ := walked
    obtain ⟨⟨_, there⟩, rfl⟩ := enter_eq_some.mp first
    exact ih there walked

theorem present_above (present : (tree.kind (top ++ node)).isSome = true) :
    (tree.kind node).isSome = true := by
  induction top with
  | nil => exact present
  | cons name top ih =>
    refine ih ?_
    rw [tree.within name (top ++ node) present]
    rfl

/-- Names lead down to every node that is there. -/
theorem walk_down {names : List α} (present : (tree.kind (names.reverse ++ node)).isSome = true) :
    tree.walk node (names.map .down) = some (names.reverse ++ node) := by
  induction names generalizing node with
  | nil => rfl
  | cons name rest ih =>
    rw [List.reverse_cons, List.append_assoc, List.singleton_append] at present ⊢
    have here : (tree.kind (name :: node)).isSome = true := present_above present
    have first : tree.enter node (.down name) = some (name :: node) :=
      enter_eq_some.mpr ⟨⟨tree.within name node here, here⟩, rfl⟩
    rw [List.map_cons, walk_cons, first]
    exact ih present

/-- Where every name leads to a directory. -/
def full (α : Type) : Tree α := ⟨fun _ => some .directory, rfl, fun _ _ _ => rfl⟩

theorem walk_full (node : List α) (steps : List (Step α)) :
    (full α).walk node steps = some (lands node steps) := by
  induction steps generalizing node with
  | nil => rfl
  | cons s rest ih => exact ih (s.from node)

end Tree

end Paths
