import SoapServer.Envelope.Parser
import SoapServer.Library.Loops

/-! Reading an envelope ends, on every input, with a result or with a fault. -/

set_option autoImplicit false

namespace SoapServer

open Loops (bind_eq_ok bind_eq_error)

/-- A call that returns: it neither panics nor runs for ever, and its faults have no detail. -/
def Returns {α : Type}
    (x : Outcome α) : Prop := ∀ e, x = .error e → ∃ f, e = .fault f ∧ f.detailXml = none

section Returns

variable {α β : Type}

theorem returns_ok (a : α) : Returns (.ok a : Outcome α) := fun _ wrong => by cases wrong

theorem returns_senderFault (reason : Markup.Text) : Returns (senderFault reason : Outcome α) := by
  rintro e ⟨⟩
  exact ⟨_, rfl, rfl⟩

theorem Returns.bind {x : Outcome α} {f : α → Outcome β} (first : Returns x)
    (then_ : ∀ a, x = .ok a → Returns (f a)) :
    Returns (x >>= f) := by
  intro e ends
  rcases bind_eq_error.mp ends with failed | ⟨a, result, failed⟩
  · exact first e failed
  · exact then_ a result e failed

theorem returns_bind_iff {x : Outcome α} {f : α → Outcome β} :
    Returns (x >>= f) ↔ Returns x ∧ ∀ a, x = .ok a → Returns (f a) := by
  refine ⟨fun whole => ?_, fun both => both.1.bind both.2⟩
  cases x with
  | error e => exact ⟨fun e' same => whole e' (by cases same; rfl), fun _ wrong => by cases wrong⟩
  | ok a =>
    refine ⟨returns_ok a, fun _ same => ?_⟩
    cases same
    exact whole

end Returns

namespace Envelope

/-- A loop over the events that returns, with no more events left than it was given. -/
structure Consumes {α : Type} (left : α → Events) (events : Events) (x : Outcome α) : Prop where
  returns : Returns x
  left_le : ∀ a, x = .ok a → (left a).length ≤ events.length

section Consumes

variable {α β : Type} {left : α → Events} {events : Events}

theorem consumes_ok {a : α} (shorter : (left a).length ≤ events.length) :
    Consumes left events (.ok a) where
  returns := returns_ok _
  left_le := by
    rintro _ ⟨⟩
    exact shorter

theorem consumes_senderFault (reason : Markup.Text) :
    Consumes left events (senderFault reason) where
  returns := returns_senderFault reason
  left_le := fun _ wrong => by cases wrong

theorem Consumes.cons {x : Outcome α} (consumes : Consumes left events x)
    {item : Except Markup.Text Markup.NsEvent} :
    Consumes left (item :: events) x where
  returns := consumes.returns
  left_le := fun a result => Nat.le_succ_of_le (consumes.left_le a result)

theorem Consumes.bind {x : Outcome β} {f : β → Outcome α} (first : Returns x)
    (then_ : ∀ b, Consumes left events (f b)) : Consumes left events (x >>= f) where
  returns := first.bind fun b _ => (then_ b).returns
  left_le := by
    intro a result
    obtain ⟨b, _, result⟩ := bind_eq_ok.mp result
    exact (then_ b).left_le a result

end Consumes

theorem validAttributes_returns (attributes : List (Option Markup.Attribute)) :
    Returns (validAttributes attributes) := by
  induction attributes with
  | nil => exact returns_ok _
  | cons a rest ih =>
    cases a with
    | none => exact returns_senderFault _
    | some a => exact ih.bind fun _ _ => returns_ok _

theorem emitNested_returns (tag : Markup.ReadTag) (close : Markup.Text) :
    Returns (emitNested tag close) :=
  (validAttributes_returns _).bind fun _ _ => returns_ok _

theorem emitBodyRoot_returns (bindings : Markup.Scope) (tag : Markup.ReadTag)
    (close : Markup.Text) :
    Returns (emitBodyRoot bindings tag close) :=
  (validAttributes_returns _).bind fun _ _ => returns_ok _

theorem findEnvelope_returns (events : Events) : Returns (findEnvelope events) := by
  fun_induction findEnvelope events with
  | case1 => exact returns_senderFault _
  | case2 => exact returns_senderFault _
  | case3 | case4 =>
    refine (returns_ok _).bind fun _ _ => ?_
    exact (validAttributes_returns _).bind fun _ _ => returns_ok _
  | case5 => exact returns_senderFault _
  | case6 _ _ _ _ ih => exact ih
  | case7 _ _ _ ih => exact ih
  | case8 _ _ _ ih => exact ih
  | case9 _ _ _ ih => exact ih

theorem skipToEnd_consumes (depth : Nat) (events : Events) :
    Consumes id events (skipToEnd depth events) := by
  fun_induction skipToEnd depth events with
  | case1 => exact consumes_senderFault _
  | case2 => exact consumes_senderFault _
  | case3 _ _ _ _ ih => exact ih.cons
  | case4 _ _ _ rest => exact consumes_ok (Nat.le_succ _)
  | case5 _ _ _ _ _ ih => exact ih.cons
  | case6 _ _ _ _ ih => exact ih.cons
  | case7 _ _ _ _ ih => exact ih.cons

theorem collectHeaderChildren_consumes (bindings : Markup.Scope) (depth : Nat) (buf : Markup.Text)
    (children : List Markup.Text) (events : Events) :
    Consumes Prod.snd events (collectHeaderChildren bindings depth buf children events) := by
  fun_induction collectHeaderChildren bindings depth buf children events with
  | case1 | case2 => exact consumes_senderFault _
  | case7 => exact consumes_ok (Nat.le_succ _)
  | case4 | case6 =>
    rename_i ih
    exact .bind (emitNested_returns _ _) fun emitted => (ih emitted).cons
  | _ =>
    rename_i ih
    exact ih.cons

theorem copyBodyChild_consumes (depth : Nat) (buf : Markup.Text) (events : Events) :
    Consumes Prod.snd events (copyBodyChild depth buf events) := by
  fun_induction copyBodyChild depth buf events with
  | case1 | case2 => exact consumes_senderFault _
  | case5 => exact consumes_ok (Nat.le_succ _)
  | case3 | case4 =>
    rename_i ih
    exact .bind (emitNested_returns _ _) fun emitted => (ih emitted).cons
  | _ =>
    rename_i ih
    exact ih.cons

theorem extractBodyFirstChild_consumes (bindings : Markup.Scope) (events : Events) :
    Consumes Prod.snd events (extractBodyFirstChild bindings events) := by
  fun_induction extractBodyFirstChild bindings events with
  | case1 | case2 | case5 => exact consumes_senderFault _
  | case3 => exact .bind (emitBodyRoot_returns _ _ _) fun root => (copyBodyChild_consumes _ _ _).cons
  | case4 => exact .bind (emitBodyRoot_returns _ _ _) fun root => consumes_ok (Nat.le_succ _)
  | case6 _ _ _ ih => exact ih.cons

/-- The loop over the children of the envelope ends within its fuel. -/
theorem scanEnvelope_returns (bindings : Markup.Scope) (fuel : Nat) (headers : List Markup.Text)
    (body : Option Markup.Text) (events : Events) (enough : events.length < fuel) :
    Returns (scanEnvelope bindings fuel headers body events) := by
  fun_induction scanEnvelope bindings fuel headers body events with
  | case1 => exact absurd enough (Nat.not_lt_zero _)
  | case2 | case7 => exact returns_ok _
  | case3 => exact returns_senderFault _
  | case4 fuel headers body ns tag more called ih =>
    have part := collectHeaderChildren_consumes (collectNsFromAttrs tag bindings) 0 [] [] more
    refine part.returns.bind fun found result => ih _ _ ?_
    exact Nat.lt_of_le_of_lt (part.left_le found result) (Nat.lt_of_succ_lt_succ enough)
  | case5 fuel headers body ns tag more notHeader called ih =>
    have part := extractBodyFirstChild_consumes (collectNsFromAttrs tag bindings) more
    refine part.returns.bind fun found result => ?_
    have after := skipToEnd_consumes 1 found.2
    refine after.returns.bind fun rest ends => ih _ _ ?_
    exact Nat.lt_of_le_of_lt (Nat.le_trans (after.left_le rest ends) (part.left_le found result))
      (Nat.lt_of_succ_lt_succ enough)
  | case6 fuel headers body ns tag more notHeader notBody ih =>
    have after := skipToEnd_consumes 1 more
    refine after.returns.bind fun rest ends => ih _ ?_
    exact Nat.lt_of_le_of_lt (after.left_le rest ends) (Nat.lt_of_succ_lt_succ enough)
  | case8 | case9 =>
    rename_i ih
    exact ih (Nat.lt_of_succ_lt_succ enough)

theorem parseEnvelope_returns (ext : Externals) (input : Markup.Text) :
    Returns (parseEnvelope ext input) := by
  refine (findEnvelope_returns _).bind fun found _ => ?_
  refine (scanEnvelope_returns _ _ _ _ _ (Nat.lt_succ_self _)).bind fun parts _ => ?_
  obtain ⟨headers, _ | body⟩ := parts
  · exact returns_senderFault _
  · exact returns_ok _

end Envelope

end SoapServer
