import SoapServer.Dispatch.Table

/-! Where the entries of a routing table come from. -/

set_option autoImplicit false

namespace SoapServer.Dispatch

open Markup (Text)
open Maps Loops
open Wsdl

variable {H : Type} {inputs : TableInputs H}

/-- Validation looks up the element's type, which must be in the registry if there is one. -/
theorem validationType_eq_ok {resolved : ResolvedWsdl} {opName : Text} {element : QName}
    {v : Option QName} :
    validationType resolved opName element = .ok v ↔
      resolved.elementTypeMap.lookup element = v ∧ ∀ t, v = some t → (resolved.typeRegistry.lookup t).isSome := by
  unfold validationType
  cases known : resolved.elementTypeMap.lookup element with
  | none =>
    constructor
    · rintro ⟨⟩
      exact ⟨rfl, by rintro t ⟨⟩⟩
    · rintro ⟨rfl, _⟩
      rfl
  | some t =>
    by_cases registered : (resolved.typeRegistry.lookup t).isSome
    · simp only [registered, if_true]
      constructor
      · rintro ⟨⟩
        exact ⟨rfl, by rintro t' ⟨⟩; exact registered⟩
      · rintro ⟨rfl, _⟩
        rfl
    · simp only [registered]
      constructor
      · rintro ⟨⟩
      · rintro ⟨rfl, typed⟩
        exact absurd (typed t rfl) registered

/-- The type of an input element, if the WSDL gives the element one. -/
def elementType (resolved : ResolvedWsdl) (element : Option QName) : Option QName :=
  element.bind resolved.elementTypeMap.lookup

theorem inputTypes_document_eq_ok {iter : MapOrder} {resolved : ResolvedWsdl} {op : CollectedOp}
    (document : op.style = .document) {element v : Option QName} :
    inputTypes iter resolved op = .ok (element, v) ↔
      element = resolveInputElement iter resolved.definition op.name ∧ v = elementType resolved element ∧
        ∀ t, v = some t → (resolved.typeRegistry.lookup t).isSome := by
  simp only [inputTypes, document]
  cases resolveInputElement iter resolved.definition op.name with
  | none =>
    constructor
    · rintro ⟨⟩
      exact ⟨rfl, rfl, by rintro t ⟨⟩⟩
    · rintro ⟨rfl, rfl, _⟩
      rfl
  | some e =>
    simp only [map_eq_ok, validationType_eq_ok]
    constructor
    · rintro ⟨v, ⟨known, typed⟩, same⟩
      cases same
      exact ⟨rfl, known.symm, typed⟩
    · rintro ⟨rfl, rfl, typed⟩
      exact ⟨_, ⟨rfl, typed⟩, rfl⟩

/-- What the entry of an operation says of it. -/
theorem dispatchEntry_eq_ok {op : CollectedOp} {entry : DispatchEntry H} :
    dispatchEntry inputs op = .ok entry ↔
      (inputs.handlers.lookup op.name).or inputs.defaultHandler = some entry.handler ∧
        inputTypes inputs.iter inputs.resolved op = .ok (entry.inputType, entry.validationType) ∧
        entry.authRequired = decide (op.name ∉ inputs.authBypass) := by
  unfold dispatchEntry
  cases registered : (inputs.handlers.lookup op.name).or inputs.defaultHandler with
  | none => simp
  | some handler =>
    simp only [map_eq_ok]
    constructor
    · rintro ⟨types, found, rfl⟩
      exact ⟨rfl, found, rfl⟩
    · rintro ⟨same, found, auth⟩
      cases same
      exact ⟨_, found, by simp [← auth]⟩

/-! Tables in the making. -/

theorem addOp_eq_ok {table grown : DispatchTable H} {op : CollectedOp} :
    addOp inputs table op = .ok grown ↔
    ∃ entry, dispatchEntry inputs op = .ok entry ∧ table.index op.soapAction entry = grown := by
  rw [addOp, bind_eq_ok]
  simp only [Except.ok.injEq]

theorem built_foldlM {ops : List CollectedOp} {table : DispatchTable H}
    (built : buildDispatchTableFromOps inputs ops = .ok table) :
    ops.foldlM (addOp inputs) ⟨∅, ∅, inputs.defaultHandler⟩ = .ok table := by
  rw [buildDispatchTableFromOps, bind_eq_ok] at built
  obtain ⟨filled, run, rest⟩ := built
  split at rest
  · cases rest
  · exact run.trans rest

/-- Every entry of a table is the entry of one of its operations, under a key of that
operation. -/
structure Sourced (inputs : TableInputs H) (ops : List CollectedOp) (table : DispatchTable H) :
    Prop where
  byElement : ∀ {q entry}, table.byElement.lookup q = some entry →
    ∃ op ∈ ops, dispatchEntry inputs op = .ok entry ∧ entry.inputType = some q
  byAction : ∀ {action entry}, table.byAction.lookup action = some entry →
    ∃ op ∈ ops, dispatchEntry inputs op = .ok entry ∧ op.soapAction = action ∧ action ≠ []

theorem Sourced.addOp {ops : List CollectedOp} {table grown : DispatchTable H} {op : CollectedOp}
    (offered : op ∈ ops) (sourced : Sourced inputs ops table)
    (added : addOp inputs table op = .ok grown) :
    Sourced inputs ops grown := by
  obtain ⟨entry, made, rfl⟩ := addOp_eq_ok.mp added
  constructor
  · intro q found known
    cases input : entry.inputType with
    | none =>
      simp only [DispatchTable.index, input] at known
      exact sourced.byElement known
    | some qn =>
      simp only [DispatchTable.index, input] at known
      -- what is written under a key comes from the operation, and the rest is as it was
      by_cases here : q = qn
      · subst here
        rw [AList.lookup_insert] at known
        obtain rfl := Option.some.inj known
        exact ⟨op, offered, made, input⟩
      · rw [AList.lookup_insert_ne here] at known
        exact sourced.byElement known
  · intro action found known
    by_cases silent : op.soapAction = []
    · simp only [DispatchTable.index, silent, if_true] at known
      exact sourced.byAction known
    · simp only [DispatchTable.index, silent, if_false] at known
      by_cases here : action = op.soapAction
      · subst here
        rw [AList.lookup_insert] at known
        obtain rfl := Option.some.inj known
        exact ⟨op, offered, made, rfl, silent⟩
      · rw [AList.lookup_insert_ne here] at known
        exact sourced.byAction known

theorem sourced_empty (inputs : TableInputs H) (ops : List CollectedOp)
    (defaultHandler : Option H) :
    Sourced inputs ops ⟨∅, ∅, defaultHandler⟩ where
  byElement known := by simp at known
  byAction known := by simp at known

theorem buildDispatchTableFromOps_sourced {ops : List CollectedOp} {table : DispatchTable H}
    (built : buildDispatchTableFromOps inputs ops = .ok table) : Sourced inputs ops table :=
  foldlM_invariant (Sourced inputs ops) (fun _ member _ _ sourced added => sourced.addOp member added)
    (sourced_empty inputs ops inputs.defaultHandler) (built_foldlM built)

/-- A routed request gets the entry of an operation. -/
theorem Sourced.route {ops : List CollectedOp} {table : DispatchTable H}
    (sourced : Sourced inputs ops table) {q : QName} {soapAction : Option Text}
    {entry : DispatchEntry H} (routed : route table q soapAction = .ok entry) :
    ∃ op ∈ ops, dispatchEntry inputs op = .ok entry := by
  unfold Dispatch.route at routed
  split at routed
  next found known =>
    obtain rfl := Except.ok.inj routed
    rcases Option.or_eq_some_iff.mp known with byElement | ⟨_, byAction⟩
    · obtain ⟨op, member, made, _⟩ := sourced.byElement byElement
      exact ⟨op, member, made⟩
    · obtain ⟨action, _, byAction⟩ := Option.bind_eq_some_iff.mp byAction
      obtain ⟨op, member, made, _⟩ := sourced.byAction byAction
      exact ⟨op, member, made⟩
  next => cases routed

end SoapServer.Dispatch
