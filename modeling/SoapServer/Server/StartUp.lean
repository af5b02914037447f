import SoapServer.Dispatch.Shadowing
import SoapServer.Server.ServiceRoutes

/-! The checks at the start: which WSDLs and handlers there are tables for, and what an error
says where there are none.
-/

set_option autoImplicit false

namespace SoapServer

open Markup (Text)
open Maps Loops
open Wsdl

namespace Dispatch

variable {H : Type} {inputs : TableInputs H} {ops : List CollectedOp}

def Handled (inputs : TableInputs H) (op : CollectedOp) : Prop :=
  (inputs.handlers.lookup op.name).isSome ∨ inputs.defaultHandler.isSome

/-- The type of a document-style operation's input element, if the WSDL gives it one, is
registered. -/
def InputTyped (inputs : TableInputs H) (op : CollectedOp) : Prop :=
  op.style = .document → ∀ element t,
    resolveInputElement inputs.iter inputs.resolved.definition op.name = some element →
    inputs.resolved.elementTypeMap.lookup element = some t → (inputs.resolved.typeRegistry.lookup t).isSome

/-- Every operation has a handler, every handler an operation and every input type a definition. -/
structure StartsUp (inputs : TableInputs H) (ops : List CollectedOp) : Prop where
  handled : ∀ op ∈ ops, Handled inputs op
  known : ∀ name, (inputs.handlers.lookup name).isSome → ∃ op ∈ ops, op.name = name
  typed : ∀ op ∈ ops, InputTyped inputs op

/-- The errors that are true of some operations. -/
inductive Reports (inputs : TableInputs H) (ops : List CollectedOp) : DispatchError → Prop
  | unregistered {op : CollectedOp} (member : op ∈ ops) (unhandled : ¬ Handled inputs op) :
      Reports inputs ops (.unregisteredOperation op.name)
  | unknown {name : Text} (registered : (inputs.handlers.lookup name).isSome) (absent : ∀ op ∈ ops, op.name ≠ name) :
      Reports inputs ops (.unknownOperation name)
  | unresolvable {op : CollectedOp} {element t : QName} (member : op ∈ ops) (document : op.style = .document)
      (input : resolveInputElement inputs.iter inputs.resolved.definition op.name = some element)
      (typed : inputs.resolved.elementTypeMap.lookup element = some t)
      (missing : inputs.resolved.typeRegistry.lookup t = none) :
      Reports inputs ops (.unresolvableInputType op.name element.toText t.toText)

theorem Reports.not_startsUp {e : DispatchError} (reports : Reports inputs ops e) :
    ¬ StartsUp inputs ops := by
  intro starts
  cases reports with
  | unregistered member unhandled => exact unhandled (starts.handled _ member)
  | unknown registered absent =>
    obtain ⟨op, member, named⟩ := starts.known _ registered
    exact absent op member named
  | unresolvable member document input typed missing =>
    have found := starts.typed _ member document _ _ input typed
    rw [missing] at found
    cases found

/-! One table. -/

theorem dispatchEntry_ok {op : CollectedOp} {entry : DispatchEntry H}
    (made : dispatchEntry inputs op = .ok entry) :
    Handled inputs op ∧ InputTyped inputs op := by
  obtain ⟨handler, types, _⟩ := dispatchEntry_eq_ok.mp made
  constructor
  · rcases Option.or_eq_some_iff.mp handler with own | ⟨_, byDefault⟩
    · exact .inl (by rw [own]; rfl)
    · exact .inr (by rw [byDefault]; rfl)
  · intro document element t input typed
    obtain ⟨same, checked, registered⟩ := (inputTypes_document_eq_ok document).mp types
    refine registered t ?_
    rw [checked, same, input]
    exact typed

/-- The input type of an operation is recorded and has no definition. -/
def Unresolvable (inputs : TableInputs H) (op : CollectedOp) (element t : QName) : Prop :=
  op.style = .document ∧ resolveInputElement inputs.iter inputs.resolved.definition op.name = some element ∧
    inputs.resolved.elementTypeMap.lookup element = some t ∧ inputs.resolved.typeRegistry.lookup t = none

/-- An operation has no entry for want of a handler or, if it has one, of its input type. -/
theorem dispatchEntry_fails {op : CollectedOp} {e : DispatchError}
    (failed : dispatchEntry inputs op = .error e) :
    (¬ Handled inputs op ∧ e = .unregisteredOperation op.name) ∨
      Handled inputs op ∧ ∃ element t, Unresolvable inputs op element t ∧
        e = .unresolvableInputType op.name element.toText t.toText := by
  unfold dispatchEntry at failed
  split at failed
  next unhandled =>
    cases failed
    refine .inl ⟨fun handled => ?_, rfl⟩
    obtain ⟨own, byDefault⟩ := Option.or_eq_none_iff.mp unhandled
    rw [Handled, own, byDefault] at handled
    simp at handled
  next handler registered =>
    have handled : Handled inputs op := by
      rcases Option.or_eq_some_iff.mp registered with own | ⟨_, byDefault⟩
      · exact .inl (by rw [own]; rfl)
      · exact .inr (by rw [byDefault]; rfl)
    cases types : inputTypes inputs.iter inputs.resolved op with
    | ok types' =>
      rw [types] at failed
      cases failed
    | error e' =>
      rw [types] at failed
      cases failed
      cases style : op.style with
      | rpc => simp [inputTypes, style] at types
      | document =>
        simp only [inputTypes, style] at types
        cases input : resolveInputElement inputs.iter inputs.resolved.definition op.name with
        | none => simp [input] at types
        | some element =>
          simp only [input, validationType] at types
          cases typed : inputs.resolved.elementTypeMap.lookup element with
          | none => simp [typed, Except.map] at types
          | some t =>
            simp only [typed] at types
            split at types
            next => cases types
            -- the element is recorded with a type, and the registry has no such type
            next missing =>
              cases types
              exact .inr ⟨handled, element, t, ⟨style, input, typed, by simpa using missing⟩, rfl⟩

theorem dispatchEntry_error {op : CollectedOp} {e : DispatchError} (member : op ∈ ops)
    (failed : dispatchEntry inputs op = .error e) : Reports inputs ops e := by
  rcases dispatchEntry_fails failed with ⟨unhandled, rfl⟩ | ⟨_, element, t, ⟨document, input, typed, missing⟩, rfl⟩
  · exact .unregistered member unhandled
  · exact .unresolvable member document input typed missing

theorem buildDispatchTableFromOps_ok {table : DispatchTable H}
    (built : buildDispatchTableFromOps inputs ops = .ok table) :
    StartsUp inputs ops := by
  have entries (op : CollectedOp) (member : op ∈ ops) : Handled inputs op ∧ InputTyped inputs op :=
    ((buildDispatchTableFromOps_indexed built).made op member).elim fun _ made =>
      dispatchEntry_ok made
  refine ⟨fun op member => (entries op member).1, fun name registered => ?_,
    fun op member => (entries op member).2⟩
  obtain ⟨_, _, rest⟩ := bind_eq_ok.mp built
  split at rest
  next => cases rest
  next none =>
    have served := List.find?_eq_none.mp none name (inputs.iter.mem_keys.mpr registered)
    simpa using served

theorem buildDispatchTableFromOps_error {e : DispatchError}
    (failed : buildDispatchTableFromOps inputs ops = .error e) :
    Reports inputs ops e := by
  rcases bind_eq_error.mp failed with failed | ⟨_, _, failed⟩
  · obtain ⟨done, op, rest, mid, split, _, failed⟩ := foldlM_eq_error failed
    rcases bind_eq_error.mp failed with failed | ⟨_, _, failed⟩
    · exact dispatchEntry_error (by rw [split]; simp) failed
    · cases failed
  · split at failed
    next name found =>
      cases failed
      refine .unknown (inputs.iter.mem_keys.mp (List.mem_of_find?_eq_some found)) ?_
      simpa using List.find?_some found
    next => cases failed

theorem buildDispatchTableFromOps_exact :
    (∃ table, buildDispatchTableFromOps inputs ops = .ok table) ↔
    StartsUp inputs ops := by
  refine ⟨fun ⟨_, built⟩ => buildDispatchTableFromOps_ok built, fun starts => ?_⟩
  cases run : buildDispatchTableFromOps inputs ops with
  | ok table => exact ⟨table, rfl⟩
  | error e => exact absurd starts (buildDispatchTableFromOps_error run).not_startsUp

end Dispatch

namespace Server

open Dispatch

variable {H : Type} {host : Host} {inputs : TableInputs H}

/-- The operations of all tables: those collected for each service, or for all at once where
there is at most one. -/
def collectedOps (host : Host) (inputs : TableInputs H) : List CollectedOp :=
  let definition := inputs.resolved.definition
  let serviceNames := host.iter.keys .services definition.services
  if serviceNames.length > 1 then
    serviceNames.flatMap fun name => collectOpsForService inputs.iter (some name) definition
  else collectOpsForService inputs.iter none definition

/-! The handlers of one service. -/

theorem handlersFor_eq (handlers : HashMap Text H) (names : List Text) :
    handlersFor handlers names =
    names.foldl (fun map name => (handlers.lookup name).elim map (map.insert name)) ∅ := by
  unfold handlersFor
  congr 1
  funext map name
  cases handlers.lookup name <;> rfl

theorem lookup_handlersFor (handlers : HashMap Text H) (names : List Text) (k : Text) :
    (handlersFor handlers names).lookup k = if k ∈ names then handlers.lookup k else none := by
  rw [handlersFor_eq]
  suffices ∀ m : HashMap Text H, (names.foldl (fun map name => (handlers.lookup name).elim map (map.insert name))
      m).lookup k = if k ∈ names then (handlers.lookup k).or (m.lookup k) else m.lookup k by
    refine (this ∅).trans ?_
    simp
  induction names with
  | nil => simp
  | cons name rest ih =>
    intro m
    rw [List.foldl_cons, ih]
    by_cases here : k = name
    · subst here
      cases own : handlers.lookup k with
      | none => simp
      | some h => simp
    · cases own : handlers.lookup name with
      | none => simp [here]
      | some h => simp [here, AList.lookup_insert_ne here]

theorem serviceOpNames_eq (definition : WsdlDefinition) (service : Service) :
    serviceOpNames definition service = (serviceOps definition service).map (·.name) := by
  rw [serviceOpNames, serviceOps, List.map_flatMap]
  congr 1
  funext port
  cases portBinding definition port with
  | none => rfl
  | some binding => simp [bindingOps]

/-- The names collected for a service are those of its operations. -/
theorem mem_collected_names {name serviceName : Text} {service : Service}
    (known : inputs.resolved.definition.services.lookup serviceName = some service) :
    (∃ op ∈ collectOpsForService inputs.iter (some serviceName) inputs.resolved.definition, op.name = name) ↔
      name ∈ serviceOpNames inputs.resolved.definition service := by
  have all : collectAllOps inputs.iter (some serviceName) inputs.resolved.definition =
      serviceOps inputs.resolved.definition service := by simp [collectAllOps, servicesNamed, known]
  rw [collectOpsForService, all, serviceOpNames_eq, List.mem_map]
  constructor
  · rintro ⟨op, member, named⟩
    exact ⟨op, mem_of_mem_uniqueOps member, named⟩
  · rintro ⟨op, member, rfl⟩
    obtain ⟨first, _, named, found⟩ := exists_first member
    exact ⟨first, mem_uniqueOps.mpr ⟨List.not_mem_nil, named ▸ found⟩, named⟩

/-- A service's own handlers are the registered ones for its operations. -/
theorem lookup_ownInputs {serviceName : Text} {service : Service}
    (known : inputs.resolved.definition.services.lookup serviceName = some service)
    {op : CollectedOp}
    (member : op ∈ collectOpsForService inputs.iter (some serviceName) inputs.resolved.definition) :
    (ownInputs inputs service).handlers.lookup op.name = inputs.handlers.lookup op.name := by
  rw [ownInputs, lookup_handlersFor, if_pos ((mem_collected_names known).mp ⟨op, member, rfl⟩)]

theorem handled_own_iff {serviceName : Text} {service : Service}
    (known : inputs.resolved.definition.services.lookup serviceName = some service)
    {op : CollectedOp}
    (member : op ∈ collectOpsForService inputs.iter (some serviceName) inputs.resolved.definition) :
    Handled (ownInputs inputs service) op ↔ Handled inputs op := by
  rw [Handled, lookup_ownInputs known member]
  rfl

/-! All tables. -/

theorem mem_allOps {name : Text} :
    (name ∈ (host.iter.keys .services inputs.resolved.definition.services).flatMap fun serviceName =>
        (inputs.resolved.definition.services.lookup serviceName).toList.flatMap
          (serviceOpNames inputs.resolved.definition)) ↔
      ∃ serviceName service, inputs.resolved.definition.services.lookup serviceName = some service ∧
        ∃ op ∈ collectOpsForService inputs.iter (some serviceName) inputs.resolved.definition, op.name = name := by
  simp only [List.mem_flatMap, Option.mem_toList]
  constructor
  · rintro ⟨serviceName, _, service, known, named⟩
    exact ⟨serviceName, service, known, (mem_collected_names known).mpr named⟩
  · rintro ⟨serviceName, service, known, named⟩
    exact ⟨serviceName, host.iter.mem_keys.mpr (by rw [known]; rfl), service, known,
      (mem_collected_names known).mp named⟩

variable (several : (host.iter.keys .services inputs.resolved.definition.services).length > 1)

include several in
theorem mem_collectedOps {op : CollectedOp} : op ∈ collectedOps host inputs ↔
    ∃ serviceName service, inputs.resolved.definition.services.lookup serviceName = some service ∧
      op ∈ collectOpsForService inputs.iter (some serviceName) inputs.resolved.definition := by
  simp only [collectedOps, if_pos several, List.mem_flatMap]
  constructor
  · rintro ⟨serviceName, visited, member⟩
    obtain ⟨service, known⟩ := Option.isSome_iff_exists.mp (host.iter.mem_keys.mp visited)
    exact ⟨serviceName, service, known, member⟩
  · rintro ⟨serviceName, service, known, member⟩
    exact ⟨serviceName, host.iter.mem_keys.mpr (by rw [known]; rfl), member⟩

include several in
theorem buildTables_several_ok {tables : Tables H} (built : buildTables host inputs = .ok tables) :
    StartsUp inputs (collectedOps host inputs) := by
  have many : 1 < inputs.resolved.definition.services.entries.length := by
    rw [Iteration.keys, List.length_map, (host.iter.perm .services _).length_eq] at several
    exact several
  have routes := buildTables_routes built many
  -- each service has a table of its own operations, so each of them starts up
  have starts {serviceName : Text} {service : Service}
      (known : inputs.resolved.definition.services.lookup serviceName = some service) :
      StartsUp (ownInputs inputs service)
        (collectOpsForService inputs.iter (some serviceName) inputs.resolved.definition) := by
    obtain ⟨_, _, table, ⟨service', known', _, made⟩, _⟩ :=
      routes.covered serviceName (host.iter.mem_keys.mpr (by rw [known]; rfl))
    obtain rfl := Option.some.inj (known.symm.trans known')
    exact buildDispatchTableFromOps_ok made
  refine ⟨fun op member => ?_, fun name registered => ?_, fun op member => ?_⟩
  · obtain ⟨serviceName, service, known, member⟩ := (mem_collectedOps several).mp member
    exact (handled_own_iff known member).mp ((starts known).handled op member)
  · simp only [buildTables, if_pos several] at built
    split at built
    next => cases built
    next none =>
      have served := List.find?_eq_none.mp none name (host.iter.mem_keys.mpr registered)
      obtain ⟨serviceName, service, known, op, member, named⟩ :=
        mem_allOps.mp (by simpa using served)
      exact ⟨op, (mem_collectedOps several).mpr ⟨serviceName, service, known, member⟩, named⟩
  · obtain ⟨serviceName, service, known, member⟩ := (mem_collectedOps several).mp member
    exact (starts known).typed op member

include several in
/-- What is true of one service's operations and handlers is true of all. -/
theorem reports_of_own {serviceName : Text} {service : Service}
    (known : inputs.resolved.definition.services.lookup serviceName = some service)
    {e : DispatchError} (reports : Reports (ownInputs inputs service)
      (collectOpsForService inputs.iter (some serviceName) inputs.resolved.definition) e) :
    Reports inputs (collectedOps host inputs) e := by
  have all {op : CollectedOp}
      (member : op ∈ collectOpsForService inputs.iter (some serviceName) inputs.resolved.definition) :
      op ∈ collectedOps host inputs := (mem_collectedOps several).mpr ⟨serviceName, service, known,
        member⟩
  cases reports with
  | unregistered member unhandled =>
    exact .unregistered (all member) fun handled =>
      unhandled ((handled_own_iff known member).mpr handled)
  | @unknown name registered absent =>
    rw [ownInputs, lookup_handlersFor] at registered
    split at registered
    next own =>
      obtain ⟨op, member, named⟩ := (mem_collected_names known).mpr own
      exact absurd named (absent op member)
    next => cases registered
  | unresolvable member document input typed missing =>
    exact .unresolvable (all member) document input typed missing

theorem liftDispatch_eq_error {α : Type} {x : Except DispatchError α} {e : Failure BuildError} :
    liftDispatch x = .error e ↔ ∃ d, x = .error d ∧ e = .error (ofDispatchError d) := by
  cases x <;> simp [liftDispatch, buildError, eq_comm]

include several in
theorem buildTables_several_error {e : Failure BuildError}
    (failed : buildTables host inputs = .error e) :
    ∃ d, e = .error (ofDispatchError d) ∧ Reports inputs (collectedOps host inputs) d := by
  simp only [buildTables, if_pos several] at failed
  split at failed
  -- a handler is registered for an operation that no service has
  next name found =>
    cases failed
    refine ⟨.unknownOperation name, rfl,
      .unknown (host.iter.mem_keys.mp (List.mem_of_find?_eq_some found)) ?_⟩
    rintro op member rfl
    obtain ⟨serviceName, service, known, member⟩ := (mem_collectedOps several).mp member
    have absent := List.find?_some found
    simp only [decide_eq_true_eq] at absent
    exact absent (mem_allOps.mpr ⟨serviceName, service, known, op, member, rfl⟩)
  next =>
    rcases bind_eq_error.mp failed with failed | ⟨_, _, failed⟩
    · obtain ⟨done, serviceName, rest, mid, split, _, failed⟩ := foldlM_eq_error failed
      have visited : serviceName ∈ host.iter.keys .services inputs.resolved.definition.services := by
        rw [split]
        simp
      obtain ⟨service, known⟩ := Option.isSome_iff_exists.mp (host.iter.mem_keys.mp visited)
      simp only [addService, known] at failed
      rcases bind_eq_error.mp failed with failed | ⟨_, _, failed⟩
      · obtain ⟨d, refused, rfl⟩ := liftDispatch_eq_error.mp failed
        exact ⟨d, rfl, reports_of_own several known (buildDispatchTableFromOps_error refused)⟩
      · cases failed
    · cases failed

/-- The tables can be built exactly if every operation has a handler, every handler an
operation and every input type a definition; an error is true of the operation it names. -/
theorem start_up_exact (host : Host) (inputs : TableInputs H) :
    ((∃ tables, buildTables host inputs = .ok tables) ↔ StartsUp inputs (collectedOps host inputs)) ∧
      ∀ e, buildTables host inputs = .error e →
        ∃ d, e = .error (ofDispatchError d) ∧ Reports inputs (collectedOps host inputs) d := by
  -- with several services there is a table for each, with one there is one for all
  have ok {tables : Tables H} (built : buildTables host inputs = .ok tables) :
      StartsUp inputs (collectedOps host inputs) := by
    by_cases several : (host.iter.keys .services inputs.resolved.definition.services).length > 1
    · exact buildTables_several_ok several built
    · simp only [buildTables, if_neg several] at built
      obtain ⟨table, made, _⟩ := bind_eq_ok.mp built
      simp only [collectedOps, if_neg several]
      exact buildDispatchTableFromOps_ok (liftDispatch_eq_ok.mp made)
  have error {e : Failure BuildError} (failed : buildTables host inputs = .error e) :
      ∃ d, e = .error (ofDispatchError d) ∧ Reports inputs (collectedOps host inputs) d := by
    by_cases several : (host.iter.keys .services inputs.resolved.definition.services).length > 1
    · exact buildTables_several_error several failed
    · simp only [buildTables, if_neg several] at failed
      simp only [collectedOps, if_neg several]
      rcases bind_eq_error.mp failed with failed | ⟨_, _, failed⟩
      · obtain ⟨d, refused, rfl⟩ := liftDispatch_eq_error.mp failed
        exact ⟨d, rfl, buildDispatchTableFromOps_error refused⟩
      · cases failed
  refine ⟨⟨?_, fun starts => ?_⟩, fun _ => error⟩
  · rintro ⟨_, built⟩
    exact ok built
  cases run : buildTables host inputs with
  | ok tables => exact ⟨tables, rfl⟩
  | error e =>
    obtain ⟨_, _, reports⟩ := error run
    exact absurd starts reports.not_startsUp

end Server

end SoapServer
