import Mathlib.Data.Fintype.EquivFin
import SoapServer.Dispatch.Isolation

/-! Which operations a table routes to. Its entries are indexed one after the other, so that an
operation whose key a later one has, or whose action only a further binding gives, is out of reach.
-/

set_option autoImplicit false

namespace SoapServer.Dispatch

open Markup (Text)
open Maps Loops
open Wsdl

variable {H : Type} {inputs : TableInputs H}

/-- The QName that requests of an operation are routed by. -/
def dispatchQName (inputs : TableInputs H) (op : CollectedOp) : Option QName :=
  match op.style with
  | .rpc => some (.new (op.rpcNs.getD inputs.resolved.definition.targetNamespace) op.name)
  | .document => resolveInputElement inputs.iter inputs.resolved.definition op.name

/-- The operations that the ports of the served services offer. -/
def offeredOps (inputs : TableInputs H) (serviceName : Option Text) : List CollectedOp :=
  (servicesNamed inputs.iter serviceName inputs.resolved.definition).flatMap (serviceOps inputs.resolved.definition)

/-- The table of one service, or of all. -/
def tableOf (inputs : TableInputs H) : Option Text → Except DispatchError (DispatchTable H)
  | some serviceName => buildDispatchTableForService inputs serviceName
  | none => buildDispatchTable inputs

/-- The entry of an operation name, made from the first operation that has it. -/
def FirstEntry (inputs : TableInputs H) (offered : List CollectedOp) (name : Text)
    (entry : DispatchEntry H) : Prop :=
  ∃ op, offered.find? (·.name = name) = some op ∧ dispatchEntry inputs op = .ok entry

/-- Two operations have a key in common. -/
def Collide (inputs : TableInputs H) (op other : CollectedOp) : Prop :=
  (∃ q, dispatchQName inputs op = some q ∧ dispatchQName inputs other = some q) ∨
    op.soapAction ≠ [] ∧ op.soapAction = other.soapAction

/-- Every operation is reached by its element, and by its action where no element leads
elsewhere; different operations do not collide. -/
structure Unshadowed (inputs : TableInputs H) (offered : List CollectedOp)
    (table : DispatchTable H) : Prop where
  byElement : ∀ op ∈ offered, ∀ q, dispatchQName inputs op = some q →
    ∃ entry, route table q none = .ok entry ∧ FirstEntry inputs offered op.name entry
  byAction : ∀ op ∈ offered, op.soapAction ≠ [] → ∀ q, table.byElement.lookup q = none →
    ∃ entry, route table q (some op.soapAction) = .ok entry ∧ FirstEntry inputs offered op.name entry
  apart : ∀ op ∈ offered, ∀ other ∈ offered, Collide inputs op other → op.name = other.name

/-- No key belongs to operations of different names, and a name has in all bindings the keys
that it has in the first. -/
structure OwnKeys (inputs : TableInputs H) (offered : List CollectedOp) : Prop where
  apart : ∀ op ∈ offered, ∀ other ∈ offered, Collide inputs op other → op.name = other.name
  element : ∀ op ∈ offered, ∀ first, offered.find? (·.name = op.name) = some first → ∀ q,
    dispatchQName inputs op = some q → dispatchQName inputs first = some q
  action : ∀ op ∈ offered, ∀ first, offered.find? (·.name = op.name) = some first →
    op.soapAction ≠ [] → first.soapAction = op.soapAction

/-! Collecting. -/

/-- The first operation of each name is kept. -/
theorem mem_uniqueOps {seen : List Text} {ops : List CollectedOp} {op : CollectedOp} :
    op ∈ uniqueOps seen ops ↔ op.name ∉ seen ∧ ops.find? (·.name = op.name) = some op := by
  induction ops generalizing seen with
  | nil => simp [uniqueOps]
  | cons first rest ih =>
    by_cases known : first.name ∈ seen
    · rw [uniqueOps, if_pos known, ih, List.find?_cons]
      refine and_congr_right fun fresh => ?_
      have other : first.name ≠ op.name := fun same => fresh (same ▸ known)
      simp [other]
    · rw [uniqueOps, if_neg known, List.mem_cons, ih, List.find?_cons]
      by_cases same : first.name = op.name
      · simp only [same, decide_true, List.mem_cons, true_or, not_true_eq_false, false_and,
          or_false, Option.some.injEq]
        exact ⟨fun here => ⟨here ▸ same ▸ known, here.symm⟩, fun ⟨_, here⟩ => here.symm⟩
      · have other : op ≠ first := fun here => same (congrArg CollectedOp.name here).symm
        simp [same, other, Ne.symm same]

/-- Where some port offers an operation the bindings are not asked. -/
theorem collectAllOps_offered {serviceName : Option Text}
    (offers : offeredOps inputs serviceName ≠ []) :
    collectAllOps inputs.iter serviceName inputs.resolved.definition = offeredOps inputs serviceName :=
  if_neg fun none => offers none.1

theorem tableOf_eq (serviceName : Option Text) :
    tableOf inputs serviceName = buildDispatchTableFromOps inputs
    (collectOpsForService inputs.iter serviceName inputs.resolved.definition) := by
  cases serviceName <;> rfl

/-! Filling a table. -/

theorem dispatchEntry_inputType {op : CollectedOp} {entry : DispatchEntry H}
    (made : dispatchEntry inputs op = .ok entry) : entry.inputType = dispatchQName inputs op := by
  obtain ⟨_, types, _⟩ := dispatchEntry_eq_ok.mp made
  unfold dispatchQName
  cases style : op.style with
  | rpc =>
    simp only [inputTypes, style] at types
    exact (congrArg Prod.fst (Except.ok.inj types)).symm
  | document => exact ((inputTypes_document_eq_ok style).mp types).1

/-- Every operation has an entry, and its keys are indexed. -/
structure Indexed (inputs : TableInputs H) (ops : List CollectedOp) (table : DispatchTable H) :
    Prop where
  made : ∀ op ∈ ops, ∃ entry, dispatchEntry inputs op = .ok entry
  byElement : ∀ op ∈ ops, ∀ q, dispatchQName inputs op = some q → (table.byElement.lookup q).isSome
  byAction : ∀ op ∈ ops, op.soapAction ≠ [] → (table.byAction.lookup op.soapAction).isSome

theorem isSome_lookup_insert {K V : Type} [DecidableEq K] {m : HashMap K V} {k k' : K} {v : V}
    (known : k' = k ∨ (m.lookup k').isSome) : ((m.insert k v).lookup k').isSome := by
  by_cases here : k' = k
  · rw [here, AList.lookup_insert]
    rfl
  · rw [AList.lookup_insert_ne here]
    exact known.resolve_left here

theorem Indexed.addOp {done : List CollectedOp} {op : CollectedOp} {table grown : DispatchTable H}
    (indexed : Indexed inputs done table) (added : addOp inputs table op = .ok grown) :
    Indexed inputs (done ++ [op]) grown := by
  obtain ⟨entry, made, rfl⟩ := addOp_eq_ok.mp added
  have input := dispatchEntry_inputType made
  have split {other : CollectedOp} (among : other ∈ done ++ [op]) : other ∈ done ∨ other = op :=
    by simpa using among
  refine ⟨fun other among => ?_, fun other among q keyed => ?_, fun other among spoken => ?_⟩
  · rcases split among with before | rfl
    · exact indexed.made other before
    · exact ⟨entry, made⟩
  · -- a key has an entry already, or it is the one that is written now
    have known : dispatchQName inputs op = some q ∨ (table.byElement.lookup q).isSome := by
      rcases split among with before | rfl
      · exact .inr (indexed.byElement other before q keyed)
      · exact .inl keyed
    cases key : dispatchQName inputs op with
    | none =>
      simp only [DispatchTable.index, input, key]
      exact known.resolve_left (by simp [key])
    | some qn =>
      simp only [DispatchTable.index, input, key]
      refine isSome_lookup_insert (known.imp_left fun same => ?_)
      rw [key] at same
      exact (Option.some.inj same).symm
  · have known : other.soapAction = op.soapAction ∨ (table.byAction.lookup other.soapAction).isSome := by
      rcases split among with before | rfl
      · exact .inr (indexed.byAction other before spoken)
      · exact .inl rfl
    by_cases silent : op.soapAction = []
    · simp only [DispatchTable.index, silent, if_true]
      exact known.resolve_left fun same => spoken (same.trans silent)
    · simp only [DispatchTable.index, silent, if_false]
      exact isSome_lookup_insert known

theorem buildDispatchTableFromOps_indexed {ops : List CollectedOp} {table : DispatchTable H}
    (built : buildDispatchTableFromOps inputs ops = .ok table) : Indexed inputs ops table :=
  foldlM_prefix_invariant (Indexed inputs) (fun done op _ _ indexed added => indexed.addOp added)
    ⟨by simp, by simp, by simp⟩ (built_foldlM built)

/-! Routing in a built table. -/

variable {serviceName : Option Text} {table : DispatchTable H}

theorem exists_unindexed {V : Type} (m : HashMap QName V) : ∃ q, m.lookup q = none := by
  have : Infinite QName := Infinite.of_injective QName.local fun _ _ same => (QName.mk.inj same).2
  obtain ⟨q, absent⟩ := Infinite.exists_notMem_finset m.keys.toFinset
  exact ⟨q, AList.lookup_eq_none.mpr fun member => absent (List.mem_toFinset.mpr member)⟩

theorem route_none {q : QName} {entry : DispatchEntry H} :
    route table q none = .ok entry ↔ table.byElement.lookup q = some entry := by
  unfold route
  cases known : table.byElement.lookup q <;> simp

theorem route_action {q : QName} {action : Text} {entry : DispatchEntry H}
    (unindexed : table.byElement.lookup q = none) :
    route table q (some action) = .ok entry ↔ table.byAction.lookup action = some entry := by
  unfold route
  rw [unindexed, Option.none_or, Option.bind_some]
  cases known : table.byAction.lookup action <;> simp

/-- The operations of a table are the first of each name, where some port offers one. -/
theorem mem_collected {op other : CollectedOp} (offered : other ∈ offeredOps inputs serviceName) :
    op ∈ collectOpsForService inputs.iter serviceName inputs.resolved.definition ↔
      (offeredOps inputs serviceName).find? (·.name = op.name) = some op := by
  rw [collectOpsForService, collectAllOps_offered (List.ne_nil_of_mem offered), mem_uniqueOps]
  simp

theorem exists_first {ops : List CollectedOp} {op : CollectedOp} (member : op ∈ ops) :
    ∃ first ∈ ops, first.name = op.name ∧ ops.find? (·.name = op.name) = some first := by
  have named : (ops.find? (·.name = op.name)).isSome := by simpa using ⟨op, member, rfl⟩
  obtain ⟨first, found⟩ := Option.isSome_iff_exists.mp named
  exact ⟨first, List.mem_of_find?_eq_some found, by simpa using List.find?_some found, found⟩

/-- An entry under an element belongs to the first operation of some name with that element. -/
theorem lookup_byElement (built : tableOf inputs serviceName = .ok table) {op : CollectedOp}
    (offered : op ∈ offeredOps inputs serviceName) {q : QName} {entry : DispatchEntry H}
    (known : table.byElement.lookup q = some entry) :
    ∃ src ∈ offeredOps inputs serviceName, (offeredOps inputs serviceName).find? (·.name = src.name) = some src ∧
      dispatchEntry inputs src = .ok entry ∧ dispatchQName inputs src = some q := by
  rw [tableOf_eq] at built
  obtain ⟨src, member, made, input⟩ := (buildDispatchTableFromOps_sourced built).byElement known
  have found := (mem_collected offered).mp member
  exact ⟨src, List.mem_of_find?_eq_some found, found, made, dispatchEntry_inputType made ▸ input⟩

theorem lookup_byAction (built : tableOf inputs serviceName = .ok table) {op : CollectedOp}
    (offered : op ∈ offeredOps inputs serviceName) {action : Text} {entry : DispatchEntry H}
    (known : table.byAction.lookup action = some entry) :
    ∃ src ∈ offeredOps inputs serviceName, (offeredOps inputs serviceName).find? (·.name = src.name) = some src ∧
      dispatchEntry inputs src = .ok entry ∧ src.soapAction = action ∧ action ≠ [] := by
  rw [tableOf_eq] at built
  obtain ⟨src, member, made, same, spoken⟩ :=
    (buildDispatchTableFromOps_sourced built).byAction known
  have found := (mem_collected offered).mp member
  exact ⟨src, List.mem_of_find?_eq_some found, found, made, same, spoken⟩

theorem Unshadowed.ownKeys (built : tableOf inputs serviceName = .ok table)
    (unshadowed : Unshadowed inputs (offeredOps inputs serviceName) table) :
    OwnKeys inputs (offeredOps inputs serviceName) where
  apart := unshadowed.apart
  element op offered first found q keyed := by
    obtain ⟨entry, routed, _⟩ := unshadowed.byElement op offered q keyed
    obtain ⟨src, member, isFirst, _, srcKeyed⟩ :=
      lookup_byElement built offered (route_none.mp routed)
    have same := unshadowed.apart op offered src member (.inl ⟨q, keyed, srcKeyed⟩)
    rw [same, isFirst] at found
    exact Option.some.inj found ▸ srcKeyed
  action op offered first found spoken := by
    obtain ⟨q, unindexed⟩ := exists_unindexed table.byElement
    obtain ⟨entry, routed, _⟩ := unshadowed.byAction op offered spoken q unindexed
    obtain ⟨src, member, isFirst, _, srcSpoken, _⟩ :=
      lookup_byAction built offered ((route_action unindexed).mp routed)
    have same := unshadowed.apart op offered src member (.inr ⟨spoken, srcSpoken.symm⟩)
    rw [same, isFirst] at found
    exact Option.some.inj found ▸ srcSpoken

theorem OwnKeys.unshadowed (built : tableOf inputs serviceName = .ok table)
    (own : OwnKeys inputs (offeredOps inputs serviceName)) :
    Unshadowed inputs (offeredOps inputs serviceName) table := by
  have indexed := buildDispatchTableFromOps_indexed (tableOf_eq serviceName ▸ built)
  refine ⟨fun op offered q keyed => ?_, fun op offered spoken q unindexed => ?_, own.apart⟩
  · obtain ⟨first, member, named, found⟩ := exists_first offered
    have keyed := own.element op offered first found q keyed
    obtain ⟨entry, known⟩ := Option.isSome_iff_exists.mp
      (indexed.byElement first ((mem_collected offered).mpr (named ▸ found)) q keyed)
    obtain ⟨src, srcMember, isFirst, made, srcKeyed⟩ := lookup_byElement built offered known
    have same := own.apart src srcMember first member (.inl ⟨q, srcKeyed, keyed⟩)
    rw [same, named, found] at isFirst
    exact ⟨entry, route_none.mpr known, first, found, Option.some.inj isFirst ▸ made⟩
  · obtain ⟨first, member, named, found⟩ := exists_first offered
    have action := own.action op offered first found spoken
    obtain ⟨entry, known⟩ := Option.isSome_iff_exists.mp
      (indexed.byAction first ((mem_collected offered).mpr (named ▸ found)) (action ▸ spoken))
    rw [action] at known
    obtain ⟨src, srcMember, isFirst, made, srcSpoken, _⟩ := lookup_byAction built offered known
    have same := own.apart src srcMember first member (.inr ⟨srcSpoken ▸ spoken, srcSpoken.trans action.symm⟩)
    rw [same, named, found] at isFirst
    exact ⟨entry, (route_action unindexed).mpr known, first, found, Option.some.inj isFirst ▸ made⟩

/-- A built table shadows no operation exactly if every name has its keys to itself, the same
ones in all bindings. -/
theorem unshadowed_iff (built : tableOf inputs serviceName = .ok table) :
    Unshadowed inputs (offeredOps inputs serviceName) table ↔ OwnKeys inputs (offeredOps inputs serviceName) :=
  ⟨fun unshadowed => unshadowed.ownKeys built, fun own => own.unshadowed built⟩

/-! Two operations with one message, the first of them bound twice. -/

def lockQName : QName := .new "urn:a".toList "Request".toList

def lockOperation (name : String) : Operation :=
  ⟨name.toList, some ⟨none, .local "M".toList⟩, none, [], .requestResponse⟩

def lockBinding (name : String) (soapVersion : SoapVersion)
    (operations : List (String × String)) : Binding :=
  ⟨name.toList, .local "P".toList, ⟨.document, [], soapVersion⟩,
    operations.map fun op => ⟨op.1.toList, op.2.toList, .initial, .initial⟩⟩

def lockWsdl (operations : List (String × String)) : ResolvedWsdl where
  definition :=
    { targetNamespace := "urn:a".toList, imports := [], schemas := []
      messages := AList.singleton "M".toList ⟨"M".toList, [⟨"body".toList, some lockQName, none⟩]⟩
      portTypes := AList.singleton "P".toList ⟨"P".toList, [lockOperation "Lock", lockOperation "Unlock"]⟩
      bindings :=
        (AList.singleton "B11".toList (lockBinding "B11" .soap11 operations)).insert "B12".toList
          (lockBinding "B12" .soap12 [("Lock", "urn:Lock12")])
      services := AList.singleton "S".toList ⟨"S".toList,
        [⟨"p11".toList, .local "B11".toList, []⟩, ⟨"p12".toList, .local "B12".toList, []⟩]⟩ }
  typeRegistry := ∅
  elementTypeMap := ∅
  rawBytes := []

/-- The handlers answer with their own names. -/
def lockInputs (operations : List (String × String)) : TableInputs Text where
  iter := .stored
  resolved := lockWsdl operations
  handlers := operations.foldl (fun handlers op => handlers.insert op.1.toList op.1.toList) ∅
  authBypass := []
  defaultHandler := none

def lockOp : CollectedOp := ⟨"Lock".toList, "urn:Lock".toList, .document, none⟩

def lockOp12 : CollectedOp := ⟨"Lock".toList, "urn:Lock12".toList, .document, none⟩

def bothLocks : TableInputs Text := lockInputs [("Lock", "urn:Lock"), ("Unlock", "urn:Unlock")]

/-- A request to lock unlocks, and the action of the second binding leads nowhere. -/
theorem lock_unlocks : ∃ table entry, tableOf bothLocks none = .ok table ∧
    lockOp ∈ offeredOps bothLocks none ∧ dispatchQName bothLocks lockOp = some lockQName ∧
    bothLocks.handlers.lookup "Lock".toList = some "Lock".toList ∧
    route table lockQName none = .ok entry ∧ entry.handler = "Unlock".toList ∧
    lockOp12 ∈ offeredOps bothLocks none ∧ table.byElement.lookup (.local "Lock".toList) = none ∧
    route table (.local "Lock".toList) (some lockOp12.soapAction) =
      .error (.fault (.actionNotSupported "Lock".toList)) ∧
    ¬ Unshadowed bothLocks (offeredOps bothLocks none) table := by
  have built : ∃ table entry, tableOf bothLocks none = .ok table ∧ route table lockQName none = .ok entry ∧
      entry.handler = "Unlock".toList ∧ table.byElement.lookup (.local "Lock".toList) = none ∧
      route table (.local "Lock".toList) (some lockOp12.soapAction) =
        .error (.fault (.actionNotSupported "Lock".toList)) := ⟨_, _, rfl, rfl, rfl, rfl, rfl⟩
  obtain ⟨table, entry, built, routed, handler, unindexed, lost⟩ := built
  have offered : lockOp12 ∈ offeredOps bothLocks none := by decide
  refine ⟨table, entry, built, by decide, rfl, rfl, routed, handler, offered, unindexed, lost,
    fun unshadowed => ?_⟩
  obtain ⟨_, found, _⟩ := unshadowed.byAction lockOp12 offered (by decide) _ unindexed
  cases lost.symm.trans found

def oneLock : TableInputs Text := lockInputs [("Lock", "urn:Lock12")]

theorem oneLock_unshadowed_iff : ∃ table, tableOf oneLock (some "S".toList) = .ok table ∧
    (Unshadowed oneLock (offeredOps oneLock (some "S".toList)) table ↔
      OwnKeys oneLock (offeredOps oneLock (some "S".toList))) := by
  have built : ∃ table, tableOf oneLock (some "S".toList) = .ok table := ⟨_, rfl⟩
  exact built.imp fun table built => ⟨built, unshadowed_iff built⟩

end SoapServer.Dispatch
