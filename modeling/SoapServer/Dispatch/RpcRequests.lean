import SoapServer.Dispatch.Shadowing
import SoapServer.RootName
import SoapServer.Tree

/-! Whether a request for an RPC-style operation finds its entry. The key of the entry is made
from the WSDL, the key of the request from the root of its body; a wrapper without a namespace
has the empty namespace in the one and none in the other.
-/

set_option autoImplicit false

namespace SoapServer.Dispatch

open Markup (Text Element Tag Scope)
open Maps Loops
open Wsdl
open Envelope (boundNs)

variable {H : Type} {inputs : TableInputs H}

/-- The namespace of the wrapper element of an RPC call. -/
def wrapperNamespace (inputs : TableInputs H) (op : CollectedOp) : Text :=
  op.rpcNs.getD inputs.resolved.definition.targetNamespace

/-- An RPC-style operation whose wrapper no operation of another name has as its element. An
empty namespace is none. -/
structure OwnWrapper (inputs : TableInputs H) (offered : List CollectedOp) (op : CollectedOp) :
    Prop where
  rpc : op.style = .rpc
  apart : ∀ other ∈ offered, ∀ q, dispatchQName inputs other = some q → q.localName = op.name →
    q.namespaceUri.getD [] = wrapperNamespace inputs op → other.name = op.name

/-- Bytes that are read as one element, which by the rules of XML has this expanded name. Well-formed
elements repeat no attribute and have nothing the reader refuses. -/
structure RootNamed (ext : Externals) (deref : Text → Option Text) (body ns name : Text)
    (root : Element) : Prop where
  reads : ext.xml.Reads body root.alone
  unique : root.alone.AllTags Tag.Unique
  resolvable : root.alone.AllTags Tag.Resolvable
  named : ∃ e, Tree.elementOf deref [] root.tag = some e ∧ e.ns.getD [] = ns ∧ e.name = name

/-- The operation whose entry stands under a QName: the last one that is routed by it. -/
def indexedOp (inputs : TableInputs H) (ops : List CollectedOp) (q : QName) : Option CollectedOp :=
  ops.reverse.find? fun op => dispatchQName inputs op = some q

/-- Whatever its action, a request with this body is given the entry made for the operation
collected under the name. -/
def FindsEntry (ext : Externals) (inputs : TableInputs H) (ops : List CollectedOp)
    (table : DispatchTable H) (body name : Text) : Prop :=
  ∃ q op entry, extractBodyQname ext body = .ok q ∧ (∀ soapAction, route table q soapAction = .ok entry) ∧
    indexedOp inputs ops q = some op ∧ op.name = name ∧ dispatchEntry inputs op = .ok entry

/-- The namespace a root is read in: that of its prefix as the declaration spells it. -/
def rootNamespace (root : Element) : Text :=
  boundNs (Markup.resolveElement (Scope.initial.enter root.tag.attributes) root.tag.name)

/-- The operation is routed by the element that is read with this namespace and name. -/
def RoutedBy (inputs : TableInputs H) (op : CollectedOp) (ns name : Text) : Prop :=
  match op.style with
  | .rpc => ns ≠ [] ∧ wrapperNamespace inputs op = ns ∧ op.name = name
  | .document => resolveInputElement inputs.iter inputs.resolved.definition op.name =
      some (if ns = [] then .local name else .new ns name)

/-- No operation collected after this one is routed by the same name. -/
def NoneAfter (inputs : TableInputs H) (ops : List CollectedOp) (op : CollectedOp)
    (q : QName) : Prop :=
  ∃ before after, ops = before ++ op :: after ∧ ∀ other ∈ after, dispatchQName inputs other ≠ some q

/-! The key of a request. -/

/-- The key: no namespace where the root is read in none. -/
def requestKey (ns name : Text) : QName := if ns = [] then .local name else .new ns name

theorem extractBodyQname_root {ext : Externals} (lawful : ext.xml.Lawful)
    {deref : Text → Option Text} {body ns name : Text} {root : Element}
    (request : RootNamed ext deref body ns name root) :
    extractBodyQname ext body = .ok (requestKey (rootNamespace root) name) := by
  obtain ⟨e, run, _, rfl⟩ := request.named
  rw [← Tree.elementOf_localName run, extractBodyQname, lawful.resolvesTrimmed _ _ request.unique
    request.resolvable request.reads]
  rcases root with ⟨tag, _ | kids⟩ <;> rfl

theorem routedBy_iff {op : CollectedOp} {ns name : Text} :
    RoutedBy inputs op ns name ↔ dispatchQName inputs op = some (requestKey ns name) := by
  unfold RoutedBy dispatchQName requestKey
  cases op.style with
  | document => rfl
  | rpc =>
    by_cases none_ : ns = []
    · simp [none_, QName.new, QName.local]
    · simp [none_, QName.new, wrapperNamespace]

/-! The entry under a key. -/

theorem indexedOp_append (done : List CollectedOp) (op : CollectedOp) (q : QName) :
    indexedOp inputs (done ++ [op]) q =
      if dispatchQName inputs op = some q then some op else indexedOp inputs done q := by
  rw [indexedOp, List.reverse_append, List.reverse_singleton, List.singleton_append,
    List.find?_cons]
  by_cases keyed : dispatchQName inputs op = some q
  · simp [keyed]
  · simp [keyed, indexedOp]

theorem indexedOp_eq_some {ops : List CollectedOp} {op : CollectedOp} {q : QName} :
    indexedOp inputs ops q = some op ↔ dispatchQName inputs op = some q ∧ NoneAfter inputs ops op q := by
  rw [indexedOp, List.find?_eq_some_iff_append]
  simp only [decide_eq_true_eq, NoneAfter, Bool.not_eq_true', decide_eq_false_iff_not]
  refine and_congr_right fun _ => ⟨?_, ?_⟩
  · rintro ⟨after, before, split, later⟩
    refine ⟨before.reverse, after.reverse, ?_,
      fun other member => later other (List.mem_reverse.mp member)⟩
    rw [← List.reverse_reverse ops, split]
    simp
  · rintro ⟨before, after, rfl, later⟩
    exact ⟨after.reverse, before.reverse, by simp,
      fun other member => later other (List.mem_reverse.mp member)⟩

/-- The entry under each QName is the one made for the last operation routed by it. -/
def HoldsLast (inputs : TableInputs H) (ops : List CollectedOp) (table : DispatchTable H) : Prop :=
  ∀ q, table.byElement.lookup q = (indexedOp inputs ops q).bind fun op =>
    (dispatchEntry inputs op).toOption

theorem HoldsLast.addOp {done : List CollectedOp} {op : CollectedOp} {table grown : DispatchTable H}
    (holds : HoldsLast inputs done table) (added : addOp inputs table op = .ok grown) :
    HoldsLast inputs (done ++ [op]) grown := by
  obtain ⟨entry, made, rfl⟩ := addOp_eq_ok.mp added
  have input := dispatchEntry_inputType made
  intro q
  rw [indexedOp_append]
  cases key : dispatchQName inputs op with
  | none =>
    simp only [DispatchTable.index, input, key, reduceCtorEq, if_false]
    exact holds q
  | some qn =>
    simp only [DispatchTable.index, input, key, Option.some.injEq]
    by_cases here : qn = q
    · subst here
      rw [AList.lookup_insert, if_pos rfl, Option.bind_some, made]
      rfl
    · rw [AList.lookup_insert_ne (Ne.symm here), if_neg here]
      exact holds q

theorem buildDispatchTableFromOps_holdsLast {ops : List CollectedOp} {table : DispatchTable H}
    (built : buildDispatchTableFromOps inputs ops = .ok table) : HoldsLast inputs ops table :=
  foldlM_prefix_invariant (HoldsLast inputs) (fun done op _ _ holds added => holds.addOp added)
    (fun _ => by simp [indexedOp]) (built_foldlM built)

/-! Requests and entries. -/

variable {serviceName : Option Text} {table : DispatchTable H} {op : CollectedOp}

theorem mem_of_indexedOp {ops : List CollectedOp} {src : CollectedOp} {q : QName}
    (indexed : indexedOp inputs ops q = some src) : src ∈ ops :=
  List.mem_reverse.mp (List.mem_of_find?_eq_some indexed)

/-- A request finds the entry of the name that stands last under its key. -/
theorem findsEntry_iff {ext : Externals} {ops : List CollectedOp}
    (built : buildDispatchTableFromOps inputs ops = .ok table) {body name : Text} {q : QName}
    (extracted : extractBodyQname ext body = .ok q) :
    FindsEntry ext inputs ops table body name ↔ ∃ src, indexedOp inputs ops q = some src ∧ src.name = name := by
  constructor
  · rintro ⟨other, src, _, found, _, indexed, named, _⟩
    obtain rfl := Except.ok.inj (extracted.symm.trans found)
    exact ⟨src, indexed, named⟩
  · rintro ⟨src, indexed, named⟩
    obtain ⟨entry, made⟩ := (buildDispatchTableFromOps_indexed built).made src (mem_of_indexedOp indexed)
    have known : table.byElement.lookup q = some entry := by
      rw [buildDispatchTableFromOps_holdsLast built q, indexed, Option.bind_some, made]
      rfl
    refine ⟨q, src, entry, extracted, fun soapAction => ?_, indexed, named, made⟩
    unfold route
    rw [known, Option.some_or]

/-- An RPC request finds the entry of its operation exactly when the first operation of the
name is routed by the root as it is read, which no wrapper without a namespace is. -/
theorem rpc_request_finds_iff {ext : Externals} (lawful : ext.xml.Lawful)
    (built : tableOf inputs serviceName = .ok table) (offered : op ∈ offeredOps inputs serviceName)
    (own : OwnWrapper inputs (offeredOps inputs serviceName) op) {deref : Text → Option Text}
    {body : Text} {root : Element}
    (request : RootNamed ext deref body (wrapperNamespace inputs op) op.name root) :
    FindsEntry ext inputs (collectOpsForService inputs.iter serviceName inputs.resolved.definition) table body op.name ↔
      ∃ first, (offeredOps inputs serviceName).find? (·.name = op.name) = some first ∧
        RoutedBy inputs first (rootNamespace root) op.name ∧
        (rootNamespace root = wrapperNamespace inputs op ∨
          NoneAfter inputs (collectOpsForService inputs.iter serviceName inputs.resolved.definition) first
            (requestKey (rootNamespace root) op.name)) := by
  rw [tableOf_eq] at built
  rw [findsEntry_iff built (extractBodyQname_root lawful request)]
  constructor
  · rintro ⟨src, indexed, named⟩
    have first := (mem_collected offered).mp (mem_of_indexedOp indexed)
    obtain ⟨keyed, later⟩ := indexedOp_eq_some.mp indexed
    exact ⟨src, named ▸ first, routedBy_iff.mpr keyed, .inr later⟩
  · rintro ⟨first, found, routed, written | later⟩
    · -- no other name has the key, so that the last operation under it is this one
      have named : first.name = op.name := by simpa using List.find?_some found
      have keyed := routedBy_iff.mp routed
      have collected := (mem_collected offered).mpr (named.symm ▸ found)
      have indexed : (indexedOp inputs (collectOpsForService inputs.iter serviceName inputs.resolved.definition)
          (requestKey (rootNamespace root) op.name)).isSome := by
        rw [indexedOp, List.find?_isSome]
        exact ⟨first, List.mem_reverse.mpr collected, by simpa using keyed⟩
      obtain ⟨src, indexed⟩ := Option.isSome_iff_exists.mp indexed
      have among := List.mem_of_find?_eq_some ((mem_collected offered).mp (mem_of_indexedOp indexed))
      refine ⟨src, indexed, own.apart src among _ (indexedOp_eq_some.mp indexed).1 ?_ ?_⟩
      · rw [requestKey]
        split <;> rfl
      · rw [requestKey, written]
        split
        · next none_ => exact none_.symm
        · rfl
    · exact ⟨first, indexedOp_eq_some.mpr ⟨routedBy_iff.mp routed, later⟩,
        by simpa using List.find?_some found⟩

/-- Every request for an RPC-style operation with a wrapper of its own finds its entry. -/
def RpcRequestsFindEntries (ext : Externals) : Prop :=
  ∀ (inputs : TableInputs Unit) (serviceName : Option Text) (table : DispatchTable Unit) (op : CollectedOp)
    (deref : Text → Option Text) (body : Text) (root : Element), tableOf inputs serviceName = .ok table →
    op ∈ offeredOps inputs serviceName → OwnWrapper inputs (offeredOps inputs serviceName) op →
    RootNamed ext deref body (wrapperNamespace inputs op) op.name root →
    FindsEntry ext inputs (collectOpsForService inputs.iter serviceName inputs.resolved.definition) table body op.name

def pingOp (ns : Text) : CollectedOp := ⟨"Ping".toList, [], .rpc, some ns⟩

/-- A service with the one operation offers no other wrapper. -/
theorem pingOp_ownWrapper {ns : Text} {offered : List CollectedOp}
    (single : offered = [pingOp ns]) :
    OwnWrapper inputs offered (pingOp ns) := by
  refine ⟨rfl, fun other member _ _ _ _ => ?_⟩
  rw [single, List.mem_singleton] at member
  rw [member]

/-- `rpcWsdl` without a target namespace. -/
def namelessInputs : TableInputs Unit :=
  { rpcInputs with resolved := { rpcWsdl with definition := { rpcWsdl.definition with targetNamespace := [] } } }

def pingRoot (attributes : List Markup.Attribute) : Element := ⟨⟨"Ping".toList, attributes⟩, none⟩

theorem pingRoot_named :
    RootNamed .scanning (fun _ => none) "<Ping/>".toList [] "Ping".toList (pingRoot []) where
  reads := Markup.scanner_lawful.written_tag (c := (pingRoot []).alone) (by decide +kernel) rfl
  unique := by decide +kernel
  resolvable := by decide +kernel
  named := ⟨⟨none, "Ping".toList, [], []⟩, by decide +kernel, rfl, rfl⟩

/-- Without a target namespace the operation is out of reach. -/
theorem namelessPing_lost : ¬ RpcRequestsFindEntries .scanning := by
  intro finds
  have built : ∃ table, tableOf namelessInputs (some "S".toList) = .ok table ∧
      route table (.local "Ping".toList) none = .error (.fault (.actionNotSupported "Ping".toList)) := ⟨_, rfl, rfl⟩
  obtain ⟨table, built, lost⟩ := built
  have single : offeredOps namelessInputs (some "S".toList) = [pingOp []] := by decide +kernel
  have found := finds namelessInputs _ table (pingOp []) (fun _ => none) _ (pingRoot []) built
    (single ▸ .head _) (pingOp_ownWrapper single) pingRoot_named
  obtain ⟨q, _, entry, extracted, routed, _⟩ := found
  have key : extractBodyQname .scanning "<Ping/>".toList = .ok (.local "Ping".toList) := by decide +kernel
  obtain rfl := Except.ok.inj (key.symm.trans extracted)
  cases lost.symm.trans (routed none)

theorem rpcPing_found : ∃ table, tableOf rpcInputs (some "S".toList) = .ok table ∧
    FindsEntry .scanning rpcInputs (collectOpsForService .stored (some "S".toList) rpcWsdl.definition) table
      "<Ping xmlns=\"urn:a\"/>".toList "Ping".toList := by
  have built : ∃ table, tableOf rpcInputs (some "S".toList) = .ok table := ⟨_, rfl⟩
  obtain ⟨table, built⟩ := built
  have single : offeredOps rpcInputs (some "S".toList) = [pingOp "urn:a".toList] := by decide +kernel
  have request : RootNamed .scanning (fun _ => none) "<Ping xmlns=\"urn:a\"/>".toList "urn:a".toList "Ping".toList
      (pingRoot [⟨"xmlns".toList, "urn:a".toList⟩]) :=
    ⟨Markup.scanner_lawful.written_tag (c := (pingRoot [⟨"xmlns".toList, "urn:a".toList⟩]).alone) (by decide +kernel) rfl,
      by decide +kernel, by decide +kernel, ⟨some "urn:a".toList, "Ping".toList, [], [(none, "urn:a".toList)]⟩, by decide +kernel, rfl, rfl⟩
  have first : (offeredOps rpcInputs (some "S".toList)).find? (·.name = "Ping".toList) = some (pingOp "urn:a".toList) := by
    rw [single]
    rfl
  have namespace_ : rootNamespace (pingRoot [⟨"xmlns".toList, "urn:a".toList⟩]) = "urn:a".toList := by decide +kernel
  have routed : RoutedBy rpcInputs (pingOp "urn:a".toList) (rootNamespace (pingRoot [⟨"xmlns".toList, "urn:a".toList⟩]))
      "Ping".toList := by
    rw [namespace_]
    exact ⟨by decide, rfl, rfl⟩
  exact ⟨table, built, (rpc_request_finds_iff Externals.scanning_lawful built (single ▸ .head _)
    (pingOp_ownWrapper single) request).mpr ⟨_, first, routed, .inl namespace_⟩⟩

end SoapServer.Dispatch
