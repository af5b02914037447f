import SoapServer.Server.StartUp
import SoapServer.Wsdl.Imports
import SoapServer.Wsdl.OwnTypes

/-! Which WSDLs the check of input types turns away: whether the type of an input element, as it
is recorded, has an entry in the registry.
-/

set_option autoImplicit false

namespace SoapServer

open Markup (Text)
open Maps Loops
open Xsd Wsdl

namespace Dispatch

variable {H : Type} {inputs : TableInputs H} {ops : List CollectedOp} {op : CollectedOp}

/-! The error of one operation. -/

/-- An operation that has a handler, and a definition of its input type, has an entry. -/
theorem exists_dispatchEntry (handled : Handled inputs op) (typed : InputTyped inputs op) :
    ∃ entry, dispatchEntry inputs op = .ok entry := by
  cases made : dispatchEntry inputs op with
  | ok entry => exact ⟨entry, rfl⟩
  | error e =>
    rcases dispatchEntry_fails made with ⟨unhandled, _⟩ | ⟨_, element, t, ⟨document, input, known, missing⟩, _⟩
    · exact absurd handled unhandled
    · have found := typed document element t input known
      rw [missing] at found
      cases found

/-- The operations before this one have their entries, and it has a handler: its input type is
what is checked next. -/
def CheckedNext (inputs : TableInputs H) (ops : List CollectedOp) (op : CollectedOp) : Prop :=
  ∃ before after, ops = before ++ op :: after ∧ (∀ other ∈ before, Handled inputs other ∧ InputTyped inputs other) ∧
    Handled inputs op

theorem dispatchEntry_of_unresolvable (handled : Handled inputs op) {e t : QName}
    (unresolvable : Unresolvable inputs op e t) :
    dispatchEntry inputs op = .error (.unresolvableInputType op.name e.toText t.toText) := by
  obtain ⟨document, input, known, missing⟩ := unresolvable
  obtain ⟨handler, registered⟩ : ∃ handler, (inputs.handlers.lookup op.name).or inputs.defaultHandler = some handler := by
    rw [← Option.isSome_iff_exists, Option.isSome_or]
    simpa [Handled] using handled
  simp only [dispatchEntry, registered, inputTypes, document, input, validationType, known, missing,
    Option.isSome_none, Bool.false_eq_true, if_false]
  rfl

theorem mem_split_unique {ops : List CollectedOp} {before after : List CollectedOp}
    {other : CollectedOp} (unique : ∀ a ∈ ops, ∀ b ∈ ops, a.name = b.name → a = b)
    (split : ops = before ++ other :: after) (member : op ∈ ops) (named : other.name = op.name) :
    other = op :=
  unique other (by rw [split]; simp) op member named

/-- The error of an operation's input type is returned exactly when the check reaches it. -/
theorem unresolvable_error_iff (unique : ∀ a ∈ ops, ∀ b ∈ ops, a.name = b.name → a = b)
    (member : op ∈ ops) {element t : Text} :
    buildDispatchTableFromOps inputs ops = .error (.unresolvableInputType op.name element t) ↔
      CheckedNext inputs ops op ∧ ∃ e q, Unresolvable inputs op e q ∧ e.toText = element ∧ q.toText = t := by
  constructor
  · intro failed
    rcases bind_eq_error.mp failed with failed | ⟨_, _, failed⟩
    · obtain ⟨before, other, after, mid, split, filled, failed⟩ := foldlM_eq_error failed
      rcases bind_eq_error.mp failed with failed | ⟨_, _, failed⟩
      · rcases dispatchEntry_fails failed with ⟨_, wrong⟩ | ⟨handled, e, q, unresolvable, same⟩
        · cases wrong
        · obtain ⟨named, rfl, rfl⟩ := DispatchError.unresolvableInputType.inj same
          obtain rfl := mem_split_unique unique split member named.symm
          refine ⟨⟨before, after, split, fun earlier among => ?_, handled⟩, e, q, unresolvable, rfl,
            rfl⟩
          obtain ⟨entry, made⟩ := (foldlM_prefix_invariant (Indexed inputs) (fun done op _ _ indexed added =>
            indexed.addOp added) ⟨by simp, by simp, by simp⟩ filled).made earlier among
          exact dispatchEntry_ok made
      · cases failed
    · split at failed <;> cases failed
  · rintro ⟨⟨before, after, split, starts, handled⟩, e, q, unresolvable, rfl, rfl⟩
    have fills (table : DispatchTable H) : ∃ filled, before.foldlM (addOp inputs) table = .ok filled := by
      clear split
      induction before generalizing table with
      | nil => exact ⟨table, rfl⟩
      | cons first rest ih =>
        obtain ⟨entry, made⟩ := exists_dispatchEntry (starts first (.head _)).1 (starts first (.head _)).2
        obtain ⟨filled, run⟩ := ih (fun other among => starts other (.tail _ among)) (table.index first.soapAction entry)
        exact ⟨filled, foldlM_cons_eq_ok.mpr ⟨_, bind_eq_ok.mpr ⟨entry, made, rfl⟩, run⟩⟩
    obtain ⟨filled, run⟩ := fills ⟨∅, ∅, inputs.defaultHandler⟩
    have stops : addOp inputs filled op = .error (.unresolvableInputType op.name e.toText q.toText) := by
      rw [addOp, dispatchEntry_of_unresolvable handled unresolvable]
      rfl
    rw [buildDispatchTableFromOps, split, List.foldlM_append, run]
    simp only [bind, Except.bind, List.foldlM_cons, stops]

/-! Which types are turned away. -/

/-- The built-in types of XML Schema. -/
def builtInNames : List Text :=
  ["anyType", "anySimpleType", "anyAtomicType", "string", "boolean", "decimal", "float", "double", "duration", "dateTime",
    "time", "date", "gYearMonth", "gYear", "gMonthDay", "gDay", "gMonth", "hexBinary", "base64Binary", "anyURI", "QName",
    "NOTATION", "normalizedString", "token", "language", "NMTOKEN", "NMTOKENS", "Name", "NCName", "ID", "IDREF",
    "IDREFS", "ENTITY", "ENTITIES", "integer", "nonPositiveInteger", "negativeInteger", "long", "int", "short", "byte",
    "nonNegativeInteger", "unsignedLong", "unsignedInt", "unsignedShort", "unsignedByte", "positiveInteger",
    "yearMonthDuration", "dayTimeDuration", "dateTimeStamp"].map (·.toList)

def BuiltIn (t : QName) : Prop := t.namespaceUri = some xsNs ∧ t.localName ∈ builtInNames

instance (t : QName) : Decidable (BuiltIn t) := by unfold BuiltIn; infer_instance

/-- The declaration names a type that no reachable schema declares and that is not built in. -/
def NamesUnknownType (src : Sources) (bytes : Text) (el : XsdElement) : Prop :=
  el.inlineType = none ∧ ∃ t, el.typeRef = some t ∧ ¬ BuiltIn t ∧
    ∀ raw, ReachableSchema src bytes raw → raw.types.lookup t = none

/-- The start-up gives up over the operation's input type only where its element names an
unknown type. -/
def TurnedAwayRightly (src : Sources) (bytes : Text) (loaded : LoadedWsdl) (inputs : TableInputs H)
    (serviceName : Option Text) (op : CollectedOp) : Prop :=
  ∀ element t, tableOf inputs serviceName = .error (.unresolvableInputType op.name element t) →
    ∃ e el, resolveInputElement inputs.iter inputs.resolved.definition op.name = some e ∧ e.toText = element ∧
      firstTyping src loaded e = some el ∧ NamesUnknownType src bytes el

/-- A type that the declaration holds, or a built-in type that it names, has an entry. -/
def TypeHasEntry (blocks : List (List RawSchema)) (e : QName) (el : XsdElement) : Prop :=
  ∀ t, typeName e el = some t → el.inlineType.isSome ∨ BuiltIn t → HasEntry blocks t

theorem tableOf_eq_error {serviceName : Option Text} {e : DispatchError} :
    tableOf inputs serviceName = .error e ↔ buildDispatchTableFromOps inputs
      (collectOpsForService inputs.iter serviceName inputs.resolved.definition) = .error e := by
  rw [tableOf_eq]

/-- The operations of a table have distinct names. -/
theorem collected_unique {iter : MapOrder} {definition : WsdlDefinition}
    (serviceName : Option Text) :
    ∀ a ∈ collectOpsForService iter serviceName definition, ∀ b ∈ collectOpsForService iter serviceName definition,
      a.name = b.name → a = b := by
  intro a first b second named
  have foundA := (mem_uniqueOps.mp first).2
  have foundB := (mem_uniqueOps.mp second).2
  rw [named] at foundA
  exact Option.some.inj (foundA.symm.trans foundB)

def stringSchema : DomNode :=
  schemaNode "schema" [attr "targetNamespace" "urn:a"]
    [schemaNode "element" [attr "name" "Order", attr "type" "xs:string"] []]

def stringWsdl : DomNode :=
  definitionsNode
    [wsdlNode "types" [] [stringSchema], messageNode "M" "a:Order", portTypeNode "P" "Put" "a:M",
      bindingNode "B" "a:P" "Put"]

def stringSources : Sources := .ofDocuments [stringWsdl, stringSchema] []

def putOp : CollectedOp := ⟨"Put".toList, [], .document, none⟩

theorem stringWsdl_resolved : ∃ resolved visited loaded,
    resolveWsdl stringSources (nodeToString stringWsdl) [] = .ok (resolved, visited) ∧
      Loads stringSources (nodeToString stringWsdl) [] loaded ∧
      putOp ∈ collectOpsForService .stored none resolved.definition ∧
      (∃ blocks, schemaBlocks stringSources [] loaded.schemas = some blocks) ∧
      resolveInputElement .stored resolved.definition "Put".toList = some (.new "urn:a".toList "Order".toList) ∧
      (firstTyping stringSources loaded (.new "urn:a".toList "Order".toList)).map (·.typeRef) =
        some (some (.new xsNs "string".toList)) ∧
      (tableOf (plainInputs resolved) none).map (fun _ => ()) = .error (.unresolvableInputType "Put".toList
        "{urn:a}Order".toList "{http://www.w3.org/2001/XMLSchema}string".toList) := by
  have evaluated : ∃ resolved, resolveWsdl stringSources (nodeToString stringWsdl) [] = .ok resolved ∧
      ∃ loaded, loadDocuments stringSources stringSources.fuel [] (nodeToString stringWsdl) = some loaded ∧
      putOp ∈ collectOpsForService .stored none resolved.1.definition ∧
      (∃ blocks, schemaBlocks stringSources [] loaded.schemas = some blocks ∧ True) ∧
      resolveInputElement .stored resolved.1.definition "Put".toList = some (.new "urn:a".toList "Order".toList) ∧
      (firstTyping stringSources loaded (.new "urn:a".toList "Order".toList)).map (·.typeRef) =
        some (some (.new xsNs "string".toList)) ∧
      (tableOf (plainInputs resolved.1) none).map (fun _ => ()) = .error (.unresolvableInputType "Put".toList
        "{urn:a}Order".toList "{http://www.w3.org/2001/XMLSchema}string".toList) := by decide +kernel
  obtain ⟨resolved, run, loaded, loads, member, ⟨blocks, blocksOf, _⟩, input, typed, failed⟩ := evaluated
  exact ⟨resolved.1, resolved.2, loaded, run, loads, member, ⟨blocks, blocksOf⟩, input, typed,
    failed⟩

end Dispatch

end SoapServer
