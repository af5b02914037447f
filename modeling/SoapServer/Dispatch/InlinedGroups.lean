import SoapServer.Dispatch.ElementReferences
import SoapServer.Xsd.GroupReferences

/-! References to groups in the check of a request: the elements of the group are missing
where the reference stands.
-/

set_option autoImplicit false

namespace SoapServer.Dispatch

open Markup (Text)
open Maps Loops
open Xsd

/-- The elements of a group stand in a type between those before and after the reference, and
the check of a request requires their names. -/
structure HasInlined (ct : ComplexType) (ancestors front elements back : List XsdElement) :
    Prop where
  position : extractElements ct.content = ancestors ++ (front ++ (elements ++ back))
  required : ∀ name ∈ requiredNames elements, name ∈ collectRequiredElementNames (.complex ct)

/-- A type has the elements of a group that it refers to exactly if there are none. -/
theorem group_reference_inlined_iff {iter : MapOrder} {parseXml : TreeParser}
    {loader : SchemaLoader} {fuel : Nat} {root : DomNode} {alreadyLoaded loaded : List Text}
    {documents : List DomNode} {registry : TypeRegistry}
    (gathered : gatherLoop parseXml loader fuel (alreadyLoaded, [parseSchema root]) =
      .ok (documents.map parseSchema, loaded))
    (run : resolveSchema iter parseXml loader fuel (parseSchema root) alreadyLoaded = .ok (registry, loaded))
    (acyclic : GroupsAcyclic documents) {typeName q : QName} {node groupNode : DomNode} {t : XsdType}
    (defines : (FlatTypeMap.ofDocuments (documents.map parseSchema)).Defines typeName (visitComplexType node))
    (found : registry.lookup typeName = some t) {before after : List XsdElement}
    (refers : TypeRefAt q node.children before after) (declared : groupDeclared documents q = some groupNode) :
    let flat := FlatTypeMap.ofDocuments (documents.map parseSchema)
    (flat.groups.lookup q).map (·.content.elements) = some (visitParticleChildren (groupBody groupNode)) ∧
      (∃ particles, Inlined documents (groupBody groupNode) particles) ∧
      ∃ ct ancestors front back, t = .complex ct ∧
        Contributes flat (visitComplexType node).content.bases ancestors ∧ Expands flat before front ∧
        Expands flat after back ∧
        ∀ particles elements, Inlined documents (groupBody groupNode) particles → Expands flat particles elements →
          (HasInlined ct ancestors front elements back ↔ elements = []) := by
  refine ⟨declared_group_elements declared, exists_inlined acyclic _, ?_⟩
  have resolved : resolveFlat iter (.ofDocuments (documents.map parseSchema)) = .ok registry := by
    simp only [resolveSchema, bind_eq_ok] at run
    obtain ⟨⟨flat, names⟩, collected, registry', flatRun, same⟩ := run
    cases same
    obtain ⟨documents', gathered', rfl⟩ := collectLoop_eq_ok collected
    cases gathered'.symm.trans gathered
    exact flatRun
  obtain ⟨ct, rfl, resolves⟩ := ((resolveFlat_lookup resolved typeName t).mp found).of_defines defines
  obtain ⟨ancestors, own, above, particles, split⟩ := resolves.content.contributes
  rw [visitComplexType, refers.particles, expands_append_iff] at particles
  obtain ⟨front, back, first, second, rfl⟩ := particles
  refine ⟨ct, ancestors, front, back, rfl, above, first, second,
    fun _ elements _ _ => ⟨fun inlined => ?_, ?_⟩⟩
  · have lengths := congrArg List.length (inlined.position.symm.trans split)
    simp only [List.length_append] at lengths
    exact List.eq_nil_of_length_eq_zero (by omega)
  · rintro rfl
    exact ⟨split, fun name member => by cases member⟩

/-! A sequence with a reference to a group of one element. -/

def itemGroup : DomNode :=
  xsNode "group" [("name", "g")] [xsNode "sequence" [] [xsNode "element" [("name", "a")] []]]

def groupedType : DomNode :=
  xsNode "complexType" [("name", "T")]
    [xsNode "sequence" [] [xsNode "group" [("ref", "t:g")] [], xsNode "element" [("name", "b")] []]]

def groupSchema : DomNode := xsNode "schema" [("targetNamespace", "urn:t")] [itemGroup, groupedType]

def namedElement (name : String) : XsdElement := visitElement (xsNode "element" [("name", name)] [])

theorem itemGroup_declared : groupDeclared [groupSchema] (inSample "g") = some itemGroup := rfl

theorem itemGroup_inlined : Inlined [groupSchema] (groupBody itemGroup) [namedElement "a"] :=
  .particle rfl .nil

theorem groupSchema_acyclic : GroupsAcyclic [groupSchema] := by
  intro q cycle
  obtain ⟨r, step, _⟩ := Relation.TransGen.head'_iff.mp cycle
  unfold Descent.Step groupRefsOf at step
  split at step
  next node declared =>
    obtain ⟨document, only, found⟩ := List.exists_of_findSome?_eq_some declared
    obtain rfl : document = groupSchema := List.mem_singleton.mp only
    have member : node ∈ [groupedType, itemGroup] := List.mem_of_find?_eq_some found
    rcases List.mem_pair.mp member with rfl | rfl
    · have isGroup := List.find?_some found
      simp only [declaresGroup, decide_eq_true_eq] at isGroup
      cases isGroup.1
    · cases step
  next => cases step

theorem groupedType_refers : TypeRefAt (inSample "g") groupedType.children [] [namedElement "b"] :=
  .plain (.within rfl rfl (.here rfl))

theorem groupSchema_resolves : ∃ registry t,
    resolveSchema .stored noTrees nullSchemaLoader 1 (parseSchema groupSchema) [] = .ok (registry, []) ∧
      registry.lookup (inSample "T") = some t ∧ collectRequiredElementNames t = ["b".toList] := by
  have evaluated : ∃ resolved,
      resolveSchema .stored noTrees nullSchemaLoader 1 (parseSchema groupSchema) [] = .ok resolved ∧
        ∃ t, resolved.1.lookup (inSample "T") = some t ∧
          resolved.2 = [] ∧ collectRequiredElementNames t = ["b".toList] := by decide +kernel
  obtain ⟨⟨registry, loaded⟩, run, t, found, rfl, required⟩ := evaluated
  exact ⟨registry, t, run, found, required⟩

/-- A request without the element of the group is valid. -/
theorem groupElement_missing : ∃ registry,
    gatherLoop noTrees nullSchemaLoader 1 ([], [parseSchema groupSchema]) = .ok ([groupSchema].map parseSchema, []) ∧
    resolveSchema .stored noTrees nullSchemaLoader 1 (parseSchema groupSchema) [] = .ok (registry, []) ∧
    GroupsAcyclic [groupSchema] ∧
    (parseSchema groupSchema).types.lookup (inSample "T") = some (.complex (visitComplexType groupedType)) ∧
    TypeRefAt (inSample "g") groupedType.children [] [namedElement "b"] ∧
    groupDeclared [groupSchema] (inSample "g") = some itemGroup ∧
    Inlined [groupSchema] (groupBody itemGroup) [namedElement "a"] ∧
    (namedElement "a").minOccurs = 1 ∧
    validateRequest .scanning "<request><b/></request>".toList registry (some (inSample "T")) = .ok () := by
  obtain ⟨registry, t, run, found, required⟩ := groupSchema_resolves
  refine ⟨registry, rfl, run, groupSchema_acyclic, rfl, groupedType_refers, itemGroup_declared,
    itemGroup_inlined, rfl, ?_⟩
  simp only [validateRequest, Option.bind_some, found, required]
  decide +kernel

theorem groupedType_inlined_iff : ∃ registry t ct ancestors front back,
    resolveSchema .stored noTrees nullSchemaLoader 1 (parseSchema groupSchema) [] = .ok (registry, []) ∧
      registry.lookup (inSample "T") = some t ∧ t = .complex ct ∧
      Contributes (.ofDocuments ([groupSchema].map parseSchema)) (visitComplexType groupedType).content.bases ancestors ∧
      Expands (.ofDocuments ([groupSchema].map parseSchema)) [] front ∧
      Expands (.ofDocuments ([groupSchema].map parseSchema)) [namedElement "b"] back ∧
      ∀ particles elements, Inlined [groupSchema] (groupBody itemGroup) particles →
        Expands (.ofDocuments ([groupSchema].map parseSchema)) particles elements →
        (HasInlined ct ancestors front elements back ↔ elements = []) := by
  obtain ⟨registry, t, run, found, _⟩ := groupSchema_resolves
  have gathered : gatherLoop noTrees nullSchemaLoader 1 ([], [parseSchema groupSchema]) =
      .ok ([groupSchema].map parseSchema, []) := rfl
  obtain ⟨_, _, ct, ancestors, front, back, rest⟩ :=
    group_reference_inlined_iff gathered run groupSchema_acyclic
    (.inl rfl) found groupedType_refers itemGroup_declared
  exact ⟨registry, t, ct, ancestors, front, back, run, found, rest⟩

end SoapServer.Dispatch
