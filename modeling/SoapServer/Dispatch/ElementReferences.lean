import SoapServer.Dispatch.Extensions

/-! What an element reference becomes: the global declaration as it stands, with its own
occurrence bounds, or a group of the same name.
-/

set_option autoImplicit false

namespace SoapServer

open Markup (Text)
open Maps Loops

namespace Xsd

variable {flat : FlatTypeMap}

/-- A group stands for a name before an element does. -/
theorem referent_cases (flat : FlatTypeMap) (q : QName) :
    (∃ group, flat.groups.lookup q = some group ∧ flat.referent q = some (.inl group)) ∨
      flat.groups.lookup q = none ∧ flat.referent q = (flat.elements.lookup q).map .inr := by
  unfold FlatTypeMap.referent
  cases flat.groups.lookup q with
  | some group => exact .inl ⟨group, rfl, rfl⟩
  | none => exact .inr ⟨rfl, rfl⟩

/-- What a single reference expands to: the group of the name, or the element, or nothing. -/
theorem expands_reference {el : XsdElement} {q : QName} {here : List XsdElement}
    (refers : el.reference = some q) (expands : Expands flat [el] here) :
    (∃ group, flat.groups.lookup q = some group ∧ Expands flat group.content.elements here) ∨
      flat.groups.lookup q = none ∧ here = (flat.elements.lookup q).toList := by
  -- a group hides the element of the same name
  rcases referent_cases flat q with ⟨group, grouped, referent⟩ | ⟨ungrouped, referent⟩
  · cases expands with
    | own plain => cases plain.symm.trans refers
    | group refers' found inside after =>
      obtain rfl := Option.some.inj (refers.symm.trans refers')
      cases referent.symm.trans found
      cases after
      exact .inl ⟨group, grouped, by rwa [List.append_nil]⟩
    | element refers' found | missing refers' found =>
      obtain rfl := Option.some.inj (refers.symm.trans refers')
      cases referent.symm.trans found
  · refine .inr ⟨ungrouped, ?_⟩
    cases expands with
    | own plain => cases plain.symm.trans refers
    | group refers' found =>
      obtain rfl := Option.some.inj (refers.symm.trans refers')
      rw [referent] at found
      cases declared : flat.elements.lookup q <;> simp [declared] at found
    | element refers' found after =>
      obtain rfl := Option.some.inj (refers.symm.trans refers')
      cases after
      rw [referent] at found
      cases declared : flat.elements.lookup q with
      | none => simp [declared] at found
      | some globalEl =>
        rw [declared] at found
        cases found
        rfl
    | missing refers' absent after =>
      obtain rfl := Option.some.inj (refers.symm.trans refers')
      cases after
      rw [referent, Option.map_eq_none_iff] at absent
      rw [absent]
      rfl

/-- The elements of a definition, split at one of its particles. -/
theorem ResolvesTo.at_particle {raw ct : ComplexType} (resolves : ResolvesTo flat raw ct)
    {before after : List XsdElement} {el : XsdElement}
    (position : raw.content.particles = before ++ el :: after) :
    ∃ ancestors front here back, Contributes flat raw.content.bases ancestors ∧ Expands flat before front ∧
      Expands flat [el] here ∧ Expands flat after back ∧
      extractElements ct.content = ancestors ++ (front ++ (here ++ back)) := by
  obtain ⟨ancestors, own, above, particles, split⟩ := resolves.content.contributes
  rw [position, expands_append_iff] at particles
  obtain ⟨front, rest, first, particles, rfl⟩ := particles
  rw [← List.singleton_append, expands_append_iff] at particles
  obtain ⟨here, back, middle, last, rfl⟩ := particles
  exact ⟨ancestors, front, here, back, above, first, middle, last, split⟩

end Xsd

namespace Dispatch

open Xsd

/-- An element with the name and type of a global declaration and the bounds of a reference
to it. -/
structure Refers (reference declared el : XsdElement) : Prop where
  name : el.name = declared.name
  typeRef : el.typeRef = declared.typeRef
  inlineType : el.inlineType = declared.inlineType
  minOccurs : el.minOccurs = reference.minOccurs
  maxOccurs : el.maxOccurs = reference.maxOccurs

/-- What stands at the position of a reference is one such element, which is not required
where the reference is optional. -/
def KeepsBounds (reference declared : XsdElement) (here : List XsdElement) : Prop :=
  (∃ el, here = [el] ∧ Refers reference declared el) ∧ (reference.minOccurs = 0 → requiredNames here = [])

/-- The global declaration has the bounds of the reference and no group has its name, or the
group of that name stands for one such element. -/
def SameBounds (flat : FlatTypeMap) (q : QName) (reference declared : XsdElement) : Prop :=
  match flat.groups.lookup q with
  | none => declared.minOccurs = reference.minOccurs ∧ declared.maxOccurs = reference.maxOccurs
  | some group => ∃ el, Expands flat group.content.elements [el] ∧ Refers reference declared el

variable {flat : FlatTypeMap}

theorem keepsBounds_iff {reference declared : XsdElement} {here : List XsdElement} :
    KeepsBounds reference declared here ↔ ∃ el, here = [el] ∧ Refers reference declared el := by
  refine ⟨And.left, fun kept => ⟨kept, fun optional => ?_⟩⟩
  obtain ⟨el, rfl, refers⟩ := kept
  refine requiredNames_eq_nil.mpr fun other member demanded => ?_
  obtain rfl := List.mem_singleton.mp member
  rw [refers.minOccurs, optional] at demanded
  exact absurd demanded.1 (Nat.lt_irrefl 0)

/-- A single reference, where its element is declared. -/
theorem keepsBounds_reference_iff {q : QName} {reference declared : XsdElement}
    {here : List XsdElement} (refers : reference.reference = some q)
    (isElement : flat.elements.lookup q = some declared) (expands : Expands flat [reference] here) :
    KeepsBounds reference declared here ↔ SameBounds flat q reference declared := by
  rw [keepsBounds_iff]
  unfold SameBounds
  rcases expands_reference refers expands with ⟨group, grouped, inside⟩ | ⟨ungrouped, rfl⟩
  · simp only [grouped]
    constructor
    · rintro ⟨el, rfl, kept⟩
      exact ⟨el, inside, kept⟩
    · rintro ⟨el, inside', kept⟩
      exact ⟨el, inside.unique inside', kept⟩
  · simp only [ungrouped, isElement, Option.toList_some, List.cons.injEq, and_true, exists_eq_left']
    constructor
    · exact fun kept => ⟨kept.minOccurs, kept.maxOccurs⟩
    · exact fun ⟨min, max⟩ => ⟨rfl, rfl, rfl, min, max⟩

/-- A reference keeps its bounds in the element list of a type exactly if the declaration that
replaces it has them. -/
theorem reference_keeps_bounds_iff {iter : MapOrder} {registry : TypeRegistry}
    (run : resolveFlat iter flat = .ok registry) {typeName q : QName} {raw : ComplexType}
    {t : XsdType} (defines : flat.Defines typeName raw) (found : registry.lookup typeName = some t)
    {before after : List XsdElement} {reference declared : XsdElement}
    (position : raw.content.particles = before ++ reference :: after)
    (refers : reference.reference = some q) (isElement : flat.elements.lookup q = some declared) :
    ∃ ct ancestors front here back, t = .complex ct ∧ Contributes flat raw.content.bases ancestors ∧
      Expands flat before front ∧ Expands flat after back ∧
      extractElements ct.content = ancestors ++ (front ++ (here ++ back)) ∧
      (KeepsBounds reference declared here ↔ SameBounds flat q reference declared) := by
  obtain ⟨ct, rfl, resolves⟩ := ((resolveFlat_lookup run typeName t).mp found).of_defines defines
  obtain ⟨ancestors, front, here, back, above, first, middle, last, split⟩ :=
    resolves.at_particle position
  exact ⟨ct, ancestors, front, here, back, rfl, above, first, last, split,
    keepsBounds_reference_iff refers isElement middle⟩

/-! An optional reference. -/

def noteType : DomNode :=
  xsNode "complexType" [("name", "T")]
    [xsNode "sequence" [] [xsNode "element" [("ref", "t:note"), ("minOccurs", "0")] []]]

def noteSchema : DomNode :=
  xsNode "schema" [("targetNamespace", "urn:t")] [xsNode "element" [("name", "note"), ("type", "xs:string")] [], noteType]

def noteFlat : FlatTypeMap := FlatTypeMap.empty.merge (parseSchema noteSchema)

def noteReference : XsdElement :=
  visitElement (xsNode "element" [("ref", "t:note"), ("minOccurs", "0")] [])

def noteElement : XsdElement := visitElement (xsNode "element" [("name", "note"), ("type", "xs:string")] [])

theorem noteFlat_resolves : ∃ registry t, resolveFlat .stored noteFlat = .ok registry ∧
    registry.lookup (inSample "T") = some t ∧ collectRequiredElementNames t = ["note".toList] := by
  have evaluated :
      (match resolveFlat .stored noteFlat with
        | .ok registry =>
          match registry.lookup (inSample "T") with
          | some t => decide (collectRequiredElementNames t = ["note".toList])
          | none => false
        | .error _ => false) = true := by decide +kernel
  split at evaluated
  next registry run =>
    split at evaluated
    next t found => exact ⟨registry, t, run, found, of_decide_eq_true evaluated⟩
    next => cases evaluated
  next => cases evaluated

/-- The element becomes required all the same. -/
theorem optionalReference_required : ∃ registry t, resolveFlat .stored noteFlat = .ok registry ∧
    registry.lookup (inSample "T") = some t ∧
    (visitComplexType noteType).content.particles = [noteReference] ∧
    noteReference.reference = some (inSample "note") ∧ noteReference.minOccurs = 0 ∧
    noteFlat.elements.lookup (inSample "note") = some noteElement ∧
    validateRequest .scanning "<request/>".toList registry (some (inSample "T")) =
      senderFault "Schema validation failed: required element 'note' is missing".toList := by
  obtain ⟨registry, t, run, found, required⟩ := noteFlat_resolves
  refine ⟨registry, t, run, found, rfl, rfl, rfl, rfl, ?_⟩
  simp only [validateRequest, Option.bind_some, found, required]
  decide +kernel

/-! A reference with the bounds of its element. -/

def plainType : DomNode :=
  xsNode "complexType" [("name", "T")] [xsNode "sequence" [] [xsNode "element" [("ref", "t:note")] []]]

def plainSchema : DomNode :=
  xsNode "schema" [("targetNamespace", "urn:t")] [xsNode "element" [("name", "note"), ("type", "xs:string")] [], plainType]

def plainFlat : FlatTypeMap := FlatTypeMap.empty.merge (parseSchema plainSchema)

def plainReference : XsdElement := visitElement (xsNode "element" [("ref", "t:note")] [])

theorem plainReference_keeps_bounds : ∃ registry t ct ancestors front here back,
    resolveFlat .stored plainFlat = .ok registry ∧ registry.lookup (inSample "T") = some t ∧
      t = .complex ct ∧ Contributes plainFlat (visitComplexType plainType).content.bases ancestors ∧
      Expands plainFlat [] front ∧ Expands plainFlat [] back ∧
      extractElements ct.content = ancestors ++ (front ++ (here ++ back)) ∧
      KeepsBounds plainReference noteElement here := by
  have evaluated : ∃ registry, resolveFlat .stored plainFlat = .ok registry ∧
      ∃ t, registry.lookup (inSample "T") = some t ∧ t.isComplex = true := by decide +kernel
  obtain ⟨registry, run, t, found, _⟩ := evaluated
  have defines : plainFlat.Defines (inSample "T") (visitComplexType plainType) := .inl rfl
  have position : (visitComplexType plainType).content.particles = [] ++ plainReference :: [] := rfl
  have refers : plainReference.reference = some (inSample "note") := rfl
  have isElement : plainFlat.elements.lookup (inSample "note") = some noteElement := rfl
  have same : SameBounds plainFlat (inSample "note") plainReference noteElement := ⟨rfl, rfl⟩
  obtain ⟨ct, ancestors, front, here, back, complex, above, before, after, split, iff⟩ :=
    reference_keeps_bounds_iff run defines found position refers isElement
  exact ⟨registry, t, ct, ancestors, front, here, back, run, found, complex, above, before, after,
    split, iff.mpr same⟩

end Dispatch

end SoapServer
