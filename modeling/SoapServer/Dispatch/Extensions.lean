import SoapServer.Dispatch.Validation
import SoapServer.Xsd.Flattening

/-! The names that the check of a request requires of an extended type, against those it
requires of the base and of the extension. The resolver puts the elements of both into one
sequence, also those of a choice.
-/

set_option autoImplicit false

namespace SoapServer

open Markup (Text)
open Maps Loops

namespace Xsd

/-- The branches of a content that is a choice, behind any restrictions. -/
def ComplexContent.branches : ComplexContent → Option (List XsdElement)
  | .choice els => some els
  | .complexRestriction _ content => content.branches
  | .sequence _ | .all _ | .empty | .simpleContent _ | .complexExtension _ _ => none

/-- A choice with a branch that would be required on its own. -/
def FlatTypeMap.OffersDemanded (flat : FlatTypeMap) (content : ComplexContent) : Prop :=
  ∃ branches els el, content.branches = some branches ∧ Expands flat branches els ∧
    el ∈ els ∧ 0 < el.minOccurs ∧ el.name.isSome

end Xsd

namespace Dispatch

open Xsd

/-- The names that a sequence of elements requires. -/
def requiredNames (els : List XsdElement) : List Text :=
  els.filterMap fun el => if el.minOccurs > 0 then el.name else none

/-- The names that the base of an extension requires: none unless it is a declared complex type. -/
def requiredOfBase (flat : FlatTypeMap) (registry : TypeRegistry) (base : QName) : List Text :=
  if (flat.complexType base).isSome then ((registry.lookup base).map collectRequiredElementNames).getD [] else []

variable {flat : FlatTypeMap}

theorem requiredNames_append (first second : List XsdElement) :
    requiredNames (first ++ second) = requiredNames first ++ requiredNames second :=
  List.filterMap_append

theorem requiredNames_eq_nil {els : List XsdElement} :
    requiredNames els = [] ↔ ∀ el ∈ els, ¬ (0 < el.minOccurs ∧ el.name.isSome) := by
  rw [requiredNames, List.filterMap_eq_nil_iff]
  refine forall₂_congr fun el _ => ?_
  by_cases demanded : 0 < el.minOccurs
  · simp [demanded]
  · simp [demanded]

/-- What a content resolves to requires the names of its elements, or nothing where it is a
choice. -/
theorem required_of_resolves {content out : ComplexContent} (resolves : Resolves flat content out) :
    (content.branches = none ∧ collectRequiredFromContent out = requiredNames (extractElements out)) ∨
      collectRequiredFromContent out = [] ∧
        ∃ branches, content.branches = some branches ∧ Expands flat branches (extractElements out) := by
  induction resolves with
  | sequence | all | extension | opaqueExtension => exact .inl ⟨rfl, rfl⟩
  | simpleContent | empty => exact .inl ⟨rfl, rfl⟩
  | choice resolved => exact .inr ⟨rfl, _, rfl, resolveElements_expands resolved⟩
  | restriction _ ih => exact ih

/-- The elements of a resolved content require more than it does only if it is a choice with a
demanded branch. -/
theorem required_eq_iff {content out : ComplexContent} (resolves : Resolves flat content out) :
    collectRequiredFromContent out = requiredNames (extractElements out) ↔ ¬ flat.OffersDemanded content := by
  rcases required_of_resolves resolves with ⟨sequence, same⟩ | ⟨nothing, branches, choice, expands⟩
  · refine iff_of_true same ?_
    rintro ⟨branches, _, _, choice, _⟩
    cases sequence.symm.trans choice
  · rw [nothing, eq_comm, requiredNames_eq_nil]
    constructor
    · rintro free ⟨branches', els, el, choice', expands', member, demanded⟩
      obtain rfl := Option.some.inj (choice.symm.trans choice')
      exact free el (expands.unique expands' ▸ member) demanded
    · intro free el member demanded
      exact free ⟨branches, _, el, choice, expands, member, demanded⟩

/-- A resolved content never requires more than its elements. -/
theorem required_length_le {content out : ComplexContent} (resolves : Resolves flat content out) :
    (collectRequiredFromContent out).length ≤ (requiredNames (extractElements out)).length := by
  rcases required_of_resolves resolves with ⟨_, same⟩ | ⟨nothing, _⟩
  · rw [same]
  · rw [nothing]
    exact Nat.zero_le _

/-- Two contents one after the other require what they require apart exactly if each requires
all that its elements do. -/
theorem required_append_iff {content content' out out' : ComplexContent}
    (first : Resolves flat content out) (second : Resolves flat content' out') :
    requiredNames (extractElements out ++ extractElements out') =
        collectRequiredFromContent out ++ collectRequiredFromContent out' ↔
      ¬ flat.OffersDemanded content ∧ ¬ flat.OffersDemanded content' := by
  rw [requiredNames_append, ← required_eq_iff first, ← required_eq_iff second]
  constructor
  · intro same
    have lengths := congrArg List.length same
    simp only [List.length_append] at lengths
    have := required_length_le first
    have := required_length_le second
    obtain ⟨one, two⟩ := List.append_inj same (by omega)
    exact ⟨one.symm, two.symm⟩
  · rintro ⟨one, two⟩
    rw [one, two]

/-- A content whose base resolves is resolved on its own. -/
theorem resolves_alone (all : flat.AllResolve) {content own : ComplexContent}
    (resolves : Resolves flat content own) :
    ∃ ct, resolveComplexType flat ⟨none, content, []⟩ = .ok ct ∧ ct.content = own := by
  rcases resolveComplexType_cases all ⟨none, content, []⟩ with ⟨ct, run, resolved⟩ | ⟨_, stuck⟩
  · exact ⟨ct, run, resolved.content.unique resolves⟩
  · exact absurd (grounded_iff.mpr ⟨resolves.particles, [], rfl⟩) stuck.2

/-- An extended type requires what its base and its extension require exactly if neither is a
choice with a demanded branch. -/
theorem extension_requires_iff {iter : MapOrder} {registry : TypeRegistry}
    (run : resolveFlat iter flat = .ok registry) {q base : QName} {raw : ComplexType}
    {content : ComplexContent} (declared : flat.complexType q = some raw)
    (extends_ : raw.content = .complexExtension base content) :
    ∃ t own, registry.lookup q = some t ∧ resolveComplexType flat ⟨none, content, []⟩ = .ok own ∧
      (collectRequiredElementNames t =
          requiredOfBase flat registry base ++ collectRequiredElementNames (.complex own) ↔
        (∀ rawBase, flat.complexType base = some rawBase → ¬ flat.OffersDemanded rawBase.content) ∧
          ¬ flat.OffersDemanded content) := by
  have all := ((exists_registry_iff iter).mp ⟨registry, run⟩).1
  obtain ⟨ct, resolves⟩ := all q raw declared
  have content' := resolves.content
  rw [extends_] at content'
  have found : registry.lookup q = some (.complex ct) :=
    (resolveFlat_lookup run q _).mpr (.complex declared resolves)
  have same : collectRequiredElementNames (.complex ct) = collectRequiredFromContent ct.content :=
    rfl
  generalize ct.content = out at content' same
  cases content' with
  -- the base is declared: its particles come first, and then its own
  | @extension _ rawBase _ above own declared' ancestor attributes inner =>
    obtain ⟨baseAttributes, expanded⟩ := attributes
    obtain ⟨ownCt, alone, rfl⟩ := resolves_alone all inner
    refine ⟨_, ownCt, found, alone, ?_⟩
    have entry : registry.lookup base = some (.complex ⟨rawBase.name, above, baseAttributes⟩) :=
      (resolveFlat_lookup run base _).mpr (.complex declared' ⟨rfl, ancestor, expanded⟩)
    rw [requiredOfBase, if_pos (by rw [declared']; rfl), entry, same]
    refine (required_append_iff ancestor inner).trans (and_congr_left' ?_)
    simp [declared']
  -- the base is unknown and requires nothing
  | opaqueExtension absent inner =>
    obtain ⟨ownCt, alone, rfl⟩ := resolves_alone all inner
    refine ⟨_, ownCt, found, alone, ?_⟩
    rw [requiredOfBase, if_neg (by rw [absent]; simp), List.nil_append, same]
    refine (eq_comm.trans (required_eq_iff inner)).trans ?_
    simp [absent]

/-! A base that is a choice. -/

def choiceBase : DomNode :=
  xsNode "complexType" [("name", "Base")]
    [xsNode "choice" [] [xsNode "element" [("name", "a")] [], xsNode "element" [("name", "b")] []]]

def choiceSchema : DomNode :=
  xsNode "schema" [("targetNamespace", "urn:t")] [choiceBase, extensionNode "Derived" "t:Base" "c"]

def choiceFlat : FlatTypeMap := FlatTypeMap.empty.merge (parseSchema choiceSchema)

def inSample (name : String) : QName := .new "urn:t".toList name.toList

def ownContent : ComplexContent := extensionContent .empty (.ofNodes [xsNode "sequence" [] [xsNode "element" [("name", "c")] []]])

theorem choiceFlat_resolves : ∃ registry t own,
    resolveFlat .stored choiceFlat = .ok registry ∧ registry.lookup (inSample "Derived") = some t ∧
      resolveComplexType choiceFlat ⟨none, ownContent, []⟩ = .ok own ∧
      collectRequiredElementNames t = ["a".toList, "b".toList, "c".toList] ∧
      requiredOfBase choiceFlat registry (inSample "Base") = [] ∧
      collectRequiredElementNames (.complex own) = ["c".toList] := by
  have evaluated : ∃ registry, resolveFlat .stored choiceFlat = .ok registry ∧
      ∃ t, registry.lookup (inSample "Derived") = some t ∧
      ∃ own, resolveComplexType choiceFlat ⟨none, ownContent, []⟩ = .ok own ∧
        collectRequiredElementNames t = ["a".toList, "b".toList, "c".toList] ∧
        requiredOfBase choiceFlat registry (inSample "Base") = [] ∧
        collectRequiredElementNames (.complex own) = ["c".toList] := by decide +kernel
  obtain ⟨registry, run, t, found, own, alone, required⟩ := evaluated
  exact ⟨registry, t, own, run, found, alone, required⟩

/-- The branches of the base become required. -/
theorem branches_required : ∃ registry t own,
    resolveFlat .stored choiceFlat = .ok registry ∧ registry.lookup (inSample "Derived") = some t ∧
      resolveComplexType choiceFlat ⟨none, ownContent, []⟩ = .ok own ∧
      collectRequiredElementNames t ≠
        requiredOfBase choiceFlat registry (inSample "Base") ++ collectRequiredElementNames (.complex own) := by
  obtain ⟨registry, t, own, run, found, alone, whole, base, extension⟩ := choiceFlat_resolves
  refine ⟨registry, t, own, run, found, alone, ?_⟩
  rw [whole, base, extension]
  decide

/-! A base that is a choice between optional elements. -/

def optionalElement (name : String) : DomNode := xsNode "element" [("name", name), ("minOccurs", "0")] []

def optionalBase : DomNode :=
  xsNode "complexType" [("name", "Base")] [xsNode "choice" [] [optionalElement "a", optionalElement "b"]]

def optionalSchema : DomNode :=
  xsNode "schema" [("targetNamespace", "urn:t")] [optionalBase, extensionNode "Derived" "t:Base" "c"]

def optionalFlat : FlatTypeMap := FlatTypeMap.empty.merge (parseSchema optionalSchema)

theorem optionalBase_offersNothing :
    ¬ optionalFlat.OffersDemanded (visitComplexType optionalBase).content := by
  rintro ⟨branches, els, el, choice, expands, member, demanded, _⟩
  obtain rfl := Option.some.inj choice
  have plain : Expands optionalFlat [visitElement (optionalElement "a"), visitElement (optionalElement "b")]
      [visitElement (optionalElement "a"), visitElement (optionalElement "b")] := .own rfl (.own rfl .nil)
  rw [expands.unique plain] at member
  rcases List.mem_pair.mp member with rfl | rfl <;> exact absurd demanded (by decide)

theorem optionalFlat_requires : ∃ registry t own,
    resolveFlat .stored optionalFlat = .ok registry ∧ registry.lookup (inSample "Derived") = some t ∧
      resolveComplexType optionalFlat ⟨none, ownContent, []⟩ = .ok own ∧
      collectRequiredElementNames t =
        requiredOfBase optionalFlat registry (inSample "Base") ++ collectRequiredElementNames (.complex own) := by
  have evaluated : ∃ registry, resolveFlat .stored optionalFlat = .ok registry ∧
      (registry.lookup (inSample "Derived")).isSome := by decide +kernel
  obtain ⟨registry, run, _⟩ := evaluated
  have declared : optionalFlat.complexType (inSample "Derived") =
      some (visitComplexType (extensionNode "Derived" "t:Base" "c")) := rfl
  have extends_ : (visitComplexType (extensionNode "Derived" "t:Base" "c")).content =
      .complexExtension (inSample "Base") ownContent := rfl
  obtain ⟨t, own, found, alone, iff⟩ := extension_requires_iff run declared extends_
  refine ⟨registry, t, own, run, found, alone, iff.mpr ⟨fun rawBase known => ?_, ?_⟩⟩
  · have base : optionalFlat.complexType (inSample "Base") = some (visitComplexType optionalBase) := rfl
    rw [← Option.some.inj (base.symm.trans known)]
    exact optionalBase_offersNothing
  · rintro ⟨_, _, _, choice, _⟩
    cases choice

end Dispatch

end SoapServer
