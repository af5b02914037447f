import SoapServer.Crossref.CanonicalDocuments
import SoapServer.Crossref.ScopeTrees

/-! The tree of a canonical form: it is the tree of the document, its attributes in another order. -/

set_option autoImplicit false

namespace SoapServer.Crossref

open Markup hiding localName
open SoapServer.Tree

/-- Two trees with the same expanded names, values and character data. Attributes have no order,
and declarations are not in the tree. -/
inductive SameTree : DomForest → DomForest → Prop
  | nil : SameTree .nil .nil
  | text {s : Text} {f f' : DomForest} (more : SameTree f f') : SameTree (.text s f) (.text s f')
  | other {f f' : DomForest} (more : SameTree f f') : SameTree (.other f) (.other f')
  | element {e e' : DomElement} {children children' f f' : DomForest} (ns : e.ns = e'.ns) (name : e.name = e'.name)
    (attributes : e.attributes.Perm e'.attributes) (inner : SameTree children children') (more : SameTree f f') :
    SameTree (.element e children f) (.element e' children' f')

theorem SameTree.prepend {f f' : DomForest} (same : SameTree f f') (s : Text) :
    SameTree (f.prepend s) (f'.prepend s) := by
  have whole {f f' : DomForest} (same : SameTree f f') :
      SameTree (if s = [] then f else .text s f) (if s = [] then f' else .text s f') := by
    split
    · exact same
    · exact .text same
  cases same with
  | text more => exact .text more
  | nil => exact whole .nil
  | other more => exact whole (.other more)
  | element ns name attributes inner more => exact whole (.element ns name attributes inner more)

variable {deref : Text → Option Text} {prefixes : PrefixMap} {scope : Scope} {tag : Tag}
    {isRoot : Bool}
  {x : ExpandedName} {attributes : List (ExpandedName × Text)}

theorem ownNamespaces_expandedTag (deref : Text → Option Text) (proper : ProperMap prefixes)
    (named : AttributesNamed prefixes attributes) :
    ownNamespaces deref (expandedTag prefixes isRoot x attributes) =
      if isRoot then (sortByPrefix prefixes).map fun d => (some d.2, attributeValue deref d.1) else [] := by
  have own : ((canonAttributes prefixes attributes).map writtenAttribute).filterMap (declaredBy deref) = [] := by
    refine List.filterMap_eq_nil_iff.mpr fun a member => ?_
    rw [declaredBy, written_undeclared proper named member]
  rw [ownNamespaces, expandedTag]
  simp only [List.filterMap_append, own, List.append_nil]
  cases isRoot with
  | false => rfl
  | true =>
    simp only [if_true]
    rw [rootDeclarations, List.filterMap_map, ← List.filterMap_eq_map]
    refine List.filterMap_congr fun d member => ?_
    have among := (perm_sortByPrefix prefixes).mem_iff.mp member
    have other : d.2 ≠ xmlText := proper.ne_reserved among (by decide) _
    have filled : d.2 ≠ [] := (proper.ncName among).isName.1
    refine (declaredBy_eq deref (declares_prefixed d.2 d.1) other).trans ?_
    rw [treePrefix, if_neg filled]
    rfl

/-- What the root declares can be declared, as its references stand. -/
def DecodedNames (deref : Text → Option Text)
    (prefixes : PrefixMap) : Prop := ∀ d ∈ prefixes, DecodedName deref d.1

theorem properTag_canonicalTag (names : DecodedNames deref prefixes) (proper : ProperMap prefixes)
    (nameable : NameableTag prefixes scope tag) (source : ProperTag deref tag)
    (plain : PlainValues tag) (isRoot : Bool) :
    ProperTag deref (canonicalTag prefixes isRoot (scope.enter tag.attributes) tag) := by
  have prefixed : Prefixed prefixes := ⟨proper, fun d among => (names d among).toNamespaceName⟩
  have sound := scopedTag_canonicalTag prefixed isRoot nameable
  have own := @ownNamespaces_expandedTag prefixes isRoot (elementName (scope.enter tag.attributes) tag.name)
    (expandedAttributes (scope.enter tag.attributes) tag.attributes) deref proper nameable.attributes
  refine ⟨sound.name, sound.unique, ?_, ?_, ?_⟩
  · intro a member
    have value : referencesKnown deref a.value = true ∧ (∀ c ∈ attributeValue deref a.value, isXmlChar c = true) ∧
        (a.declares = some xmlText → attributeValue deref a.value = xmlNamespace) := by
      -- an attribute of the canonical tag declares a prefix of the map, or is one of the source
      rcases mem_expandedTag member with ⟨d, among, rfl⟩ | ⟨b, among, rfl⟩
      · refine ⟨(names d among).references, (names d among).chars, fun declared => ?_⟩
        have same : d.2 = xmlText := Option.some.inj ((declares_prefixed d.2 d.1).symm.trans declared)
        exact absurd same (proper.ne_reserved among (by decide) _)
      · obtain ⟨raw, listed, undeclared, rfl⟩ := mem_expandedAttributes.mp among
        have value := source.attributes raw listed
        obtain ⟨noAmpersand, noQuote⟩ := plain raw listed undeclared
        -- a plain value is written as it was
        have same : writeAttrValue raw.value = raw.value :=
          writeAttrValue_plain noQuote value.noTag noAmpersand
        simp only [same]
        refine ⟨value.references, value.chars, fun declared => ?_⟩
        cases ((nameable.attributes _ among).declares proper _).symm.trans declared
    exact ⟨(sound.attributes a member).1, (sound.attributes a member).2, value.1, value.2.1,
      value.2.2⟩
  · rw [canonicalTag, own]
    cases isRoot with
    | false => exact List.nodup_nil
    | true =>
      simp only [if_true, List.map_map]
      have prefixesOnly : (sortByPrefix prefixes).map (Prod.fst ∘ fun d => (some d.2, attributeValue deref d.1)) =
          ((sortByPrefix prefixes).map Prod.snd).map some := by
        rw [List.map_map]
        rfl
      rw [prefixesOnly]
      exact (((perm_sortByPrefix prefixes).map Prod.snd).nodup_iff.mpr proper.distinct).map (Option.some_injective Text)
  · rw [canonicalTag, own]
    cases isRoot with
    | false => exact fun d member => by cases member
    | true =>
      intro d member
      simp only [if_true] at member
      obtain ⟨d, among, rfl⟩ := List.mem_map.mp member
      have among := (perm_sortByPrefix prefixes).mem_iff.mp among
      have name := names d among
      refine ⟨name.otherThanXml, name.otherThanXmlns, fun p same => ?_⟩
      cases same
      exact ⟨proper.ncName among, proper.ne_reserved among (by decide) _,
        proper.ne_reserved among (by decide) _, name.filled⟩

/-- The canonical form of a tag stands for the element of the tag. -/
theorem element_canonicalTag (names : DecodedNames deref prefixes) (proper : ProperMap prefixes)
    (references : CharacterReferences deref) (nameable : NameableTag prefixes scope tag)
    {e : DomElement} (stands : Stands deref scope tag e) (plain : PlainValues tag)
    {inherited : Namespaces} (agrees : Agrees deref (outerScope prefixes isRoot) inherited) :
    ∃ e', elementOf deref inherited (canonicalTag prefixes isRoot (scope.enter tag.attributes) tag) = some e' ∧
      e.ns = e'.ns ∧ e.name = e'.name ∧ e.attributes.Perm e'.attributes ∧ Agrees deref (rootScope prefixes) e'.namespaces := by
  have canonical := properTag_canonicalTag names proper nameable stands.proper plain isRoot
  -- plain values are written as they are read
  have unescaped : (expandedAttributes (scope.enter tag.attributes) tag.attributes).map (fun a => (a.1, writeAttrValue a.2)) =
      expandedAttributes (scope.enter tag.attributes) tag.attributes := by
    refine (List.map_congr_left fun a member => ?_).trans (List.map_id _)
    obtain ⟨raw, listed, undeclared, rfl⟩ := mem_expandedAttributes.mp member
    obtain ⟨noAmpersand, noQuote⟩ := plain raw listed undeclared
    rw [writeAttrValue_plain noQuote (stands.proper.attributes raw listed).noTag noAmpersand]
    rfl
  have order := @perm_expandedAttributes prefixes (elementName (scope.enter tag.attributes) tag.name) _ proper
    nameable.attributes isRoot
  rw [unescaped] at order
  -- the attributes come in another order, with the same expanded names and values
  obtain ⟨attributes, read, perm⟩ := Traversals.mapM_perm order.symm stands.attributes
  have inner := nameable.enter proper isRoot
  have name : decodeName deref (elementName (rootScope prefixes)
      (canonicalTag prefixes isRoot (scope.enter tag.attributes) tag).name) = some (e.ns, e.name) := by
    refine Eq.trans ?_ stands.name
    exact congrArg (decodeName deref) (nameable.element.elementName_eq proper)
  have distinct : DistinctAttributes attributes :=
    (perm.map fun a : DomAttribute => (a.ns, a.name)).nodup_iff.mp stands.distinct
  have entered := agrees.enter references canonical
  rw [inner] at entered
  have built := element_of_names agrees references canonical distinct (by rw [inner]; exact name) (by rw [inner]; exact read)
  exact ⟨_, built, rfl, rfl, perm, entered⟩

/-- Character data is put before what follows it. -/
theorem forestOf_character {inherited : Namespaces} {d : Data} (char : IsCharacter d)
    {rest : Content} {f : DomForest} :
    forestOf deref inherited (.data d rest) = some f ↔ ∃ after, forestOf deref inherited rest = some after ∧
      ∃ s, textOf deref d = some s ∧ (∀ c ∈ s, isXmlChar c = true) ∧ after.prepend s = f := by
  cases d with
  | text raw | cdata raw | generalRef name =>
    simp only [forestOf, Option.bind_eq_bind, Option.bind_eq_some_iff,
      Option.ite_none_right_eq_some, Option.some.injEq]
  | comment raw | pi raw | decl raw | docType raw => exact char.elim

/-- A canonical form has the tree of its document. -/
theorem Canonizes.tree {outer : Scope} {c c' : Content}
    (canonizes : Canonizes prefixes isRoot scope outer c c') (names : DecodedNames deref prefixes)
    (proper : ProperMap prefixes) (references : CharacterReferences deref)
    (chars : c.AllData IsCharacter) (plain : c.AllTags PlainValues)
    {inherited inherited' : Namespaces} {f : DomForest} (agrees : Agrees deref scope inherited)
    (agrees' : Agrees deref outer inherited') (run : forestOf deref inherited c = some f) :
    ∃ f', forestOf deref inherited' c' = some f' ∧ SameTree f f' := by
  induction canonizes generalizing inherited inherited' f with
  | nil =>
    cases run
    exact ⟨.nil, rfl, .nil⟩
  | kept char _ ih =>
    obtain ⟨after, restRun, s, text, valid, rfl⟩ := (forestOf_character char).mp run
    obtain ⟨after', restRun', same⟩ := ih chars.2 plain agrees agrees' restRun
    exact ⟨after'.prepend s, (forestOf_character char).mpr ⟨after', restRun', s, text, valid, rfl⟩,
      same.prepend s⟩
  | dropped other _ _ => exact absurd chars.1 other
  | empty nameable _ ih =>
    obtain ⟨e, element, after, restRun, rfl⟩ := forestOf_empty.mp run
    obtain ⟨e', element', ns, name, attributes, _⟩ :=
      element_canonicalTag names proper references nameable
      (stands_of_element agrees references element) plain.1 agrees'
    obtain ⟨after', restRun', same⟩ := ih chars plain.2 agrees agrees' restRun
    exact ⟨_, forestOf_empty.mpr ⟨e', element', after', restRun', rfl⟩,
      .element ns name attributes .nil same⟩
  | element nameable _ _ innerIH moreIH =>
    obtain ⟨e, element, children, kidsRun, after, restRun, rfl⟩ := forestOf_element.mp run
    have stands := stands_of_element agrees references element
    obtain ⟨e', element', ns, name, attributes, inner⟩ :=
      element_canonicalTag names proper references nameable stands
      plain.1 agrees'
    obtain ⟨children', kidsRun', sameKids⟩ := innerIH chars.1 plain.2.1 stands.agrees inner kidsRun
    obtain ⟨after', restRun', same⟩ := moreIH chars.2 plain.2.2 agrees agrees' restRun
    exact ⟨_, forestOf_element.mpr ⟨e', element', children', kidsRun', after', restRun', rfl⟩,
      .element ns name attributes sameKids same⟩

end SoapServer.Crossref
