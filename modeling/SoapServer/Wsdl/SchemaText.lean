import SoapServer.TreeScanner
import SoapServer.Library.Loops
import SoapServer.Wsdl.Parser

/-! An inline schema written out and read again. -/

set_option autoImplicit false

namespace SoapServer

open Markup

namespace DomForest

/-- Adjacent text joined, and no comments. -/
def normal : DomForest → DomForest
  | .nil => .nil
  | .text s rest => rest.normal.prepend s
  | .other rest => rest.normal
  | .element e children rest => .element e children.normal rest.normal

/-- The text that siblings begin with. -/
def headText : DomForest → Option Text
  | .text s _ => some s
  | .nil | .other _ | .element _ _ _ => none

@[simp] theorem prepend_nil (f : DomForest) : f.prepend [] = f := by
  cases f <;> simp [prepend]

theorem prepend_prepend (f : DomForest) (s t : Text) :
    (f.prepend t).prepend s = f.prepend (s ++ t) := by
  cases f with
  | text u rest => simp [prepend]
  | nil | other _ | element _ _ _ =>
    by_cases empty : t = []
    · simp [prepend, empty]
    · simp [prepend, empty]

theorem normal_prepend (f : DomForest) (s : Text) : (f.prepend s).normal = f.normal.prepend s := by
  by_cases empty : s = []
  · rw [empty, prepend_nil, prepend_nil]
  · cases f with
    | text t rest => exact (prepend_prepend rest.normal s t).symm
    | nil | other _ | element _ _ _ => simp only [prepend, if_neg empty, normal]

theorem normal_normal (f : DomForest) : f.normal.normal = f.normal := by
  induction f with
  | nil => rfl
  | text s rest ih => rw [normal, normal_prepend, ih]
  | other rest ih => exact ih
  | element e children rest kidsIH restIH => simp only [normal, kidsIH, restIH]

/-- The elements alone. -/
def bare : DomForest → DomForest
  | .nil => .nil
  | .text _ rest | .other rest => rest.bare
  | .element e children rest => .element e children.bare rest.bare

theorem bare_prepend (f : DomForest) (s : Text) : (f.prepend s).bare = f.bare := by
  unfold prepend
  split
  · rfl
  · split <;> rfl

theorem bare_normal (f : DomForest) : f.normal.bare = f.bare := by
  induction f with
  | nil => rfl
  | text s rest ih => rw [normal, bare_prepend, ih]; rfl
  | other rest ih => exact ih
  | element e children rest kidsIH restIH => simp only [normal, bare, kidsIH, restIH]

end DomForest

def DomNode.bare (node : DomNode) : DomNode := ⟨node.element, node.children.bare⟩

theorem DomForest.elements_bare (f : DomForest) :
    f.bare.elements = f.elements.map DomNode.bare := by
  induction f with
  | nil => rfl
  | text _ rest ih | other rest ih => exact ih
  | element e children rest _ ih => simp [bare, elements, ih, DomNode.bare]

/-- Equal up to comments and the division of text. -/
def DomNode.SameTree (a b : DomNode) : Prop := a.element = b.element ∧ a.children.normal = b.children.normal

namespace Xsd

/-! The visitors of a schema see its elements alone. -/

theorem particles_bare (f : DomForest) :
    visitParticleChildren f.bare = visitParticleChildren f ∧ inlineType f.bare = inlineType f ∧
      (∀ content, typeContent content f.bare = typeContent content f) ∧
      visitComplexContent f.bare = visitComplexContent f ∧
      (∀ content, extensionContent content f.bare = extensionContent content f) ∧
      visitComplexRestrictionContent f.bare = visitComplexRestrictionContent f := by
  induction f with
  | nil => exact ⟨rfl, rfl, fun _ => rfl, rfl, fun _ => rfl, rfl⟩
  | text _ rest ih | other rest ih => exact ih
  | element e children rest kidsIH restIH =>
    obtain ⟨particles, inline, content, complex, extension, restriction⟩ := kidsIH
    obtain ⟨particles', inline', content', complex', extension', restriction'⟩ := restIH
    have attributes : visitAttributes children.bare = visitAttributes children := by
      simp [visitAttributes, DomForest.elements_bare, List.filterMap_map, Function.comp_def,
        DomNode.bare]
    have simple : visitSimpleContent children.bare = visitSimpleContent children := by
      simp [visitSimpleContent, DomForest.elements_bare, List.findSome?_map, List.filterMap_map,
        Function.comp_def, DomNode.bare]
      rfl
    simp only [DomForest.bare, visitParticleChildren, inlineType, typeContent, visitComplexContent,
      extensionContent,
      visitComplexRestrictionContent, particles, inline, content, complex, extension, restriction, particles', inline',
      content', complex', extension', restriction', attributes, simple, implies_true, and_self]

theorem visit_bare (schema : RawSchema) (node : DomNode) :
    schema.visit node.bare = schema.visit node := by
  obtain ⟨particles, inline, content, _⟩ := particles_bare node.children
  have element : visitElement node.bare = visitElement node :=
    by simp [visitElement, DomNode.bare, inline]
  have attributes : visitAttributes node.bare.children = visitAttributes node.children := by
    simp [visitAttributes, DomNode.bare, DomForest.elements_bare, List.filterMap_map,
      Function.comp_def]
  have complex : visitComplexType node.bare = visitComplexType node := by
    rw [visitComplexType, attributes]
    simp [visitComplexType, DomNode.bare, content]
  have group : visitGroupDef node.bare = visitGroupDef node := by
    simp [visitGroupDef, groupContent, DomNode.bare, DomForest.elements_bare, List.foldl_map,
      fun f : DomForest => (particles_bare f).1]
  have attributeGroup : visitAttributeGroupDef node.bare = visitAttributeGroupDef node := by
    simp [visitAttributeGroupDef, DomNode.bare, DomForest.elements_bare, List.filterMap_map,
      Function.comp_def]
    rfl
  unfold RawSchema.visit
  rw [element, complex, group, attributeGroup]
  rfl

/-- A schema is read from its elements alone. -/
theorem parseSchema_bare (node : DomNode) : parseSchema node.bare = parseSchema node := by
  change node.children.bare.elements.foldl RawSchema.visit _ = node.children.elements.foldl RawSchema.visit _
  rw [DomForest.elements_bare, List.foldl_map]
  simp only [visit_bare]
  rfl

theorem parseSchema_sameTree {a b : DomNode} (same : a.SameTree b) :
    parseSchema a = parseSchema b := by
  rw [← parseSchema_bare a, ← parseSchema_bare b, DomNode.bare, DomNode.bare, same.1,
    ← a.children.bare_normal, ← b.children.bare_normal, same.2]

end Xsd

namespace Wsdl

open SoapServer.Tree

/-! The written form, as a document. -/

def nsAttribute (d : Option Text × Text) : Attribute :=
  ⟨match d.1 with
    | some p => "xmlns:".toList ++ p
    | none => "xmlns".toList, d.2⟩

def plainAttribute (a : DomAttribute) : Attribute := ⟨a.name, a.value⟩

def writtenTag (e : DomElement) : Tag :=
  ⟨qualifiedName e, e.namespaces.map nsAttribute ++ e.attributes.map plainAttribute⟩

def written : DomForest → Content
  | .nil => .nil
  | .text s rest => Content.prependText s (written rest)
  | .other rest => written rest
  | .element e children rest =>
    if children = .nil then .empty (writtenTag e) (written rest)
    else .element (writtenTag e) (written children) (written rest)

theorem serializeNs_eq (d : Option Text × Text) : serializeNs d = (nsAttribute d).write := by
  obtain ⟨_ | p, uri⟩ := d
  · rfl
  · simp [serializeNs, nsAttribute, Attribute.write]

theorem serializeAttribute_eq (a : DomAttribute) :
    serializeAttribute a = (plainAttribute a).write := by
  simp [serializeAttribute, plainAttribute, Attribute.write]

theorem writtenTag_writeBody (e : DomElement) : (writtenTag e).writeBody =
    qualifiedName e ++ e.namespaces.flatMap serializeNs ++ e.attributes.flatMap serializeAttribute := by
  simp only [Tag.writeBody, writtenTag, List.flatMap_append, List.flatMap_map, ← serializeNs_eq,
    ← serializeAttribute_eq, List.append_assoc]

/-- What `node_to_string` writes is the plain written form of a document. -/
theorem serializeForest_eq (f : DomForest) : serializeForest f = (written f).write := by
  induction f with
  | nil => rfl
  | text s rest ih => rw [serializeForest, written, Content.prependText_write, ih]
  | other rest ih => exact ih
  | element e children rest kidsIH restIH =>
    rw [serializeForest, written, restIH]
    by_cases empty : children = .nil
    · simp [if_pos empty, Content.write, writtenTag_writeBody]
    · rw [if_neg empty, if_neg empty, Content.write, writtenTag_writeBody, kidsIH]
      simp [closeTag, writtenTag]

def writtenRoot (node : DomNode) : Element :=
  ⟨writtenTag node.element, if node.children = .nil then none else some (written node.children)⟩

theorem nodeToString_eq (node : DomNode) : nodeToString node = (writtenRoot node).alone.write := by
  rw [nodeToString, serializeForest_eq, written]
  unfold writtenRoot
  split <;> rfl

/-! What reads as itself. -/

/-- An attribute value that stands for itself between double quotes. -/
def LiteralValue (v : Text) : Prop := ∀ c ∈ v, c ∉ ['"', '<', '&', '\t', '\n', '\r']

instance (v : Text) : Decidable (LiteralValue v) := by unfold LiteralValue; infer_instance

/-- Character data that stands for itself. -/
def LiteralText (s : Text) : Prop := (∀ c ∈ s, c ∉ ['<', '&', '\r']) ∧ ¬ HoldsSectionEnd s

instance (s : Text) : Decidable (LiteralText s) := by unfold LiteralText; infer_instance

structure LiteralElement (e : DomElement) : Prop where
  listed : ∀ uri ∈ e.ns, ∃ d ∈ e.namespaces, d.2 = uri
  namespaces : ∀ d ∈ e.namespaces, LiteralValue d.2
  attributes : ∀ a ∈ e.attributes, a.ns = none ∧ LiteralValue a.value

instance (e : DomElement) : Decidable (LiteralElement e) :=
  decidable_of_iff ((∀ uri ∈ e.ns, ∃ d ∈ e.namespaces, d.2 = uri) ∧ (∀ d ∈ e.namespaces, LiteralValue d.2) ∧
      ∀ a ∈ e.attributes, a.ns = none ∧ LiteralValue a.value)
    ⟨fun h => ⟨h.1, h.2.1, h.2.2⟩, fun h => ⟨h.listed, h.namespaces, h.attributes⟩⟩

def LiteralForest : DomForest → Prop
  | .nil => True
  | .text s rest => LiteralText s ∧ LiteralForest rest
  | .other rest => LiteralForest rest
  | .element e children rest => LiteralElement e ∧ LiteralForest children ∧ LiteralForest rest

instance decidableLiteralForest : (f : DomForest) → Decidable (LiteralForest f)
  | .nil => inferInstanceAs (Decidable True)
  | .text s rest =>
    have := decidableLiteralForest rest
    inferInstanceAs (Decidable (LiteralText s ∧ LiteralForest rest))
  | .other rest => decidableLiteralForest rest
  | .element e children rest =>
    have := decidableLiteralForest children
    have := decidableLiteralForest rest
    inferInstanceAs (Decidable (LiteralElement e ∧ LiteralForest children ∧ LiteralForest rest))

theorem LiteralValue.absent {v : Text} (literal : LiteralValue v) {c : Char}
    (special : c ∈ ['"', '<', '&', '\t', '\n', '\r']) :
    c ∉ v := fun member => literal c member special

theorem LiteralValue.attributeValue_eq {v : Text} (literal : LiteralValue v)
    (deref : Text → Option Text) :
    attributeValue deref v = v := by
  have spaces : (v.map fun c => if c = '\t' ∨ c = '\n' then ' ' else c) = v := by
    refine (List.map_congr_left fun c member => if_neg ?_).trans (List.map_id v)
    rintro (rfl | rfl)
    · exact literal _ member (by decide)
    · exact literal _ member (by decide)
  rw [attributeValue, normalizeLines_of_literal (literal.absent (by decide)), spaces, decodeValue,
    decodeFrom_of_noReference _ (literal.absent (by decide))]

variable {inherited : Namespaces} {e : DomElement}

/-! One tag, read again. -/

theorem nsAttribute_declares (d : Option Text × Text) :
    (nsAttribute d).declares = some (d.1.getD []) := by
  obtain ⟨_ | p, uri⟩ := d
  · exact if_pos rfl
  · have different : "xmlns:".toList ++ p ≠ "xmlns".toList := by simp
    rw [Attribute.declares, nsAttribute, if_neg different, stripPrefix_append]
    rfl

theorem declaredBy_nsAttribute (deref : Text → Option Text) {d : Option Text × Text}
    (proper : ProperDeclaration d) (literal : LiteralValue d.2) :
    declaredBy deref (nsAttribute d) = some d := by
  have value : attributeValue deref (nsAttribute d).value = d.2 := literal.attributeValue_eq deref
  rw [declaredBy, nsAttribute_declares, value]
  obtain ⟨_ | p, uri⟩ := d
  · exact if_neg (show ¬ ([] : Text) = "xml".toList by decide)
  · obtain ⟨name, notXml, _⟩ := proper.pre p rfl
    have filled : p ≠ [] := fun empty => by subst empty; exact name
    simp only [Option.getD_some]
    rw [if_neg notXml, if_neg filled]

theorem plainAttribute_declares {a : DomAttribute} (name : IsNcName a.name)
    (notXmlns : a.name ≠ "xmlns".toList) :
    (plainAttribute a).declares = none := by
  have noPrefix : stripPrefix "xmlns:".toList a.name = none := by
    cases found : stripPrefix "xmlns:".toList a.name with
    | none => rfl
    | some rest =>
      rw [stripPrefix_eq_some] at found
      exact absurd (found ▸ (by simp : ':' ∈ "xmlns:".toList ++ rest)) name.no_colon
  rw [Attribute.declares, plainAttribute, if_neg notXmlns, noPrefix]

theorem ownNamespaces_writtenTag (deref : Text → Option Text) (within : ScopedElement inherited e)
    (literal : LiteralElement e) : ownNamespaces deref (writtenTag e) = e.namespaces := by
  have first : (e.namespaces.map nsAttribute).filterMap (declaredBy deref) = e.namespaces := by
    rw [List.filterMap_map]
    refine (List.filterMap_congr fun d member => ?_).trans List.filterMap_some
    exact declaredBy_nsAttribute deref (within.namespaces.proper d member) (literal.namespaces d member)
  have second : (e.attributes.map plainAttribute).filterMap (declaredBy deref) = [] := by
    rw [List.filterMap_map, List.filterMap_eq_nil_iff]
    intro a member
    obtain ⟨name, notXmlns, _⟩ := within.attributes a member
    rw [Function.comp_apply, declaredBy,
      plainAttribute_declares name (notXmlns (literal.attributes a member).1)]
  rw [ownNamespaces, writtenTag, List.filterMap_append, first, second, List.append_nil]

theorem plainAttributes_writtenTag (within : ScopedElement inherited e)
    (literal : LiteralElement e) :
    ((writtenTag e).attributes.filter fun a => a.declares = none) = e.attributes.map plainAttribute := by
  have first : ((e.namespaces.map nsAttribute).filter fun a => a.declares = none) = [] := by
    rw [List.filter_eq_nil_iff]
    intro a member
    obtain ⟨d, among, rfl⟩ := List.mem_map.mp member
    simp [nsAttribute_declares]
  have second : ((e.attributes.map plainAttribute).filter fun a => a.declares = none) =
      e.attributes.map plainAttribute := by
    rw [List.filter_eq_self]
    intro a member
    obtain ⟨attr, among, rfl⟩ := List.mem_map.mp member
    obtain ⟨name, notXmlns, _⟩ := within.attributes attr among
    simp [plainAttribute_declares name (notXmlns (literal.attributes attr among).1)]
  rw [writtenTag, List.filter_append, first, second, List.nil_append]

theorem attributeOf_plainAttribute (deref : Text → Option Text) (namespaces : Namespaces)
    {a : DomAttribute} (name : IsNcName a.name) (noNs : a.ns = none)
    (literal : LiteralValue a.value) :
    attributeOf deref namespaces (plainAttribute a) = some a := by
  have value : attributeValue deref (plainAttribute a).value = a.value :=
    literal.attributeValue_eq deref
  rw [attributeOf, plainAttribute, expandName, splitOnce_none ':' _ name.no_colon]
  rw [plainAttribute] at value
  simp only [Option.map_some, value]
  rw [← noNs]

/-- The prefix that is chosen gives the element its namespace back. -/
theorem expandName_qualifiedName (within : ScopedElement inherited e) (literal : LiteralElement e) :
    expandName e.namespaces (defaultNamespace e.namespaces) (qualifiedName e) = some (e.ns, e.name) := by
  have unprefixed : splitOnce ':' e.name = none := splitOnce_none ':' _ within.name.no_colon
  cases given : e.ns with
  | none =>
    rw [qualifiedName, nsOrEmpty, given, Option.getD_none, findPrefixForNs, if_pos rfl]
    simp only [expandName, unprefixed, within.noNamespace given]
  | some uri =>
    have filled : uri ≠ [] := fun empty => within.nonempty (by rw [given, empty])
    obtain ⟨d, found⟩ : ∃ d, e.namespaces.find? (fun ns => ns.2 = uri) = some d := by
      obtain ⟨d, member, same⟩ := literal.listed uri given
      exact Option.isSome_iff_exists.mp (List.find?_isSome.mpr ⟨d, member, by simpa using same⟩)
    have member := List.mem_of_find?_eq_some found
    obtain rfl : d.2 = uri := by simpa using List.find?_some found
    have bound := within.namespaces.lookup_eq member
    rw [qualifiedName, nsOrEmpty, given, Option.getD_some, findPrefixForNs, if_neg filled, found]
    obtain ⟨_ | p, uri⟩ := d
    · simp only [Option.map_some, Option.getD_none, if_true, expandName, unprefixed,
        defaultNamespace]
      rw [bound, Option.filter_some, if_pos (by simpa using filled)]
    · obtain ⟨name, notXml, _⟩ := (within.namespaces.proper _ member).pre p rfl
      have nonempty : p ≠ [] := fun empty => by subst empty; exact name
      simp only [Option.map_some, Option.getD_some, if_neg nonempty, expandName,
        splitOnce_append ':' p e.name name.no_colon, prefixNamespace, if_neg notXml]
      rw [bound, Option.map_some]

theorem qualifiedName_eq (within : ScopedElement inherited e) :
    qualifiedName e = e.name ∨ ∃ p, IsNcName p ∧ qualifiedName e = p ++ ':' :: e.name := by
  unfold qualifiedName
  split
  next pre found =>
    by_cases empty : pre = []
    · exact .inl (if_pos empty)
    · refine .inr ⟨pre, ?_, if_neg empty⟩
      unfold findPrefixForNs at found
      split at found
      next => cases found
      next =>
        obtain ⟨⟨_ | p, uri⟩, given, rfl⟩ := Option.map_eq_some_iff.mp found
        · exact absurd rfl empty
        · exact ((within.namespaces.proper _ (List.mem_of_find?_eq_some given)).pre p rfl).1
  next => exact .inl rfl

theorem qualifiedName_isQName (within : ScopedElement inherited e) : IsQName (qualifiedName e) := by
  rcases qualifiedName_eq within with same | ⟨p, name, same⟩
  · exact same ▸ within.name.isQName
  · exact same ▸ isQName_prefixed name within.name

theorem qualifiedName_isName (within : ScopedElement inherited e) : IsName (qualifiedName e) := by
  rcases qualifiedName_eq within with same | ⟨p, name, same⟩
  · exact same ▸ within.name.isName
  · exact same ▸ isName_prefixed name within.name

/-- The attributes of a written tag, declarations first. -/
theorem mem_writtenTag {a : Attribute} : a ∈ (writtenTag e).attributes ↔
    (∃ d ∈ e.namespaces, nsAttribute d = a) ∨ ∃ attr ∈ e.attributes, plainAttribute attr = a := by
  simp [writtenTag]

theorem nsAttribute_key {d : Option Text × Text} (proper : ProperDeclaration d) :
    (nsAttribute d).key = "xmlns".toList ∨ ∃ p, IsNcName p ∧ (nsAttribute d).key = "xmlns".toList ++ ':' :: p := by
  obtain ⟨_ | p, uri⟩ := d
  · exact .inl rfl
  · exact .inr ⟨p, (proper.pre p rfl).1, rfl⟩

theorem xmlns_isNcName : IsNcName "xmlns".toList := by decide

theorem writtenTag_unique (within : ScopedElement inherited e) (literal : LiteralElement e) :
    (writtenTag e).Unique := by
  let key : Option Text → Text := fun pre => (nsAttribute (pre, [])).key
  have injective : Function.Injective key := by
    rintro (_ | p) (_ | q) same
    · rfl
    · simp [key, nsAttribute] at same
    · simp [key, nsAttribute] at same
    · simpa [key, nsAttribute] using same
  have first : ((e.namespaces.map nsAttribute).map (·.key)).Nodup := by
    have : (e.namespaces.map nsAttribute).map (·.key) = (e.namespaces.map Prod.fst).map key := by
      simp only [List.map_map]
      rfl
    exact this ▸ within.namespaces.distinct.map injective
  have second : ((e.attributes.map plainAttribute).map (·.key)).Nodup := by
    have expanded : e.attributes.map (fun a => (a.ns, a.name)) =
        ((e.attributes.map plainAttribute).map (·.key)).map (Prod.mk none) := by
      simp only [List.map_map]
      exact List.map_congr_left fun a member => Prod.ext (literal.attributes a member).1 rfl
    have distinct := within.distinct
    rw [DistinctAttributes, expanded] at distinct
    exact distinct.of_map _
  rw [Tag.Unique, writtenTag, List.map_append, List.nodup_append]
  refine ⟨first, second, ?_⟩
  rintro _ declares _ plain rfl
  obtain ⟨_, among, same⟩ := List.mem_map.mp plain
  obtain ⟨a, member, rfl⟩ := List.mem_map.mp among
  obtain ⟨_, among, same'⟩ := List.mem_map.mp declares
  obtain ⟨d, declared, rfl⟩ := List.mem_map.mp among
  obtain ⟨name, notXmlns, _⟩ := within.attributes a member
  rcases nsAttribute_key (within.namespaces.proper d declared) with key | ⟨p, _, key⟩
  · exact notXmlns (literal.attributes a member).1 (same.trans (same'.symm.trans key))
  · have key : a.name = "xmlns".toList ++ ':' :: p := same.trans (same'.symm.trans key)
    exact name.no_colon (key ▸ by simp)

theorem writtenTag_proper (deref : Text → Option Text) (within : ScopedElement inherited e)
    (literal : LiteralElement e) : ProperTag deref (writtenTag e) where
  name := qualifiedName_isQName within
  unique := writtenTag_unique within literal
  attributes a member := by
    have proper (key : IsQName a.key) (value : LiteralValue a.value) (chars : ∀ c ∈ a.value, isXmlChar c = true)
        (notXml : a.declares ≠ some "xml".toList) : ProperAttribute deref a :=
      ⟨key, value.absent (by decide), referencesKnown_of_noReference deref (value.absent (by decide)),
        by rwa [value.attributeValue_eq deref], fun same => absurd same notXml⟩
    -- a declaration is written by its prefix, an attribute by its name
    rcases mem_writtenTag.mp member with ⟨d, among, rfl⟩ | ⟨attr, among, rfl⟩
    · have declaration := within.namespaces.proper d among
      refine proper ?_ (literal.namespaces d among) (within.namespaces.chars d among) ?_
      · rcases nsAttribute_key declaration with same | ⟨p, name, same⟩
        · exact same ▸ xmlns_isNcName.isQName
        · exact same ▸ isQName_prefixed xmlns_isNcName name
      · rw [nsAttribute_declares]
        intro same
        obtain ⟨_ | p, uri⟩ := d
        · exact absurd (Option.some.inj same) (show ¬ ([] : Text) = "xml".toList by decide)
        · exact (declaration.pre p rfl).2.1 (Option.some.inj same)
    · obtain ⟨name, notXmlns, chars⟩ := within.attributes attr among
      refine proper name.isQName (literal.attributes attr among).2 chars ?_
      rw [plainAttribute_declares name (notXmlns (literal.attributes attr among).1)]
      simp
  own := by
    rw [ownNamespaces_writtenTag deref within literal]
    exact within.namespaces.distinct
  declarations := by
    rw [ownNamespaces_writtenTag deref within literal]
    exact within.namespaces.proper

/-- A tag that is written reads as the element it was written for. -/
theorem elementOf_writtenTag (deref : Text → Option Text) (within : ScopedElement inherited e)
    (literal : LiteralElement e) : elementOf deref inherited (writtenTag e) = some e := by
  have scope : inScope inherited (ownNamespaces deref (writtenTag e)) = e.namespaces := by
    have covered : (inherited.filter fun d => d.1 ∉ e.namespaces.map Prod.fst) = [] := by
      rw [List.filter_eq_nil_iff]
      intro d member
      simpa using within.covers d member
    rw [ownNamespaces_writtenTag deref within literal, inScope, covered, List.append_nil]
  have attributes := Traversals.mapM_map_eq_some fun a member =>
    attributeOf_plainAttribute deref e.namespaces
    (within.attributes a member).1 (literal.attributes a member).1 (literal.attributes a member).2
  have name : expandName e.namespaces (defaultNamespace e.namespaces) (writtenTag e).name = some (e.ns, e.name) :=
    expandName_qualifiedName within literal
  simp only [elementOf, scope, name, plainAttributes_writtenTag within literal, attributes,
    Option.bind_eq_bind, Option.bind_some]
  rw [if_pos ⟨writtenTag_proper deref within literal, within.distinct⟩]

/-! The whole forest, read again. -/

/-- The text that a document begins with. -/
def headText : Content → Option Text
  | .data (.text s) _ => some s
  | .nil | .data _ _ | .empty _ _ | .element _ _ _ => none

theorem headText_prependText (s : Text) (c : Content) :
    headText (Content.prependText s c) = (headText c).elim (if s = [] then none else some s) fun t => some (s ++ t) := by
  unfold Content.prependText
  split
  next t rest => rfl
  next noText =>
    have none : headText c = none := by
      unfold headText
      split
      next t rest => exact absurd rfl (noText t rest)
      all_goals rfl
    rw [none]
    split
    next => exact none
    next => rfl

theorem headText_prepend (s : Text) (f : DomForest) :
    (f.prepend s).headText = f.headText.elim (if s = [] then none else some s) fun t => some (s ++ t) := by
  cases f with
  | text t rest => rfl
  | nil | other _ | element _ _ _ =>
    by_cases empty : s = []
    · simp [DomForest.prepend, DomForest.headText, empty]
    · simp [DomForest.prepend, DomForest.headText, empty]

theorem headText_written (f : DomForest) : headText (written f) = f.normal.headText := by
  induction f with
  | nil => rfl
  | text s rest ih => rw [written, DomForest.normal, headText_prependText, headText_prepend, ih]
  | other rest ih => exact ih
  | element e children rest _ _ =>
    rw [written]
    split <;> rfl

theorem LiteralForest.of_prepend {f : DomForest} {s : Text}
    (literal : LiteralForest (f.prepend s)) :
    LiteralForest f := by
  cases f with
  | text t rest =>
    obtain ⟨⟨plain, noEnd⟩, after⟩ := literal
    exact ⟨⟨fun c member => plain c (List.mem_append_right _ member),
      fun holds => noEnd (holds.trans List.infix_append_right)⟩, after⟩
  | nil | other _ | element _ _ _ =>
    by_cases empty : s = []
    · simpa [empty] using literal
    · rw [DomForest.prepend, if_neg empty] at literal
      · exact literal.2
      · simp

theorem LiteralForest.plain_of_prepend {f : DomForest} {s : Text}
    (literal : LiteralForest (f.prepend s)) :
    ∀ c ∈ s, c ∉ ['<', '&', '\r'] := by
  intro c member
  cases f with
  | text t rest => exact literal.1.1 c (List.mem_append_left _ member)
  | nil | other _ | element _ _ _ =>
    have filled : s ≠ [] := List.ne_nil_of_mem member
    rw [DomForest.prepend, if_neg filled] at literal
    · exact literal.1.1 c member
    · simp

theorem forestOf_text {deref : Text → Option Text} {c : Content} {f : DomForest} {s : Text}
    (run : forestOf deref inherited c = some f) (literal : LiteralText s)
    (chars : ∀ d ∈ s, isXmlChar d = true) :
    forestOf deref inherited (.data (.text s) c) = some (f.prepend s) := by
  have lines : normalizeLines s = s := normalizeLines_of_literal fun member =>
    literal.1 _ member (by decide)
  simp only [forestOf, run, Option.bind_eq_bind, Option.bind_some, textOf, if_neg literal.2, lines]
  exact if_pos chars

theorem forestOf_data_eq_some {deref : Text → Option Text} {rest : Content} {f : DomForest}
    {s : Text} (run : forestOf deref inherited (.data (.text s) rest) = some f) :
    ∃ after, forestOf deref inherited rest = some after ∧ f = after.prepend (normalizeLines s) ∧
      ∀ d ∈ normalizeLines s, isXmlChar d = true := by
  simp only [forestOf, Option.bind_eq_bind, Option.bind_eq_some_iff, textOf] at run
  obtain ⟨after, restRun, lines, same, run⟩ := run
  split at same
  next => cases same
  next =>
    cases same
    split at run
    next chars => cases run; exact ⟨after, restRun, rfl, chars⟩
    next => cases run

/-- Text that is put before a document comes before its tree. -/
theorem forestOf_prependText {deref : Text → Option Text} {c : Content} {f : DomForest} {s : Text}
    (run : forestOf deref inherited c = some f) (same : headText c = f.headText)
    (literal : LiteralForest (f.prepend s)) (chars : ∀ d ∈ s, isXmlChar d = true) :
    forestOf deref inherited (Content.prependText s c) = some (f.prepend s) := by
  unfold Content.prependText
  split
  next t rest =>
    -- the two runs of text are one, on both sides
    obtain ⟨after, restRun, tree, tailChars⟩ := forestOf_data_eq_some run
    obtain ⟨g, rfl⟩ : ∃ g, f = .text t g := by
      cases f with
      | text u g => exact ⟨g, by cases same; rfl⟩
      | nil | other _ | element _ _ _ => cases same
    have joined : LiteralText (s ++ t) := literal.1
    have lines : normalizeLines t = t := normalizeLines_of_literal fun member =>
      joined.1 _ (List.mem_append_right _ member) (by decide)
    rw [lines] at tree tailChars
    rw [forestOf_text restRun joined, tree, DomForest.prepend_prepend]
    intro d member
    rcases List.mem_append.mp member with member | member
    · exact chars d member
    · exact tailChars d member
  next noText =>
    by_cases empty : s = []
    · rw [if_pos empty, empty, DomForest.prepend_nil, run]
    · have head : f.headText = none := by
        rw [← same]
        unfold headText
        split
        next t rest => exact absurd rfl (noText t rest)
        all_goals rfl
      have apart : f.prepend s = .text s f := by
        cases f with
        | text u g => cases head
        | nil | other _ | element _ _ _ => simp only [DomForest.prepend, if_neg empty]
      rw [if_neg empty]
      exact forestOf_text run (apart ▸ literal).1 chars

theorem forestOf_written (deref : Text → Option Text) {f : DomForest} (within : f.Scoped inherited)
    (literal : LiteralForest f.normal) : forestOf deref inherited (written f) = some f.normal := by
  induction f generalizing inherited with
  | nil => rfl
  | text s rest ih =>
    exact forestOf_prependText (ih within.2 literal.of_prepend) (headText_written rest) literal within.1
  | other rest ih => exact ih within literal
  | element e children rest kidsIH restIH =>
    obtain ⟨element, below, after⟩ := within
    obtain ⟨literal, literalBelow, literalAfter⟩ := literal
    have tag := elementOf_writtenTag deref element literal
    rw [written]
    split
    next empty =>
      subst empty
      simp only [forestOf, Option.bind_eq_bind, tag, restIH after literalAfter, Option.bind_some]
      rfl
    next =>
      simp only [forestOf, Option.bind_eq_bind, tag, kidsIH below literalBelow,
        restIH after literalAfter, Option.bind_some]
      rfl

/-! The written form is a literal document. -/

theorem written_normal (f : DomForest) : (written f).Normal := by
  induction f with
  | nil => trivial
  | text s rest ih => exact Content.prependText_normal s ih
  | other rest ih => exact ih
  | element e children rest kidsIH restIH =>
    rw [written]
    split
    · exact restIH
    · exact ⟨kidsIH, restIH⟩

theorem written_allTags {P : Tag → Prop} {f : DomForest}
    (tags : ∀ inherited e, ScopedElement inherited e → LiteralElement e → P (writtenTag e))
    (within : f.Scoped inherited) (literal : LiteralForest f.normal) : (written f).AllTags P := by
  induction f generalizing inherited with
  | nil => trivial
  | text s rest ih => exact (Content.prependText_allTags P s _).mpr (ih within.2 literal.of_prepend)
  | other rest ih => exact ih within literal
  | element e children rest kidsIH restIH =>
    have tag := tags inherited e within.1 literal.1
    have after := restIH within.2.2 literal.2.2
    rw [written]
    split
    · exact ⟨tag, after⟩
    · exact ⟨tag, kidsIH within.2.1 literal.2.1, after⟩

def LiteralData : Data → Prop
  | .text s => ∀ c ∈ s, c ∉ ['<', '&', '\r']
  | _ => False

theorem written_allData {f : DomForest} (literal : LiteralForest f.normal) :
    (written f).AllData LiteralData := by
  induction f with
  | nil => trivial
  | text s rest ih =>
    refine Content.prependText_allData ?_ literal.plain_of_prepend (ih literal.of_prepend)
    intro s t first second c member
    rcases List.mem_append.mp member with member | member
    · exact first c member
    · exact second c member
  | other rest ih => exact ih literal
  | element e children rest kidsIH restIH =>
    rw [written]
    split
    · exact restIH literal.2.2
    · exact ⟨kidsIH literal.2.1, restIH literal.2.2⟩

theorem writtenTag_lexical (within : ScopedElement inherited e) (literal : LiteralElement e) :
    (writtenTag e).Lexical := by
  refine ⟨qualifiedName_isName within, fun a member => ?_⟩
  rcases mem_writtenTag.mp member with ⟨d, among, rfl⟩ | ⟨attr, among, rfl⟩
  · refine ⟨?_, (literal.namespaces d among).absent (by decide)⟩
    rcases nsAttribute_key (within.namespaces.proper d among) with same | ⟨p, name, same⟩
    · exact same ▸ xmlns_isNcName.isName
    · exact same ▸ isName_prefixed xmlns_isNcName name
  · exact ⟨(within.attributes attr among).1.isName,
      (literal.attributes attr among).2.absent (by decide)⟩

theorem writtenTag_absent (literal : LiteralElement e) {c : Char}
    (special : c ∈ ['"', '<', '&', '\t', '\n', '\r']) :
    ∀ a ∈ (writtenTag e).attributes, c ∉ a.value := by
  intro a member
  rcases mem_writtenTag.mp member with ⟨d, among, rfl⟩ | ⟨attr, among, rfl⟩
  · exact (literal.namespaces d among).absent special
  · exact (literal.attributes attr among).2.absent special

theorem writtenRoot_alone (node : DomNode) :
    (writtenRoot node).alone = written (.element node.element node.children .nil) := by
  rw [written]
  unfold writtenRoot
  split <;> rfl

theorem LiteralData.lexical {d : Data} (literal : LiteralData d) : d.Lexical := by
  cases d with
  | text s =>
    refine fun c member => ⟨?_, ?_⟩
    · rintro rfl
      exact literal _ member (by decide)
    · rintro rfl
      exact literal _ member (by decide)
  | cdata _ | generalRef _ | comment _ | pi _ | decl _ | docType _ => exact literal.elim

theorem LiteralData.isText {d : Data} (literal : LiteralData d) : ∃ raw, d = .text raw := by
  cases d with
  | text s => exact ⟨s, rfl⟩
  | cdata _ | generalRef _ | comment _ | pi _ | decl _ | docType _ => exact literal.elim

theorem writtenRoot_literal {node : DomNode} (within : ScopedElement inherited node.element)
    (below : node.children.Scoped node.element.namespaces) (literal : LiteralElement node.element)
    (literalBelow : LiteralForest node.children.normal) : Literal (writtenRoot node) := by
  have whole : (DomForest.element node.element node.children .nil).Scoped inherited :=
    ⟨within, below, trivial⟩
  have plain : LiteralForest (DomForest.element node.element node.children .nil).normal :=
    ⟨literal, literalBelow, trivial⟩
  have data := written_allData plain
  have same := writtenRoot_alone node
  refine ⟨⟨?_, ?_, ?_⟩, ?_, ?_, ?_⟩ <;> rw [same]
  · exact written_allTags (fun _ _ => writtenTag_lexical) whole plain
  · exact written_allTags (fun _ _ _ literal => writtenTag_absent literal (by decide)) whole plain
  · exact data.mono fun _ => LiteralData.lexical
  · exact written_normal _
  · exact written_allTags (fun _ _ _ literal => writtenTag_absent literal (by decide)) whole plain
  · exact data.mono fun _ => LiteralData.isText

/-! The round trip. -/

/-- Written out and read again, the schema is the same tree and has the same components. -/
def RoundTrips (parseXml : TreeParser) (schema : DomNode) : Prop :=
  ∃ again, parseXml (nodeToString schema) = .ok again ∧ again.SameTree schema ∧
    Xsd.parseSchema again = Xsd.parseSchema schema

/-- The schema holds nothing that is written otherwise than it stands. -/
def LiteralSchema (schema : DomNode) : Prop := LiteralElement schema.element ∧ LiteralForest schema.children.normal

instance (schema : DomNode) : Decidable (LiteralSchema schema) := by unfold LiteralSchema; infer_instance

theorem scoped_of_mem {f : DomForest} (within : f.Scoped inherited) {node : DomNode}
    (member : node ∈ f.elements) :
    ScopedElement inherited node.element ∧ node.children.Scoped node.element.namespaces := by
  induction f with
  | nil => cases member
  | text _ rest ih => exact ih within.2 member
  | other rest ih => exact ih within member
  | element e children rest _ ih =>
    rcases List.mem_cons.mp member with rfl | member
    · exact ⟨within.1, within.2.1⟩
    · exact ih within.2.2 member

theorem literal_roundTrips {parseXml : TreeParser} (lawful : TreeParser.Lawful parseXml)
    {bytes : Text} {root types schema : DomNode} (parsed : parseXml bytes = .ok root)
    (bound : root.PrefixesBound) (typesIn : types ∈ root.children.elements)
    (schemaIn : schema ∈ types.children.elements) (literal : LiteralSchema schema) :
    RoundTrips parseXml schema := by
  obtain ⟨deref, document, tree⟩ := lawful.trees bytes root parsed bound
  obtain ⟨inTypes, below⟩ := scoped_of_mem (scoped_of_mem (documentTree_scoped tree).2 typesIn).2 schemaIn
  -- read again, the schema is a root that inherits nothing
  have asRoot : ScopedElement [] schema.element := { inTypes with covers := by simp }
  have whole : (DomForest.element schema.element schema.children .nil).Scoped [] :=
    ⟨asRoot, below, trivial⟩
  have plain : LiteralForest (DomForest.element schema.element schema.children .nil).normal :=
    ⟨literal.1, literal.2, trivial⟩
  have again : documentTree deref (writtenRoot schema) = some ⟨schema.element, schema.children.normal⟩ := by
    rw [documentTree, writtenRoot_alone, forestOf_written deref whole plain]
    rfl
  have same : DomNode.SameTree ⟨schema.element, schema.children.normal⟩ schema :=
    ⟨rfl, schema.children.normal_normal⟩
  refine ⟨_, ?_, same, Xsd.parseSchema_sameTree same⟩
  rw [nodeToString_eq]
  exact lawful.written deref _ _ (writtenRoot_literal asRoot below literal.1 literal.2) again

/-! A default value with an ampersand, and one without. -/

/-- A WSDL whose one schema declares an element with the given default value, as written. -/
def defaultWsdl (value : Text) : Text :=
  "<definitions xmlns=\"http://schemas.xmlsoap.org/wsdl/\" xmlns:xs=\"http://www.w3.org/2001/XMLSchema\"><types>".toList ++
    "<xs:schema targetNamespace=\"urn:a\"><xs:element name=\"dept\" default=\"".toList ++ value ++
    "\"/></xs:schema></types></definitions>".toList

theorem ampersand_unreadable :
    ∃ root types schema, scanTree (defaultWsdl "R&amp;D".toList) = .ok root ∧
    types ∈ root.children.elements ∧ schema ∈ types.children.elements ∧
      (∃ e, scanTree (nodeToString schema) = .error e) ∧ ¬ RoundTrips scanTree schema := by
  have evaluated : ∃ root, scanTree (defaultWsdl "R&amp;D".toList) = .ok root ∧
      ∃ types ∈ root.children.elements, ∃ schema ∈ types.children.elements,
        (scanTree (nodeToString schema)).toBool = false := by decide +kernel
  obtain ⟨root, parsed, types, typesIn, schema, schemaIn, unreadable⟩ := evaluated
  cases again : scanTree (nodeToString schema) with
  | error e =>
    refine ⟨root, types, schema, parsed, typesIn, schemaIn, ⟨e, again⟩, ?_⟩
    rintro ⟨node, read, _⟩
    cases again.symm.trans read
  | ok node => rw [again] at unreadable; cases unreadable

theorem plainDefault_roundTrips :
    ∃ root types schema, scanTree (defaultWsdl "R and D".toList) = .ok root ∧
    types ∈ root.children.elements ∧ schema ∈ types.children.elements ∧ LiteralSchema schema ∧
      RoundTrips scanTree schema := by
  have evaluated : ∃ root, scanTree (defaultWsdl "R and D".toList) = .ok root ∧ root.PrefixesBound ∧
      ∃ types ∈ root.children.elements, ∃ schema ∈ types.children.elements, LiteralSchema schema :=
        by decide +kernel
  obtain ⟨root, parsed, bound, types, typesIn, schema, schemaIn, literal⟩ := evaluated
  exact ⟨root, types, schema, parsed, typesIn, schemaIn, literal,
    literal_roundTrips scanTree_lawful parsed bound typesIn schemaIn literal⟩

end Wsdl

end SoapServer
