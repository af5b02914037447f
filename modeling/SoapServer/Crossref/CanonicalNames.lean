import SoapServer.Crossref.CanonicalForm

/-! The names of a document in canonical form: each canonical name is read back as the expanded
name it stands for, so that the form of the form has the same prefixes.
-/

set_option autoImplicit false

namespace SoapServer.Crossref

open Markup hiding localName

variable {prefixes : PrefixMap} {scope outer : Scope} {tag : Tag} {isRoot : Bool}
    {x y : ExpandedName}
  {attributes : List (ExpandedName × Text)} {c c' : Content}

/-! One name. -/

/-- A name that its canonical form gives back: the prefixes have its namespace. -/
structure Nameable (prefixes : PrefixMap) (x : ExpandedName) : Prop where
  localPart : IsNcName x.localName
  ns : x.ns = .unbound ∨ x.ns = .bound xmlNamespace ∨
    ∃ uri i, x.ns = .bound uri ∧ uri ≠ [] ∧ uri ≠ xmlNamespace ∧ prefixes.lookup uri = some (indexPrefix i)

/-- A canonical name has no prefix, or one that the root binds. -/
theorem Nameable.split (nameable : Nameable prefixes x) (proper : ProperMap prefixes) :
    (x.ns = .unbound ∧ canonName prefixes x = x.localName) ∨
      ∃ p uri, x.ns = .bound uri ∧ canonName prefixes x = p ++ ':' :: x.localName ∧ IsNcName p ∧ uri ≠ [] ∧
        (rootScope prefixes).lookup p = some uri ∧ (p = xmlText ∨ ∃ i, p = indexPrefix i) := by
  unfold canonName
  rcases nameable.ns with unbound | xml | ⟨uri, i, bound, nonempty, notXml, found⟩
  · rw [unbound]
    exact .inl ⟨rfl, rfl⟩
  · rw [xml]
    exact .inr ⟨xmlText, xmlNamespace, rfl, rfl, by decide, by decide, rootScope_xml proper,
      .inl rfl⟩
  · rw [bound]
    refine .inr ⟨indexPrefix i, uri, rfl, ?_, indexPrefix_ncName i, nonempty,
      rootScope_lookup proper found, .inr ⟨i, rfl⟩⟩
    simp only [if_neg notXml, found, Option.getD_some]
    rfl

theorem Nameable.isQName (nameable : Nameable prefixes x) (proper : ProperMap prefixes) :
    IsQName (canonName prefixes x) := by
  rcases nameable.split proper with ⟨_, same⟩ | ⟨p, uri, _, same, isName, _⟩
  · rw [same]
    exact nameable.localPart.isQName
  · rw [same]
    exact isQName_prefixed isName nameable.localPart

theorem resolvePrefix_of_lookup {p uri : Text} (found : scope.lookup p = some uri)
    (nonempty : uri ≠ []) :
    resolvePrefix scope p = .bound uri := by
  obtain ⟨c, rest, rfl⟩ := List.exists_cons_of_ne_nil nonempty
  rw [resolvePrefix, found]

/-- Read in the scope of the root, a canonical name is the name it stands for. -/
theorem Nameable.resolved (nameable : Nameable prefixes x) (proper : ProperMap prefixes) :
    resolveElement (rootScope prefixes) (canonName prefixes x) = x.ns ∧
      resolveAttribute (rootScope prefixes) (canonName prefixes x) = x.ns ∧
        Markup.localName (canonName prefixes x) = x.localName := by
  rw [resolveElement, resolveAttribute, Markup.localName]
  rcases nameable.split proper with ⟨unbound, same⟩ | ⟨p, uri, bound, same, isName, nonempty, found, _⟩
  · rw [same, splitOnce_none ':' x.localName nameable.localPart.no_colon, unbound]
    simp only [resolveDefault, rootScope_default proper]
    exact ⟨trivial, trivial, trivial⟩
  · rw [same, splitOnce_append ':' p x.localName isName.no_colon, bound]
    simp only [resolvePrefix_of_lookup found nonempty]
    exact ⟨trivial, trivial, trivial⟩

theorem Nameable.elementName_eq (nameable : Nameable prefixes x) (proper : ProperMap prefixes) :
    elementName (rootScope prefixes) (canonName prefixes x) = x := by
  obtain ⟨ns, _, localPart⟩ := nameable.resolved proper
  rw [elementName, ns, localPart]

theorem Nameable.attributeName_eq (nameable : Nameable prefixes x) (proper : ProperMap prefixes) :
    attributeName (rootScope prefixes) (canonName prefixes x) = x := by
  obtain ⟨_, ns, localPart⟩ := nameable.resolved proper
  rw [attributeName, ns, localPart]

theorem canonName_inj (proper : ProperMap prefixes) (first : Nameable prefixes x)
    (second : Nameable prefixes y) (same : canonName prefixes x = canonName prefixes y) :
    x = y := by
  rw [← first.attributeName_eq proper, same, second.attributeName_eq proper]

/-- The name of an attribute other than a declaration. -/
structure AttributeName (prefixes : PrefixMap) (x : ExpandedName) :
    Prop extends Nameable prefixes x where
  notXmlns : x.ns = .unbound → x.localName ≠ "xmlns".toList

theorem declares_unprefixed {key value : Text} (plain : ':' ∉ key) (other : key ≠ "xmlns".toList) :
    (Attribute.mk key value).declares = none := by
  rw [Attribute.declares, if_neg other]
  by_contra found
  obtain ⟨rest, found⟩ := Option.ne_none_iff_exists'.mp found
  have whole : key = "xmlns:".toList ++ rest := stripPrefix_eq_some.mp found
  exact plain (by rw [whole]; simp)

theorem declares_other {p l value : Text} (plain : ':' ∉ p) (other : p ≠ "xmlns".toList) :
    (Attribute.mk (p ++ ':' :: l) value).declares = none := by
  have different : p ++ ':' :: l ≠ "xmlns".toList := fun same =>
    absurd (show ':' ∈ "xmlns".toList by rw [← same]; simp) (by decide)
  rw [Attribute.declares, if_neg different]
  by_contra found
  obtain ⟨rest, found⟩ := Option.ne_none_iff_exists'.mp found
  have whole : p ++ ':' :: l = "xmlns:".toList ++ rest := stripPrefix_eq_some.mp found
  rw [show "xmlns:".toList ++ rest = "xmlns".toList ++ ':' :: rest from rfl] at whole
  have split := splitOnce_append ':' p l plain
  rw [whole, splitOnce_append ':' "xmlns".toList rest (by decide)] at split
  exact other (Prod.mk.inj (Option.some.inj split)).1.symm

theorem AttributeName.declares (name : AttributeName prefixes x) (proper : ProperMap prefixes)
    (value : Text) :
    (Attribute.mk (canonName prefixes x) value).declares = none := by
  rcases name.split proper with ⟨unbound, same⟩ | ⟨p, uri, _, same, isName, _, _, either⟩
  · rw [same]
    exact declares_unprefixed name.localPart.no_colon (name.notXmlns unbound)
  · rw [same]
    refine declares_other isName.no_colon ?_
    rcases either with rfl | ⟨i, rfl⟩
    · decide
    · exact indexPrefix_ne (by decide) i _

/-! One tag. -/

def AttributesNamed (prefixes : PrefixMap) (attributes : List (ExpandedName × Text)) : Prop :=
  ∀ a ∈ attributes, AttributeName prefixes a.1

/-- A tag whose names all have a canonical form. -/
structure NameableTag (prefixes : PrefixMap) (scope : Scope) (tag : Tag) : Prop where
  element : Nameable prefixes (elementName (scope.enter tag.attributes) tag.name)
  notXml : resolveElement (scope.enter tag.attributes) tag.name ≠ .bound xmlNamespace
  attributes : AttributesNamed prefixes (expandedAttributes (scope.enter tag.attributes) tag.attributes)
  distinct : ((expandedAttributes (scope.enter tag.attributes) tag.attributes).map Prod.fst).Nodup

theorem isNcName_localName {name : Text} (isQName : IsQName name) :
    IsNcName (Markup.localName name) := by
  unfold IsQName at isQName
  unfold Markup.localName
  split
  next split =>
    rw [split] at isQName
    exact isQName.2
  next split =>
    rw [split] at isQName
    exact isQName

theorem nameable_of_known (localPart : IsNcName x.localName) (known : x.ns.known = true)
    (bound : ∀ uri, x.ns = .bound uri → uri = xmlNamespace ∨ NamespaceName uri)
    (covers : Covers prefixes (nameUris x)) :
    Nameable prefixes x where
  localPart := localPart
  ns := by
    cases resolved : x.ns with
    | unbound => exact .inl rfl
    | unknown p =>
      rw [resolved] at known
      cases known
    | bound uri =>
      rcases bound uri resolved with rfl | proper
      · exact .inr (.inl rfl)
      · obtain ⟨i, found⟩ := covers uri (mem_nameUris.mpr ⟨resolved, proper.notXml⟩)
        exact .inr (.inr ⟨uri, i, rfl, proper.nonempty, proper.notXml, found⟩)

/-- An attribute name in no namespace has no prefix. -/
theorem key_of_unbound {key : Text} (unbound : resolveAttribute scope key = .unbound) :
    Markup.localName key = key := by
  unfold resolveAttribute at unbound
  unfold Markup.localName
  split at unbound
  next split =>
    unfold resolvePrefix at unbound
    split at unbound <;> cases unbound
  next => rfl

theorem nameableTag_of_accepted (sound : ScopedTag scope tag)
    (proper : ProperScope NamespaceName scope) (accepted : Accepted scope tag)
    (covers : Covers prefixes (tagUris (scope.enter tag.attributes) tag)) :
    NameableTag prefixes scope tag where
  element := nameable_of_known (isNcName_localName sound.name) sound.element
    (fun _ bound => (proper.enter (sound.declares accepted.literal)).element bound)
    fun uri used => covers uri (List.mem_append_left _ used)
  notXml := accepted.notXml
  attributes a member := by
    obtain ⟨raw, among, declared, rfl⟩ := mem_expandedAttributes.mp member
    have isQName := (sound.attributes raw among).1
    have used : attributeName (scope.enter tag.attributes) raw.key ∈ attributeNames (scope.enter tag.attributes) tag.attributes := by
      rw [← expandedAttributes_names]
      exact List.mem_map_of_mem member
    have nameable : Nameable prefixes (attributeName (scope.enter tag.attributes) raw.key) :=
      nameable_of_known (isNcName_localName isQName) (sound.known raw among declared)
        (fun _ bound => (proper.enter (sound.declares accepted.literal)).attribute bound)
        fun uri own => covers uri (List.mem_append_right _ (List.mem_flatMap.mpr ⟨_, used, own⟩))
    refine ⟨nameable, fun unbound same => ?_⟩
    have isXmlns : raw.key = "xmlns".toList := (key_of_unbound unbound).symm.trans same
    rw [Attribute.declares, if_pos isXmlns] at declared
    cases declared
  distinct := by
    rw [expandedAttributes_names]
    exact sound.expanded

/-! The attributes of a canonical tag. -/

theorem perm_canonAttributes (prefixes : PrefixMap) (attributes : List (ExpandedName × Text)) :
    (canonAttributes prefixes attributes).Perm (attributes.map fun a => ⟨canonName prefixes a.1, a.2⟩) :=
  List.perm_insertionSort _ _

theorem mem_canonAttributes {b : Attribute} :
    b ∈ canonAttributes prefixes attributes ↔ ∃ a ∈ attributes, (⟨canonName prefixes a.1, a.2⟩ : Attribute) = b :=
  (perm_canonAttributes prefixes attributes).mem_iff.trans List.mem_map

theorem canonAttributes_sorted (prefixes : PrefixMap) (attributes : List (ExpandedName × Text)) :
    (canonAttributes prefixes attributes).Pairwise fun a b => a.key ≤ b.key :=
  have : Std.Total fun a b : Attribute => a.key ≤ b.key := ⟨fun a b => le_total a.key b.key⟩
  have : IsTrans Attribute fun a b => a.key ≤ b.key := ⟨fun _ _ _ => le_trans⟩
  List.pairwise_insertionSort _ _

theorem rootDeclaration_declares {a : Attribute} (member : a ∈ rootDeclarations prefixes) :
    ∃ p, a.declares = some p := by
  obtain ⟨d, _, rfl⟩ := List.mem_map.mp member
  exact ⟨d.2, declares_prefixed d.2 d.1⟩

theorem rootDeclarations_filter (prefixes : PrefixMap) (isRoot : Bool) :
    (if isRoot then rootDeclarations prefixes else []).filter (fun a => a.declares.isNone) = [] := by
  refine List.filter_eq_nil_iff.mpr fun a member => ?_
  cases isRoot with
  | false => cases member
  | true =>
    obtain ⟨p, declared⟩ := rootDeclaration_declares member
    simp [declared]

theorem written_undeclared (proper : ProperMap prefixes)
    (named : AttributesNamed prefixes attributes) {b : Attribute}
    (member : b ∈ (canonAttributes prefixes attributes).map writtenAttribute) :
    b.declares = none := by
  obtain ⟨_, written, rfl⟩ := List.mem_map.mp member
  obtain ⟨a, among, rfl⟩ := mem_canonAttributes.mp written
  exact (named a among).declares proper _

theorem filter_expandedTag (proper : ProperMap prefixes)
    (named : AttributesNamed prefixes attributes) (isRoot : Bool) :
    (expandedTag prefixes isRoot x attributes).attributes.filter (fun a => a.declares.isNone) =
      (canonAttributes prefixes attributes).map writtenAttribute := by
  rw [expandedTag, List.filter_append, rootDeclarations_filter, List.nil_append]
  refine List.filter_eq_self.mpr fun b member => ?_
  rw [written_undeclared proper named member]
  rfl

/-- The attributes of a canonical tag are those of the tag, in another order and escaped. -/
theorem perm_expandedAttributes (proper : ProperMap prefixes)
    (named : AttributesNamed prefixes attributes) (isRoot : Bool) :
    (expandedAttributes (rootScope prefixes) (expandedTag prefixes isRoot x attributes).attributes).Perm
      (attributes.map fun a => (a.1, writeAttrValue a.2)) := by
  have back : attributes.map (fun a => (a.1, writeAttrValue a.2)) =
      ((attributes.map fun a => (⟨canonName prefixes a.1, a.2⟩ : Attribute)).map writtenAttribute).map
        fun a => (attributeName (rootScope prefixes) a.key, a.value) := by
    rw [List.map_map, List.map_map]
    refine List.map_congr_left fun a member => ?_
    simp only [Function.comp_apply, writtenAttribute, (named a member).attributeName_eq proper]
  rw [expandedAttributes, filter_expandedTag proper named, back]
  exact ((perm_canonAttributes prefixes attributes).map _).map _

/-- The canonical form of a canonical tag: its values are escaped again. -/
theorem canonicalTag_twice (proper : ProperMap prefixes) (nameable : Nameable prefixes x)
    (named : AttributesNamed prefixes attributes) (isRoot : Bool) :
    canonicalTag prefixes isRoot (rootScope prefixes) (expandedTag prefixes isRoot x attributes) =
      ⟨canonName prefixes x, (if isRoot then rootDeclarations prefixes else []) ++
        ((canonAttributes prefixes attributes).map writtenAttribute).map writtenAttribute⟩ := by
  have again : canonAttributes prefixes
      (expandedAttributes (rootScope prefixes) (expandedTag prefixes isRoot x attributes).attributes) =
        (canonAttributes prefixes attributes).map writtenAttribute := by
    rw [canonAttributes, expandedAttributes, filter_expandedTag proper named, List.map_map]
    have same : ((canonAttributes prefixes attributes).map writtenAttribute).map ((fun a => ⟨canonName prefixes a.1, a.2⟩) ∘
        fun a => (attributeName (rootScope prefixes) a.key, a.value)) =
          (canonAttributes prefixes attributes).map writtenAttribute := by
      rw [List.map_map]
      refine List.map_congr_left fun b member => ?_
      obtain ⟨a, among, rfl⟩ := mem_canonAttributes.mp member
      simp only [Function.comp_apply, writtenAttribute, (named a among).attributeName_eq proper]
    rw [same]
    exact List.Pairwise.insertionSort_eq (List.pairwise_map.mpr (canonAttributes_sorted prefixes attributes))
  rw [canonicalTag, expandedTag, again]
  exact congrArg (fun name => Tag.mk (canonName prefixes name) _) (nameable.elementName_eq proper)

/-! Escaped values. -/

theorem attrValueChar_eq_self {c : Char} (noQuote : c ≠ '"') (noTag : c ≠ '<')
    (noAmpersand : c ≠ '&') :
    attrValueChar c = [c] := by
  rw [attrValueChar, if_neg noQuote, if_neg noTag, if_neg noAmpersand]

theorem writeAttrValue_plain {v : Text} (noQuote : '"' ∉ v) (noTag : '<' ∉ v)
    (noAmpersand : '&' ∉ v) :
    writeAttrValue v = v := by
  induction v with
  | nil => rfl
  | cons c rest ih =>
    have first := @attrValueChar_eq_self c (fun same => noQuote (same ▸ .head _)) (fun same => noTag (same ▸ .head _))
      fun same => noAmpersand (same ▸ .head _)
    have more := ih (fun member => noQuote (.tail _ member)) (fun member => noTag (.tail _ member))
      fun member => noAmpersand (.tail _ member)
    rw [writeAttrValue] at more ⊢
    rw [List.flatMap_cons, first, more]
    rfl

theorem attrValueChar_clean {c d : Char} (member : d ∈ attrValueChar c) : d ≠ '"' ∧ d ≠ '<' := by
  unfold attrValueChar at member
  split at member
  · revert d
    decide
  · split at member
    · revert d
      decide
    · split at member
      · revert d
        decide
      · rename_i noQuote noTag _
        obtain rfl := List.mem_singleton.mp member
        exact ⟨noQuote, noTag⟩

/-- An escaped value can stand between double quotes. -/
theorem writeAttrValue_clean (v : Text) : '"' ∉ writeAttrValue v ∧ '<' ∉ writeAttrValue v := by
  have each {d : Char} (member : d ∈ writeAttrValue v) : d ≠ '"' ∧ d ≠ '<' := by
    obtain ⟨c, _, inside⟩ := List.mem_flatMap.mp member
    exact attrValueChar_clean inside
  exact ⟨fun member => (each member).1 rfl, fun member => (each member).2 rfl⟩

theorem length_le_writeAttrValue (v : Text) : v.length ≤ (writeAttrValue v).length := by
  induction v with
  | nil => exact Nat.le_refl 0
  | cons c rest ih =>
    have first : 1 ≤ (attrValueChar c).length := by
      unfold attrValueChar
      split_ifs <;> simp
    rw [writeAttrValue] at ih ⊢
    rw [List.flatMap_cons, List.length_append, List.length_cons]
    omega

theorem length_lt_writeAttrValue {v : Text} (ampersand : '&' ∈ v) :
    v.length < (writeAttrValue v).length := by
  obtain ⟨before, after, rfl⟩ := List.append_of_mem ampersand
  have first := length_le_writeAttrValue before
  have second := length_le_writeAttrValue after
  rw [writeAttrValue] at first second ⊢
  rw [List.flatMap_append, List.flatMap_cons, List.length_append, List.length_append,
    List.length_append, List.length_cons]
  have escaped : (attrValueChar '&').length = 5 := by decide
  omega

theorem ampersand_mem_writeAttrValue {v : Text} (special : '&' ∈ v ∨ '"' ∈ v) :
    '&' ∈ writeAttrValue v := by
  rcases special with member | member
  · exact List.mem_flatMap.mpr ⟨'&', member, by decide⟩
  · exact List.mem_flatMap.mpr ⟨'"', member, by decide⟩

/-- Escaping settles after one run only for a value that it does not change. -/
theorem writeAttrValue_twice_iff {v : Text} (noTag : '<' ∉ v) :
    writeAttrValue (writeAttrValue v) = writeAttrValue v ↔ '&' ∉ v ∧ '"' ∉ v := by
  constructor
  · intro settled
    rw [← not_or]
    intro special
    have longer := length_lt_writeAttrValue (ampersand_mem_writeAttrValue special)
    rw [settled] at longer
    exact Nat.lt_irrefl _ longer
  · rintro ⟨noAmpersand, noQuote⟩
    rw [writeAttrValue_plain noQuote noTag noAmpersand,
      writeAttrValue_plain noQuote noTag noAmpersand]

/-! A canonical tag is a tag of a document. -/

/-- The scope around a canonical tag: the root declares what is used inside. -/
def outerScope (prefixes : PrefixMap)
    (isRoot : Bool) : Scope := if isRoot then Scope.initial else rootScope prefixes

theorem enter_expandedTag (proper : ProperMap prefixes)
    (named : AttributesNamed prefixes attributes) (isRoot : Bool) :
    (outerScope prefixes isRoot).enter (expandedTag prefixes isRoot x attributes).attributes = rootScope prefixes := by
  have own : declarations ((canonAttributes prefixes attributes).map writtenAttribute) = [] := by
    refine List.filterMap_eq_nil_iff.mpr fun a member => ?_
    rw [written_undeclared proper named member]
    rfl
  have split (decls : List Attribute) : declarations (decls ++ (canonAttributes prefixes attributes).map writtenAttribute) =
      declarations decls := by
    rw [declarations, List.filterMap_append]
    exact (congrArg (declarations decls ++ ·) own).trans (List.append_nil _)
  rw [Scope.enter, expandedTag, split]
  cases isRoot <;> rfl

/-- What the harness relies on of the prefixes of a document. -/
structure Prefixed (prefixes : PrefixMap) : Prop extends ProperMap prefixes where
  names : ∀ d ∈ prefixes, NamespaceName d.1

theorem mem_expandedTag {a : Attribute}
    (member : a ∈ (expandedTag prefixes isRoot x attributes).attributes) :
    (∃ d ∈ prefixes, a = ⟨"xmlns:".toList ++ d.2, d.1⟩) ∨
      ∃ b ∈ attributes, a = ⟨canonName prefixes b.1, writeAttrValue b.2⟩ := by
  rcases List.mem_append.mp member with decl | written
  · cases isRoot with
    | false => cases decl
    | true =>
      obtain ⟨d, among, rfl⟩ := List.mem_map.mp decl
      exact .inl ⟨d, (perm_sortByPrefix prefixes).mem_iff.mp among, rfl⟩
  · obtain ⟨_, listed, rfl⟩ := List.mem_map.mp written
    obtain ⟨b, among, rfl⟩ := mem_canonAttributes.mp listed
    exact .inr ⟨b, among, rfl⟩

theorem expandedTag_unique (proper : ProperMap prefixes)
    (named : AttributesNamed prefixes attributes) (distinct : (attributes.map Prod.fst).Nodup) :
    (expandedTag prefixes isRoot x attributes).Unique := by
  -- the declarations differ as their prefixes do
  have declared : ((rootDeclarations prefixes).map (·.key)).Nodup := by
    have keys : (rootDeclarations prefixes).map (·.key) = ((sortByPrefix prefixes).map Prod.snd).map ("xmlns:".toList ++ ·) := by
      rw [rootDeclarations, List.map_map, List.map_map]
      rfl
    rw [keys]
    exact (((perm_sortByPrefix prefixes).map Prod.snd).nodup_iff.mpr proper.distinct).map fun _ _ =>
      List.append_cancel_left
  -- and the attributes as the names do that they are written for
  have own : (((canonAttributes prefixes attributes).map writtenAttribute).map (·.key)).Nodup := by
    have keys : ((canonAttributes prefixes attributes).map writtenAttribute).map (·.key) =
        (canonAttributes prefixes attributes).map (·.key) := by
      rw [List.map_map]
      rfl
    rw [keys, ((perm_canonAttributes prefixes attributes).map _).nodup_iff, List.map_map]
    have names : attributes.map ((·.key) ∘ fun a => (⟨canonName prefixes a.1, a.2⟩ : Attribute)) =
        (attributes.map Prod.fst).map (canonName prefixes) := by
      rw [List.map_map]
      rfl
    rw [names]
    refine distinct.map_on fun x first y second => ?_
    obtain ⟨a, among, rfl⟩ := List.mem_map.mp first
    obtain ⟨b, among', rfl⟩ := List.mem_map.mp second
    exact canonName_inj proper (named a among).toNameable (named b among').toNameable
  rw [Tag.Unique, expandedTag, List.map_append, List.nodup_append]
  refine ⟨?_, own, ?_⟩
  · cases isRoot with
    | false => exact List.nodup_nil
    | true => exact declared
  · intro key first other second
    obtain ⟨b, written, rfl⟩ := List.mem_map.mp second
    obtain ⟨a, decl, rfl⟩ := List.mem_map.mp first
    cases isRoot with
    | false => cases decl
    | true =>
      -- an attribute that is written declares nothing
      intro same
      obtain ⟨p, declares⟩ := rootDeclaration_declares decl
      have undeclared := written_undeclared proper named written
      rw [Attribute.declares, ← same] at undeclared
      exact absurd (undeclared.symm.trans declares) (by simp)

theorem attributeNames_expandedTag (proper : ProperMap prefixes)
    (named : AttributesNamed prefixes attributes) (isRoot : Bool) :
    (attributeNames (rootScope prefixes) (expandedTag prefixes isRoot x attributes).attributes).Perm
      (attributes.map Prod.fst) := by
  have same := (@perm_expandedAttributes prefixes x attributes proper named isRoot).map Prod.fst
  rw [expandedAttributes_names, List.map_map] at same
  exact same

theorem Nameable.known (nameable : Nameable prefixes x) : x.ns.known = true := by
  rcases nameable.ns with same | same | ⟨uri, i, same, _⟩ <;> rw [same] <;> rfl

theorem scopedTag_expandedTag (prefixed : Prefixed prefixes) (nameable : Nameable prefixes x)
    (named : AttributesNamed prefixes attributes) (distinct : (attributes.map Prod.fst).Nodup) :
    ScopedTag (outerScope prefixes isRoot) (expandedTag prefixes isRoot x attributes) := by
  have proper := prefixed.toProperMap
  have inner := @enter_expandedTag prefixes x attributes proper named isRoot
  refine ⟨nameable.isQName proper, expandedTag_unique proper named distinct, ?_, ?_, ?_, ?_, ?_⟩
  · intro a member
    rcases mem_expandedTag member with ⟨d, among, rfl⟩ | ⟨b, among, rfl⟩
    · have key : IsQName ("xmlns".toList ++ ':' :: d.2) := isQName_prefixed (by decide) (proper.ncName among)
      exact ⟨key, (prefixed.names d among).noTag⟩
    · exact ⟨(named b among).isQName proper, (writeAttrValue_clean b.2).2⟩
  · rw [inner]
    exact (attributeNames_expandedTag proper named isRoot).nodup_iff.mpr distinct
  · intro a member p declared _
    rcases mem_expandedTag member with ⟨d, among, rfl⟩ | ⟨b, among, rfl⟩
    · obtain rfl : d.2 = p := Option.some.inj ((declares_prefixed d.2 d.1).symm.trans declared)
      exact ⟨proper.ne_reserved among (by decide) _, .inr (prefixed.names d among)⟩
    · cases ((named b among).declares proper _).symm.trans declared
  · rw [inner]
    exact (congrArg (·.ns.known) (nameable.elementName_eq proper)).trans nameable.known
  · intro a member undeclared
    rcases mem_expandedTag member with ⟨d, among, rfl⟩ | ⟨b, among, rfl⟩
    · cases (declares_prefixed d.2 d.1).symm.trans undeclared
    · rw [inner]
      exact (congrArg (·.ns.known) ((named b among).attributeName_eq proper)).trans (named b among).known

theorem accepted_expandedTag (proper : ProperMap prefixes) (nameable : Nameable prefixes x)
    (notXml : x.ns ≠ .bound xmlNamespace) (named : AttributesNamed prefixes attributes) :
    Accepted (outerScope prefixes isRoot) (expandedTag prefixes isRoot x attributes) where
  literal a member declared := by
    rcases mem_expandedTag member with ⟨d, among, rfl⟩ | ⟨b, among, rfl⟩
    · obtain same : d.2 = xmlText := Option.some.inj ((declares_prefixed d.2 d.1).symm.trans declared)
      exact absurd same (proper.ne_reserved among (by decide) _)
    · cases ((named b among).declares proper _).symm.trans declared
  notXml := by
    rw [enter_expandedTag proper named]
    exact fun same => notXml ((congrArg ExpandedName.ns (nameable.elementName_eq proper)).symm.trans same)

end SoapServer.Crossref
