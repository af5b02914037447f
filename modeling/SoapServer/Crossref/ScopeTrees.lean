import SoapServer.Crossref.UsedNamespaces
import SoapServer.Markup.Composition
import SoapServer.TreeScanner

/-! The names in a tree and the names in scope of what is written: the one are the other with the
references replaced.
-/

set_option autoImplicit false

namespace SoapServer.Crossref

open Markup hiding localName
open SoapServer.Tree

/-- What the references of a document without a document type stand for: a character each. -/
def CharacterReferences (deref : Text → Option Text) : Prop := ∀ name s, deref name = some s → IsName name ∧ s.length = 1

variable {deref : Text → Option Text} {scope : Scope} {inherited namespaces : Namespaces}
    {tag : Tag}

/-! Values. -/

theorem normalizeLines_cons {c : Char} (other : c ≠ '\r') (s : Text) :
    normalizeLines (c :: s) = c :: normalizeLines s := by
  rw [normalizeLines.eq_def]
  split
  next same => exact absurd (List.cons.inj same).1 other
  next same => exact absurd (List.cons.inj same).1 other
  next same => cases same; rfl
  next same => cases same

theorem normalizeLines_append {name : Text} (plain : '\r' ∉ name) (rest : Text) :
    normalizeLines (name ++ rest) = name ++ normalizeLines rest := by
  induction name with
  | nil => rfl
  | cons c name ih =>
    have other : c ≠ '\r' := fun same => plain (same ▸ .head _)
    rw [List.cons_append, normalizeLines_cons other, ih fun member => plain (.tail _ member),
      List.cons_append]

theorem decodeFrom_reference (decode : Text → Text) {name : Text} (plain : ';' ∉ name)
    (begun rest : Text) :
    decodeFrom decode (some begun) (name ++ ';' :: rest) = decode (begun ++ name) ++ decodeFrom decode none rest := by
  induction name generalizing begun with
  | nil => simp [decodeFrom]
  | cons c name ih =>
    have other : c ≠ ';' := fun same => plain (same ▸ .head _)
    rw [List.cons_append, decodeFrom, if_neg other, ih (fun member => plain (.tail _ member)),
      List.append_assoc]
    rfl

theorem normalizeLines_head (c : Char) (s : Text) :
    ∃ d rest, normalizeLines (c :: s) = d :: rest ∧ (d = '\n' ∨ d = c) := by
  rw [normalizeLines.eq_def]
  split
  next same => exact ⟨_, _, rfl, .inl rfl⟩
  next same => exact ⟨_, _, rfl, .inl rfl⟩
  next same =>
    cases same
    exact ⟨_, _, rfl, .inr rfl⟩
  next same => cases same

/-- A value that is written is one that is read. -/
theorem attributeValue_ne_nil (references : CharacterReferences deref) {raw : Text}
    (nonempty : raw ≠ []) (known : referencesKnown deref raw = true) :
    attributeValue deref raw ≠ [] := by
  obtain ⟨c, s, rfl⟩ := List.exists_cons_of_ne_nil nonempty
  rw [attributeValue, decodeValue]
  by_cases opens : c = '&'
  · subst opens
    rw [referencesKnown, if_pos rfl, Bool.and_eq_true] at known
    cases split : splitOnce ';' s with
    | none =>
      rw [split] at known
      cases known.1
    | some parts =>
      obtain ⟨name, rest⟩ := parts
      rw [split] at known
      obtain ⟨value, found⟩ := Option.isSome_iff_exists.mp known.1
      obtain ⟨isName, one⟩ := references name value found
      -- no blank stands in a reference, so the lines are normalized outside of it
      have clean {c : Char} (white : isDelimiter c = true) : c ∉ name := fun member =>
        absurd (isName.2 c member) (by rw [white]; decide)
      obtain ⟨rfl, noEnd⟩ := splitOnce_eq_some split
      have spaces : name.map (fun c => if c = '\t' ∨ c = '\n' then ' ' else c) = name := by
        refine (List.map_congr_left fun c member => ?_).trans (List.map_id _)
        refine if_neg ?_
        rintro (rfl | rfl)
        · exact clean rfl member
        · exact clean rfl member
      rw [normalizeLines_cons (by decide), normalizeLines_append (clean rfl),
        normalizeLines_cons (by decide), List.map_cons, List.map_append, spaces]
      change decodeFrom _ (some []) (name ++ ';' :: _) ≠ []
      rw [decodeFrom_reference _ noEnd, List.nil_append, found]
      -- what the reference stands for is one character
      intro empty
      rw [Option.getD_some, List.append_eq_nil_iff] at empty
      rw [empty.1] at one
      cases one
  · obtain ⟨d, rest, head, either⟩ := normalizeLines_head c s
    -- any other first character is kept, or becomes a blank
    have plain : (if d = '\t' ∨ d = '\n' then ' ' else d) ≠ '&' := by
      rcases either with rfl | rfl
      · decide
      · split
        · decide
        · exact opens
    rw [head, List.map_cons, decodeFrom, if_neg plain]
    exact List.cons_ne_nil _ _

theorem attributeValue_literal (deref : Text → Option Text) {v : Text} (noReference : '&' ∉ v)
    (noReturn : '\r' ∉ v) (noTab : '\t' ∉ v) (noLine : '\n' ∉ v) : attributeValue deref v = v := by
  rw [attributeValue_of_noReference deref noReference, normalizeLines_of_literal noReturn]
  refine (List.map_congr_left fun c member => if_neg ?_).trans (List.map_id _)
  rintro (rfl | rfl)
  · exact noTab member
  · exact noLine member

theorem attributeValue_xml (deref : Text → Option Text) :
    attributeValue deref xmlNamespace = xmlNamespace :=
  attributeValue_literal deref (by decide) (by decide) (by decide) (by decide)

theorem attributeValue_xmlns (deref : Text → Option Text) :
    attributeValue deref xmlnsNamespace = xmlnsNamespace :=
  attributeValue_literal deref (by decide) (by decide) (by decide) (by decide)

theorem attributeValue_nil (deref : Text → Option Text) : attributeValue deref [] = [] :=
  attributeValue_literal deref (by decide) (by decide) (by decide) (by decide)

/-! Namespaces. -/

/-- The namespaces of a tree for what is bound in a scope. -/
structure Agrees (deref : Text → Option Text) (scope : Scope) (namespaces : Namespaces) : Prop where
  xml : (scope.lookup xmlText).map (attributeValue deref) = some xmlNamespace
  prefixed : ∀ p, p ≠ [] → p ≠ xmlText → namespaces.lookup (some p) = (scope.lookup p).map (attributeValue deref)
  default : namespaces.lookup none = (scope.lookup []).map (attributeValue deref)
  filled : ∀ p uri, scope.lookup p = some uri → uri ≠ [] → attributeValue deref uri ≠ []
  declared : ∀ p, p ≠ [] → scope.lookup p ≠ some []

theorem agrees_initial (deref : Text → Option Text) : Agrees deref Scope.initial [] where
  xml := congrArg some (attributeValue_xml deref)
  prefixed p _ other := by
    have absent : Scope.initial.lookup p = none :=
      Associations.lookup_eq_none_iff.mpr fun member => other (List.mem_singleton.mp member)
    rw [absent]
    rfl
  default := rfl
  filled p uri found _ := by
    obtain same := List.mem_singleton.mp (Associations.mem_of_lookup found)
    cases same
    rw [attributeValue_xml]
    decide
  declared p _ found := by
    obtain same := List.mem_singleton.mp (Associations.mem_of_lookup found)
    cases same

/-- The prefix of a declaration in a tree. -/
def treePrefix (p : Text) : Option Text := if p = [] then none else some p

theorem treePrefix_inj {p q : Text} (same : treePrefix p = treePrefix q) : p = q := by
  unfold treePrefix at same
  split_ifs at same with first second
  · exact first.trans second.symm
  · exact Option.some.inj same

theorem declaredBy_eq (deref : Text → Option Text) {a : Attribute} {p : Text}
    (declared : a.declares = some p) (other : p ≠ xmlText) :
    declaredBy deref a = some (treePrefix p, attributeValue deref a.value) := by
  rw [declaredBy, declared]
  exact if_neg other

theorem ownNamespaces_lookup (deref : Text → Option Text) (attributes : List Attribute) {p : Text}
    (other : p ≠ xmlText) :
    (attributes.filterMap (declaredBy deref)).lookup (treePrefix p) =
      ((declarations attributes).lookup p).map (attributeValue deref) := by
  induction attributes with
  | nil => rfl
  | cons a rest ih =>
    rw [declarations] at ih ⊢
    cases declared : a.declares with
    | none =>
      have skipped : declaredBy deref a = none := by rw [declaredBy, declared]
      rw [List.filterMap_cons_none skipped, List.filterMap_cons_none (by rw [declared]; rfl), ih]
    | some q =>
      rw [List.filterMap_cons_some (f := fun a : Attribute => a.declares.map fun p => (p, a.value)) (by rw [declared]; rfl)]
      by_cases isXml : q = xmlText
      · have skipped : declaredBy deref a = none := by
          rw [declaredBy, declared]
          exact if_pos isXml
        rw [List.filterMap_cons_none skipped, List.lookup_cons, beq_false_of_ne (isXml ▸ other), ih]
      · rw [List.filterMap_cons_some (declaredBy_eq deref declared isXml), List.lookup_cons,
          List.lookup_cons]
        by_cases same : p = q
        · subst same
          simp
        · have different : treePrefix p ≠ treePrefix q := fun equal => same (treePrefix_inj equal)
          rw [beq_false_of_ne different, beq_false_of_ne same, ih]

theorem lookup_inScope (inherited own : Namespaces) (p : Option Text) :
    (inScope inherited own).lookup p = (own.lookup p).or (inherited.lookup p) := by
  rw [inScope, List.lookup_append]
  cases found : own.lookup p with
  | some uri => rfl
  | none =>
    have absent : p ∉ own.map Prod.fst := Associations.lookup_eq_none_iff.mp found
    rw [Option.none_or, Option.none_or]
    exact Associations.lookup_filter (fun q => decide (q ∉ own.map Prod.fst)) (decide_eq_true absent)

theorem Agrees.enter (agrees : Agrees deref scope inherited)
    (references : CharacterReferences deref) (proper : ProperTag deref tag) :
    Agrees deref (scope.enter tag.attributes) (inScope inherited (ownNamespaces deref tag)) := by
  -- any prefix but `xml` is looked up in the declarations of the tag first, on both sides
  have both (p : Text) (other : p ≠ xmlText)
      (outside : inherited.lookup (treePrefix p) = (scope.lookup p).map (attributeValue deref)) :
      (inScope inherited (ownNamespaces deref tag)).lookup (treePrefix p) =
        ((scope.enter tag.attributes).lookup p).map (attributeValue deref) := by
    rw [lookup_inScope, ownNamespaces, ownNamespaces_lookup deref tag.attributes other, outside,
      Scope.enter, List.lookup_append, Option.map_or]
  refine ⟨?_, ?_, ?_, ?_, ?_⟩
  · rw [Scope.enter, List.lookup_append]
    cases found : (declarations tag.attributes).lookup xmlText with
    | none => exact agrees.xml
    | some uri =>
      obtain ⟨a, member, declared, rfl⟩ := declared_of_lookup found
      -- the tree reader lets `xml` be declared for its own namespace only
      exact congrArg some ((proper.attributes a member).xml declared)
  · intro p nonempty other
    have outside := agrees.prefixed p nonempty other
    have isSome : treePrefix p = some p := if_neg nonempty
    rw [← isSome] at outside ⊢
    exact both p other outside
  · exact both [] (by decide) agrees.default
  · intro p uri found nonempty
    rw [Scope.enter, List.lookup_append] at found
    cases inner : (declarations tag.attributes).lookup p with
    | none => exact agrees.filled p uri (by rwa [inner] at found) nonempty
    | some value =>
      rw [inner] at found
      cases found
      obtain ⟨a, member, _, rfl⟩ := declared_of_lookup inner
      exact attributeValue_ne_nil references nonempty (proper.attributes a member).references
  · intro p nonempty found
    rw [Scope.enter, List.lookup_append] at found
    cases inner : (declarations tag.attributes).lookup p with
    | none => exact agrees.declared p nonempty (by rwa [inner] at found)
    | some value =>
      rw [inner] at found
      cases found
      obtain ⟨a, member, declared, empty⟩ := declared_of_lookup inner
      by_cases isXml : p = xmlText
      · subst isXml
        have decoded := (proper.attributes a member).xml declared
        rw [empty, attributeValue_nil] at decoded
        exact absurd decoded (by decide)
      · -- the tree reader refuses an empty value for a prefix
        have among : (treePrefix p, attributeValue deref a.value) ∈ ownNamespaces deref tag :=
          List.mem_filterMap.mpr ⟨a, member, declaredBy_eq deref declared isXml⟩
        have filled := ((proper.declarations _ among).pre p (if_neg nonempty)).2.2.2
        exact filled (by rw [empty]; exact attributeValue_nil deref)

/-! Names. -/

/-- An expanded name as it stands in a tree. -/
def decodeName (deref : Text → Option Text) (x : ExpandedName) : Option (Option Text × Text) :=
  match x.ns with
  | .bound uri => some (some (attributeValue deref uri), x.localName)
  | .unbound => some (none, x.localName)
  | .unknown _ => none

theorem resolvePrefix_decoded (agrees : Agrees deref scope namespaces) {p : Text}
    (nonempty : p ≠ []) (l : Text) :
    (prefixNamespace namespaces p).map (fun uri => (some uri, l)) = decodeName deref ⟨resolvePrefix scope p, l⟩ := by
  have known : prefixNamespace namespaces p = (scope.lookup p).map (attributeValue deref) := by
    unfold prefixNamespace
    split
    next same =>
      rw [same]
      exact agrees.xml.symm
    next other => exact agrees.prefixed p nonempty other
  rw [known, resolvePrefix]
  cases found : scope.lookup p with
  | none => rfl
  | some uri =>
    cases uri with
    | nil => exact absurd found (agrees.declared p nonempty)
    | cons c rest => rfl

theorem resolveDefault_decoded (agrees : Agrees deref scope namespaces) (l : Text) :
    some (defaultNamespace namespaces, l) = decodeName deref ⟨resolveDefault scope, l⟩ := by
  rw [defaultNamespace, agrees.default, resolveDefault]
  cases found : scope.lookup [] with
  | none => rfl
  | some uri =>
    cases uri with
    | nil =>
      rw [Option.map_some, attributeValue_nil]
      rfl
    | cons c rest =>
      have filled := agrees.filled [] _ found (List.cons_ne_nil c rest)
      rw [Option.map_some, Option.filter_some, decide_eq_true filled]
      rfl

theorem expandName_element (agrees : Agrees deref scope namespaces) {name : Text}
    (isQName : IsQName name) :
    expandName namespaces (defaultNamespace namespaces) name = decodeName deref (elementName scope name) := by
  unfold IsQName at isQName
  rw [expandName, elementName, resolveElement, Markup.localName]
  cases split : splitOnce ':' name with
  | none => exact resolveDefault_decoded agrees name
  | some parts =>
    rw [split] at isQName
    have isPrefix : IsNcName parts.1 := isQName.1
    have nonempty : parts.1 ≠ [] := fun empty => by
      rw [empty] at isPrefix
      exact isPrefix
    exact resolvePrefix_decoded agrees nonempty parts.2

theorem expandName_attribute (agrees : Agrees deref scope namespaces) {name : Text}
    (isQName : IsQName name) :
    expandName namespaces none name = decodeName deref (attributeName scope name) := by
  unfold IsQName at isQName
  rw [expandName, attributeName, resolveAttribute, Markup.localName]
  cases split : splitOnce ':' name with
  | none => rfl
  | some parts =>
    rw [split] at isQName
    have isPrefix : IsNcName parts.1 := isQName.1
    have nonempty : parts.1 ≠ [] := fun empty => by
      rw [empty] at isPrefix
      exact isPrefix
    exact resolvePrefix_decoded agrees nonempty parts.2

def decodeAttribute (deref : Text → Option Text) (a : ExpandedName × Text) : Option DomAttribute :=
  (decodeName deref a.1).map fun name => ⟨name.1, name.2, attributeValue deref a.2⟩

theorem mapM_decodeAttribute (agrees : Agrees deref scope namespaces) {attributes : List Attribute}
    (keys : ∀ a ∈ attributes, IsQName a.key) :
    (attributes.filter fun a => a.declares = none).mapM (attributeOf deref namespaces) =
      (expandedAttributes scope attributes).mapM (decodeAttribute deref) := by
  have undeclared : (attributes.filter fun a => a.declares = none) = attributes.filter fun a =>
    a.declares.isNone :=
    List.filter_congr fun a _ => by cases a.declares <;> rfl
  rw [expandedAttributes, List.mapM_map, undeclared]
  refine Traversals.mapM_congr fun a member => ?_
  rw [attributeOf, expandName_attribute agrees (keys a (List.mem_filter.mp member).1)]
  rfl

/-- The element that a tag stands for, by the names in its scope. -/
structure Stands (deref : Text → Option Text) (scope : Scope) (tag : Tag) (e : DomElement) :
    Prop where
  agrees : Agrees deref (scope.enter tag.attributes) e.namespaces
  proper : ProperTag deref tag
  distinct : DistinctAttributes e.attributes
  name : decodeName deref (elementName (scope.enter tag.attributes) tag.name) = some (e.ns, e.name)
  attributes : (expandedAttributes (scope.enter tag.attributes) tag.attributes).mapM (decodeAttribute deref) = some e.attributes

theorem stands_of_element (agrees : Agrees deref scope inherited)
    (references : CharacterReferences deref) {e : DomElement}
    (run : elementOf deref inherited tag = some e) : Stands deref scope tag e := by
  obtain ⟨proper, distinct, namespaces, named, _⟩ := elementOf_eq_some run
  have inner : Agrees deref (scope.enter tag.attributes) e.namespaces :=
    namespaces ▸ agrees.enter references proper
  refine ⟨inner, proper, distinct, ?_, ?_⟩
  · rw [← expandName_element inner proper.name]
    exact named
  · rw [← mapM_decodeAttribute inner fun a member => (proper.attributes a member).key]
    exact elementOf_attributes run

/-- A tag that is proper in its scope stands for an element. -/
theorem element_of_names (agrees : Agrees deref scope inherited)
    (references : CharacterReferences deref) (proper : ProperTag deref tag) {ns : Option Text}
    {name : Text} {attributes : List DomAttribute} (distinct : DistinctAttributes attributes)
    (named : decodeName deref (elementName (scope.enter tag.attributes) tag.name) = some (ns, name))
    (read : (expandedAttributes (scope.enter tag.attributes) tag.attributes).mapM (decodeAttribute deref) = some attributes) :
    elementOf deref inherited tag = some ⟨ns, name, attributes, inScope inherited (ownNamespaces deref tag)⟩ := by
  have inner := agrees.enter references proper
  rw [← expandName_element inner proper.name] at named
  rw [← mapM_decodeAttribute inner fun a member => (proper.attributes a member).key] at read
  simp only [elementOf, named, read, Option.bind_eq_bind, Option.bind_some]
  exact if_pos ⟨proper, distinct⟩

/-! What the tags of a tree are in their scope. -/

/-- A namespace that can be declared, by what its references stand for. -/
structure DecodedName (deref : Text → Option Text) (uri : Text) :
    Prop extends NamespaceName uri where
  references : referencesKnown deref uri = true
  chars : ∀ c ∈ attributeValue deref uri, isXmlChar c = true
  otherThanXml : attributeValue deref uri ≠ xmlNamespace
  otherThanXmlns : attributeValue deref uri ≠ xmlnsNamespace
  filled : attributeValue deref uri ≠ []

theorem decodedName_of_declared (references : CharacterReferences deref)
    (proper : ProperTag deref tag) {a : Attribute} (member : a ∈ tag.attributes) {p : Text}
    (declared : a.declares = some p) (other : p ≠ xmlText) :
    p ≠ "xmlns".toList ∧ (a.value = [] ∨ DecodedName deref a.value) := by
  have among : (treePrefix p, attributeValue deref a.value) ∈ ownNamespaces deref tag :=
    List.mem_filterMap.mpr ⟨a, member, declaredBy_eq deref declared other⟩
  have declaration := proper.declarations _ among
  constructor
  · rintro rfl
    exact (declaration.pre "xmlns".toList rfl).2.2.1 rfl
  · by_cases empty : a.value = []
    · exact .inl empty
    · have sound := proper.attributes a member
      refine .inr ⟨⟨empty, fun same => ?_, fun same => ?_, sound.noTag⟩,
        sound.references, sound.chars, declaration.notXml, declaration.notXmlns,
        attributeValue_ne_nil references empty sound.references⟩
      · exact declaration.notXml (by rw [same]; exact attributeValue_xml deref)
      · exact declaration.notXmlns (by rw [same]; exact attributeValue_xmlns deref)

theorem decodeName_known {x : ExpandedName} {name : Option Text × Text}
    (decoded : decodeName deref x = some name) :
    x.ns.known = true := by
  unfold decodeName at decoded
  cases resolved : x.ns with
  | bound uri | unbound => rfl
  | unknown p =>
    rw [resolved] at decoded
    cases decoded

theorem Stands.scopedTag {e : DomElement} (stands : Stands deref scope tag e)
    (references : CharacterReferences deref) :
    ScopedTag scope tag where
  name := stands.proper.name
  unique := stands.proper.unique
  attributes a member := ⟨(stands.proper.attributes a member).key,
    (stands.proper.attributes a member).noTag⟩
  expanded := by
    have names : (expandedAttributes (scope.enter tag.attributes) tag.attributes).map (fun a => decodeName deref a.1) =
        e.attributes.map fun a => some (a.ns, a.name) := by
      refine Traversals.map_eq_map stands.attributes fun a b decoded => ?_
      obtain ⟨name, found, rfl⟩ := Option.map_eq_some_iff.mp decoded
      exact found
    -- the tree reader refuses two attributes of one name
    have distinct : (e.attributes.map fun a => some (a.ns, a.name)).Nodup := by
      have all := stands.distinct.map (Option.some_injective (Option Text × Text))
      rwa [List.map_map] at all
    have split : (expandedAttributes (scope.enter tag.attributes) tag.attributes).map (fun a => decodeName deref a.1) =
        (attributeNames (scope.enter tag.attributes) tag.attributes).map (decodeName deref) := by
      rw [← expandedAttributes_names, List.map_map]
      rfl
    rw [← names, split] at distinct
    exact distinct.of_map
  declared a member p declared other := by
    obtain ⟨notXmlns, either⟩ := decodedName_of_declared references stands.proper member declared other
    exact ⟨notXmlns, either.imp_right DecodedName.toNamespaceName⟩
  element := decodeName_known stands.name
  known a member undeclared := by
    obtain ⟨b, decoded⟩ := Traversals.exists_of_mem stands.attributes (mem_expandedAttributes.mpr ⟨a, member, undeclared, rfl⟩)
    obtain ⟨name, found, _⟩ := Option.map_eq_some_iff.mp decoded
    exact decodeName_known found

theorem Stands.declares {e : DomElement} (stands : Stands deref scope tag e)
    (references : CharacterReferences deref) (literal : XmlLiteral tag) :
    Declares (DecodedName deref) tag := by
  intro a member p declared
  split
  next same => exact literal a member (same ▸ declared)
  next other => exact (decodedName_of_declared references stands.proper member declared other).2

end SoapServer.Crossref
