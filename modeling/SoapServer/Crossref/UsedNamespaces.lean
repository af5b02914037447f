import SoapServer.Crossref.Masking
import SoapServer.Crossref.PrefixMaps

/-! The first pass over a document: its namespaces in use, and which documents it takes. -/

set_option autoImplicit false

namespace Markup

variable {P Q : Scope → Tag → Prop}

/-- A property of every tag with the scope around it, at any depth. -/
def Content.AllScoped (P : Scope → Tag → Prop) : Scope → Content → Prop
  | _, .nil => True
  | scope, .data _ rest => rest.AllScoped P scope
  | scope, .empty tag rest => P scope tag ∧ rest.AllScoped P scope
  | scope, .element tag kids rest =>
    P scope tag ∧ kids.AllScoped P (scope.enter tag.attributes) ∧ rest.AllScoped P scope

instance decidableAllScoped (P : Scope → Tag → Prop) [∀ scope tag, Decidable (P scope tag)] :
    (scope : Scope) → (c : Content) → Decidable (c.AllScoped P scope)
  | _, .nil => inferInstanceAs (Decidable True)
  | scope, .data _ rest => decidableAllScoped P scope rest
  | scope, .empty tag rest =>
    have := decidableAllScoped P scope rest
    inferInstanceAs (Decidable (P scope tag ∧ rest.AllScoped P scope))
  | scope, .element tag kids rest =>
    have := decidableAllScoped P (scope.enter tag.attributes) kids
    have := decidableAllScoped P scope rest
    inferInstanceAs (Decidable (P scope tag ∧ kids.AllScoped P (scope.enter tag.attributes) ∧ rest.AllScoped P scope))

theorem Content.AllScoped.mono (sub : ∀ scope tag, P scope tag → Q scope tag) {scope : Scope}
    {c : Content} (all : c.AllScoped P scope) : c.AllScoped Q scope := by
  induction c generalizing scope with
  | nil => trivial
  | data d rest ih => exact ih all
  | empty tag rest ih => exact ⟨sub scope tag all.1, ih all.2⟩
  | element tag kids rest kidsIH restIH => exact ⟨sub scope tag all.1, kidsIH all.2.1, restIH all.2.2⟩

theorem Content.AllScoped.and {scope : Scope} {c : Content} (first : c.AllScoped P scope)
    (second : c.AllScoped Q scope) :
    c.AllScoped (fun scope tag => P scope tag ∧ Q scope tag) scope := by
  induction c generalizing scope with
  | nil => trivial
  | data d rest ih => exact ih first second
  | empty tag rest ih => exact ⟨⟨first.1, second.1⟩, ih first.2 second.2⟩
  | element tag kids rest kidsIH restIH =>
    exact ⟨⟨first.1, second.1⟩, kidsIH first.2.1 second.2.1, restIH first.2.2 second.2.2⟩

theorem Content.AllScoped.allTags {R : Tag → Prop} (each : ∀ scope tag, P scope tag → R tag)
    {scope : Scope} {c : Content} (all : c.AllScoped P scope) : c.AllTags R := by
  induction c generalizing scope with
  | nil => trivial
  | data d rest ih => exact ih all
  | empty tag rest ih => exact ⟨each scope tag all.1, ih all.2⟩
  | element tag kids rest kidsIH restIH => exact ⟨each scope tag all.1, kidsIH all.2.1, restIH all.2.2⟩

/-- The attributes of a tag other than declarations, by expanded name. -/
def expandedAttributes (scope : Scope) (attributes : List Attribute) : List (ExpandedName × Text) :=
  (attributes.filter fun a => a.declares.isNone).map fun a => (attributeName scope a.key, a.value)

theorem expandedAttributes_names (scope : Scope) (attributes : List Attribute) :
    (expandedAttributes scope attributes).map Prod.fst = attributeNames scope attributes := by
  rw [expandedAttributes, attributeNames, List.map_map]
  rfl

end Markup

namespace SoapServer.Crossref

open Markup hiding localName
open SortedSets (insertAll)
open Loops

/-! What a tag declares, and what it has beside. -/

theorem mem_expandedAttributes {scope : Scope} {attributes : List Attribute}
    {x : ExpandedName × Text} :
    x ∈ expandedAttributes scope attributes ↔
      ∃ a ∈ attributes, a.declares = none ∧ (attributeName scope a.key, a.value) = x := by
  rw [expandedAttributes, List.mem_map]
  simp only [List.mem_filter, Option.isNone_iff_eq_none, and_assoc]

theorem declared_of_lookup {attributes : List Attribute} {p uri : Text}
    (found : (declarations attributes).lookup p = some uri) :
    ∃ a ∈ attributes, a.declares = some p ∧ a.value = uri := by
  obtain ⟨a, member, declared⟩ := List.mem_filterMap.mp (Associations.mem_of_lookup found)
  obtain ⟨q, isDeclared, same⟩ := Option.map_eq_some_iff.mp declared
  cases same
  exact ⟨a, member, isDeclared, rfl⟩

/-! Which documents are read. -/

/-- A namespace that can be declared under any prefix. -/
structure NamespaceName (uri : Text) : Prop where
  nonempty : uri ≠ []
  notXml : uri ≠ xmlNamespace
  notXmlns : uri ≠ xmlnsNamespace
  noTag : '<' ∉ uri

/-- The prefix `xml` has its namespace; what the other prefixes stand for, if anything, has `P`. -/
structure ProperScope (P : Text → Prop) (scope : Scope) : Prop where
  xml : scope.lookup xmlText = some xmlNamespace
  others : ∀ p uri, p ≠ xmlText → scope.lookup p = some uri → uri = [] ∨ P uri

/-- What a tag declares, as its attributes have it. -/
def Declares (P : Text → Prop) (tag : Tag) : Prop :=
  ∀ a ∈ tag.attributes, ∀ p, a.declares = some p → if p = xmlText then a.value = xmlNamespace else a.value = [] ∨ P a.value

theorem properScope_initial (P : Text → Prop) : ProperScope P Scope.initial where
  xml := rfl
  others p uri other found := by
    have absent : Scope.initial.lookup p = none := Associations.lookup_eq_none_iff.mpr fun member =>
      other (List.mem_singleton.mp member)
    cases absent.symm.trans found

variable {P : Text → Prop} {scope : Scope} {tag : Tag}

theorem ProperScope.enter (proper : ProperScope P scope) (declares : Declares P tag) :
    ProperScope P (scope.enter tag.attributes) := by
  have own {p uri : Text} (found : (declarations tag.attributes).lookup p = some uri) :
      if p = xmlText then uri = xmlNamespace else uri = [] ∨ P uri := by
    obtain ⟨a, member, declared, rfl⟩ := declared_of_lookup found
    exact declares a member p declared
  constructor
  · rw [Scope.enter, List.lookup_append]
    cases found : (declarations tag.attributes).lookup xmlText with
    | none => exact proper.xml
    | some uri =>
      have literal := own found
      rw [if_pos rfl] at literal
      rw [literal]
      rfl
  · intro p uri other found
    rw [Scope.enter, List.lookup_append] at found
    cases inner : (declarations tag.attributes).lookup p with
    | none => exact proper.others p uri other (by rwa [inner] at found)
    | some value =>
      have declared := own inner
      rw [if_neg other] at declared
      rw [inner] at found
      cases found
      exact declared

theorem ProperScope.mono {Q : Text → Prop} (proper : ProperScope P scope)
    (sub : ∀ uri, P uri → Q uri) :
    ProperScope Q scope :=
  ⟨proper.xml, fun p uri other found => (proper.others p uri other found).imp_right (sub uri)⟩

/-- What is bound has `P`, the namespace of `xml` aside. -/
theorem ProperScope.bound (proper : ProperScope P scope) {p uri : Text}
    (bound : resolvePrefix scope p = .bound uri) :
    p = xmlText ∧ uri = xmlNamespace ∨ P uri := by
  unfold resolvePrefix at bound
  split at bound
  next c rest found =>
    cases bound
    by_cases same : p = xmlText
    · subst same
      exact .inl ⟨rfl, Option.some.inj (found.symm.trans proper.xml)⟩
    · exact .inr ((proper.others p _ same found).resolve_left (List.cons_ne_nil c rest))
  next => cases bound
  next => cases bound

theorem ProperScope.default (proper : ProperScope P scope) {uri : Text}
    (bound : resolveDefault scope = .bound uri) :
    P uri := by
  unfold resolveDefault at bound
  split at bound
  next c rest found =>
    cases bound
    exact (proper.others [] _ (by decide) found).resolve_left (List.cons_ne_nil c rest)
  next => cases bound
  next => cases bound

theorem ProperScope.element (proper : ProperScope P scope) {name uri : Text}
    (bound : resolveElement scope name = .bound uri) : uri = xmlNamespace ∨ P uri := by
  unfold resolveElement at bound
  split at bound
  · exact (proper.bound bound).imp_left And.right
  · exact .inr (proper.default bound)

theorem ProperScope.attribute (proper : ProperScope P scope) {key uri : Text}
    (bound : resolveAttribute scope key = .bound uri) : uri = xmlNamespace ∨ P uri := by
  unfold resolveAttribute at bound
  split at bound
  · exact (proper.bound bound).imp_left And.right
  · cases bound

/-- The constraints of XML and its namespaces on a tag, on what is written in it. -/
structure ScopedTag (scope : Scope) (tag : Tag) : Prop where
  name : IsQName tag.name
  unique : tag.Unique
  attributes : ∀ a ∈ tag.attributes, IsQName a.key ∧ '<' ∉ a.value
  expanded : (attributeNames (scope.enter tag.attributes) tag.attributes).Nodup
  declared : ∀ a ∈ tag.attributes, ∀ p, a.declares = some p → p ≠ xmlText →
    p ≠ "xmlns".toList ∧ (a.value = [] ∨ NamespaceName a.value)
  element : (resolveElement (scope.enter tag.attributes) tag.name).known = true
  known : ∀ a ∈ tag.attributes, a.declares = none → (resolveAttribute (scope.enter tag.attributes) a.key).known = true

/-- A declaration of `xml` stands for itself, letter by letter. -/
def XmlLiteral (tag : Tag) : Prop := ∀ a ∈ tag.attributes, a.declares = some xmlText → a.value = xmlNamespace

instance (tag : Tag) : Decidable (XmlLiteral tag) := by unfold XmlLiteral; infer_instance

theorem ScopedTag.declares (sound : ScopedTag scope tag) (literal : XmlLiteral tag) :
    Declares NamespaceName tag := by
  intro a member p declared
  split
  next same => exact literal a member (same ▸ declared)
  next other => exact (sound.declared a member p declared other).2

theorem refusedBinding_iff (sound : ScopedTag scope tag) {a : Attribute}
    (member : a ∈ tag.attributes) :
    refusedBinding a = true ↔ a.declares = some xmlText ∧ a.value ≠ xmlNamespace := by
  unfold refusedBinding
  rw [← show xmlText = "xml".toList from rfl]
  cases declared : a.declares with
  | none => simp
  | some p =>
    cases p with
    | nil => simp [xmlText]
    | cons c p =>
      by_cases same : c :: p = xmlText
      · simp [same]
      · obtain ⟨other, empty | proper⟩ := sound.declared a member _ declared same
        · have notXml : ([] : Text) ≠ xmlNamespace := by decide
          have notXmlns : ([] : Text) ≠ xmlnsNamespace := by decide
          simp_all
        · have := proper.notXml
          have := proper.notXmlns
          simp_all

theorem pushScope_read (sound : ScopedTag scope tag) {inner : Scope} :
    pushScope scope tag.read = .ok inner ↔ XmlLiteral tag ∧ inner = scope.enter tag.attributes := by
  rw [pushScope, Tag.read_of_unique sound.unique, reduceOption_some]
  cases found : tag.attributes.find? refusedBinding with
  | none =>
    have literal : XmlLiteral tag := by
      intro a member declared
      by_contra other
      exact List.find?_eq_none.mp found a member ((refusedBinding_iff sound member).mpr ⟨declared, other⟩)
    exact ⟨fun same => ⟨literal, (Except.ok.inj same).symm⟩,
      fun both => congrArg Except.ok both.2.symm⟩
  | some a =>
    have refused := (refusedBinding_iff sound (List.mem_of_find?_eq_some found)).mp (List.find?_some found)
    refine ⟨fun same => (by cases same), fun both => ?_⟩
    exact absurd (both.1 a (List.mem_of_find?_eq_some found) refused.1) refused.2

/-! The namespaces in use. -/

/-- The namespace of a name, unless it is that of `xml`. -/
def nameUris (x : ExpandedName) : List Text :=
  match x.ns with
  | .bound uri => if uri = xmlNamespace then [] else [uri]
  | .unbound | .unknown _ => []

def namesUris : Names → List Text
  | .nil => []
  | .element name attributes kids rest =>
    nameUris name ++ attributes.flatMap nameUris ++ (namesUris kids ++ namesUris rest)

theorem mem_nameUris {x : ExpandedName} {uri : Text} :
    uri ∈ nameUris x ↔ x.ns = .bound uri ∧ uri ≠ xmlNamespace := by
  unfold nameUris
  cases x.ns with
  | unbound | unknown p => simp
  | bound ns =>
    by_cases same : ns = xmlNamespace
    · subst same
      simp +contextual [eq_comm]
    · simp only [if_neg same, List.mem_singleton, ResolveResult.bound.injEq]
      constructor
      · rintro rfl
        exact ⟨rfl, same⟩
      · exact fun both => both.1.symm

theorem mem_namesUris_element {name : ExpandedName} {attributes : List ExpandedName}
    {kids rest : Names} {uri : Text} :
    uri ∈ namesUris (.element name attributes kids rest) ↔
      uri ∈ nameUris name ++ attributes.flatMap nameUris ∨ uri ∈ namesUris kids ∨ uri ∈ namesUris rest := by
  simp only [namesUris, List.mem_append]

theorem insertUnlessXml_eq (uri : Text) (l : Text) (uris : List Text) :
    insertUnlessXml uri uris = insertAll (nameUris ⟨.bound uri, l⟩) uris := by
  unfold insertUnlessXml nameUris
  by_cases same : uri = xmlNamespace
  · simp only [if_pos same]
    rfl
  · simp only [if_neg same]
    rfl

theorem isXmlKey_resolves (proper : ProperScope P scope) {key : Text}
    (isXml : isXmlKey key = true) :
    ∃ l, key = xmlText ++ ':' :: l ∧ attributeName scope key = ⟨.bound xmlNamespace, l⟩ := by
  obtain ⟨l, found⟩ := Option.isSome_iff_exists.mp isXml
  have whole : key = "xml:".toList ++ l := stripPrefix_eq_some.mp found
  have split : splitOnce ':' key = some (xmlText, l) := by
    rw [whole]
    exact splitOnce_append ':' xmlText l (by decide)
  refine ⟨l, whole, ?_⟩
  have bound : resolvePrefix scope xmlText = .bound xmlNamespace := by
    rw [resolvePrefix, proper.xml]
    rfl
  rw [attributeName, resolveAttribute, Markup.localName, split]
  exact congrArg (ExpandedName.mk · l) bound

theorem collectAttrUris_read (proper : ProperScope P scope) (uris : List Text) (a : Attribute) :
    collectAttrUris scope uris (some a) = .ok (insertAll ((attributeNames scope [a]).flatMap nameUris) uris) := by
  unfold collectAttrUris
  cases declared : a.declares with
  | some p => simp [attributeNames, declared, insertAll]
  | none =>
    have own : (attributeNames scope [a]).flatMap nameUris = nameUris (attributeName scope a.key) := by
      simp [attributeNames, declared]
    rw [own]
    by_cases isXml : isXmlKey a.key = true
    · obtain ⟨l, _, resolved⟩ := isXmlKey_resolves proper isXml
      simp [resolved, isXml, nameUris, insertAll]
    · have other : isXmlKey a.key = false := by simpa using isXml
      simp only [declared, other, Option.isSome_none, Bool.or_self, Bool.false_eq_true, if_false,
        attributeName]
      cases resolveAttribute scope a.key with
      | bound uri => exact congrArg Except.ok (insertUnlessXml_eq uri _ uris)
      | unbound | unknown p => rfl

theorem collectAttrUris_all (proper : ProperScope P scope) (attributes : List Attribute)
    (uris : List Text) :
    (attributes.map some).foldlM (collectAttrUris scope) uris =
      .ok (insertAll ((attributeNames scope attributes).flatMap nameUris) uris) := by
  induction attributes generalizing uris with
  | nil => rfl
  | cons a rest ih =>
    have split : attributeNames scope (a :: rest) = attributeNames scope [a] ++ attributeNames scope rest := by
      rw [attributeNames, attributeNames, attributeNames, ← List.map_append, ← List.filter_append,
        List.singleton_append]
    rw [List.map_cons, foldlM_cons_eq_ok, split, List.flatMap_append, SortedSets.insertAll_append]
    exact ⟨_, collectAttrUris_read proper uris a, ih _⟩

/-- The namespaces of a tag. -/
def tagUris (scope : Scope) (tag : Tag) : List Text :=
  nameUris (elementName scope tag.name) ++ (attributeNames scope tag.attributes).flatMap nameUris

theorem collectTag_read (proper : ProperScope P scope) (unique : tag.Unique) (uris : List Text)
    (known : (resolveElement scope tag.name).known = true) :
    collectTag scope uris tag.read = .ok (insertAll (tagUris scope tag) uris) := by
  rw [collectTag, Tag.read_of_unique unique, tagUris, SortedSets.insertAll_append]
  simp only
  cases resolved : resolveElement scope tag.name with
  | bound ns =>
    simp only
    rw [collectAttrUris_all proper, insertUnlessXml_eq ns (Markup.localName tag.name), elementName,
      resolved]
  | unbound =>
    simp only
    rw [collectAttrUris_all proper, elementName, resolved]
    rfl
  | unknown p =>
    rw [resolved] at known
    cases known

variable {events : List RawEvent} {c : Content}

theorem collectScope_read {σ : Type} (sound : ScopedTag scope tag)
    (proper : ProperScope NamespaceName scope) {uris : List Text}
    {next : Scope → List Text → Except Failure σ} {t : σ} :
    (pushScope scope tag.read >>= fun inner => collectTag inner uris tag.read >>= next inner) = .ok t ↔
      XmlLiteral tag ∧ next (scope.enter tag.attributes) (insertAll (tagUris (scope.enter tag.attributes) tag) uris) = .ok t := by
  have collected (literal : XmlLiteral tag) :=
    collectTag_read (proper.enter (sound.declares literal)) sound.unique uris
    sound.element
  rw [bind_eq_ok]
  constructor
  · rintro ⟨inner, pushed, ran⟩
    obtain ⟨literal, rfl⟩ := (pushScope_read sound).mp pushed
    rw [collected literal] at ran
    exact ⟨literal, ran⟩
  · rintro ⟨literal, ran⟩
    refine ⟨_, (pushScope_read sound).mpr ⟨literal, rfl⟩, ?_⟩
    rw [collected literal]
    exact ran

theorem foldlM_collectEvent (denotes : Denotes events c) {uris : List Text} {scopes : List Scope}
    {t : CollectState} (sound : c.AllScoped ScopedTag (currentScope scopes))
    (proper : ProperScope NamespaceName (currentScope scopes)) :
    (stream events).foldlM collectEvent ⟨uris, scopes⟩ = .ok t ↔
      c.AllTags XmlLiteral ∧ t = ⟨insertAll (namesUris (c.names (currentScope scopes))) uris, scopes⟩ := by
  -- on the document, with the namespaces found before and the scopes of the open elements
  induction denotes generalizing uris scopes t with
  | nil =>
    rw [stream_nil, foldlM_nil_eq_ok]
    exact ⟨fun same => ⟨trivial, same.symm⟩, fun both => both.2.symm⟩
  | data _ _ ih =>
    rw [stream_cons, foldlM_cons_eq_ok]
    constructor
    · rintro ⟨_, ⟨⟩, ran⟩
      exact (ih sound proper).mp ran
    · intro both
      exact ⟨_, rfl, (ih sound proper).mpr both⟩
  | @empty body tag events c text _ ih =>
    have step := @collectScope_read _ tag _ sound.1 proper uris fun _ uris =>
      Except.ok (CollectState.mk uris scopes)
    have after (uris : List Text) := @ih uris scopes t sound.2 proper
    rw [stream_cons, foldlM_cons_eq_ok, Content.names, namesUris, SortedSets.insertAll_append]
    constructor
    · rintro ⟨mid, stepped, ran⟩
      obtain ⟨literal, ⟨⟩⟩ := step.mp stepped
      obtain ⟨literals, rfl⟩ := (after _).mp ran
      exact ⟨⟨literal, literals⟩, rfl⟩
    · rintro ⟨literals, rfl⟩
      exact ⟨_, step.mpr ⟨literals.1, rfl⟩, (after _).mpr ⟨literals.2, rfl⟩⟩
  | @element body space tag inside events kids c text _ _ _ innerIH moreIH =>
    have step := @collectScope_read _ tag _ sound.1 proper uris fun inner uris =>
      Except.ok (CollectState.mk uris (inner :: scopes))
    -- inside, the scope of the element is on top, and the end tag takes it off
    have inner (literal : XmlLiteral tag) (uris : List Text) (t : CollectState) :=
      @innerIH uris ((currentScope scopes).enter tag.attributes :: scopes) t sound.2.1
        (proper.enter (sound.1.declares literal))
    have after (uris : List Text) := @moreIH uris scopes t sound.2.2 proper
    rw [stream_cons, stream_append, stream_cons, foldlM_cons_eq_ok, Content.names, namesUris,
      SortedSets.insertAll_append, SortedSets.insertAll_append]
    constructor
    · rintro ⟨mid, stepped, ran⟩
      obtain ⟨literal, ⟨⟩⟩ := step.mp stepped
      obtain ⟨closing, innerRan, ran⟩ := foldlM_append_eq_ok.mp ran
      obtain ⟨inLiterals, rfl⟩ := (inner literal _ _).mp innerRan
      obtain ⟨_, ⟨⟩, ran⟩ := foldlM_cons_eq_ok.mp ran
      obtain ⟨literals, rfl⟩ := (after _).mp ran
      exact ⟨⟨literal, inLiterals, literals⟩, rfl⟩
    · rintro ⟨⟨literal, inLiterals, literals⟩, rfl⟩
      refine ⟨_, step.mpr ⟨literal, rfl⟩,
        foldlM_append_eq_ok.mpr ⟨_, (inner literal _ _).mpr ⟨inLiterals, rfl⟩, ?_⟩⟩
      exact foldlM_cons_eq_ok.mpr ⟨_, rfl, (after _).mpr ⟨literals, rfl⟩⟩

/-- The namespaces of a document, in order. -/
def usedUris (c : Content) : List Text := insertAll (namesUris (c.names Scope.initial)) []

theorem collectUsedUris_eq_ok {reader : RawReader} {xml : Text}
    (document : Reports reader xml events c) (sound : c.AllScoped ScopedTag Scope.initial)
    {uris : List Text} :
    collectUsedUris reader xml = .ok uris ↔ c.AllTags XmlLiteral ∧ uris = usedUris c := by
  have pass (t : CollectState) := @foldlM_collectEvent events c document.denotes [] [] t sound (properScope_initial _)
  rw [collectUsedUris, document.reads, map_eq_ok]
  constructor
  · rintro ⟨t, ran, rfl⟩
    obtain ⟨literals, rfl⟩ := (pass t).mp ran
    exact ⟨literals, rfl⟩
  · rintro ⟨literals, rfl⟩
    exact ⟨_, (pass _).mpr ⟨literals, rfl⟩, rfl⟩

theorem tagUris_hold (proper : ProperScope P scope) : ∀ uri ∈ tagUris scope tag, P uri := by
  intro uri used
  rcases List.mem_append.mp used with own | own
  · obtain ⟨bound, notXml⟩ := mem_nameUris.mp own
    exact (proper.element bound).resolve_left notXml
  · obtain ⟨x, among, own⟩ := List.mem_flatMap.mp own
    obtain ⟨a, _, rfl⟩ := List.mem_map.mp among
    obtain ⟨bound, notXml⟩ := mem_nameUris.mp own
    exact (proper.attribute bound).resolve_left notXml

/-- What is declared throughout a document is what is used in it. -/
theorem namesUris_hold (proper : ProperScope P scope) (declares : c.AllTags (Declares P)) :
    ∀ uri ∈ namesUris (c.names scope), P uri := by
  induction c generalizing scope with
  | nil =>
    intro uri used
    cases used
  | data d rest ih => exact ih proper declares
  | empty tag rest ih =>
    intro uri used
    rcases mem_namesUris_element.mp used with own | none | more
    · exact tagUris_hold (proper.enter declares.1) uri own
    · cases none
    · exact ih proper declares.2 uri more
  | element tag kids rest kidsIH restIH =>
    intro uri used
    rcases mem_namesUris_element.mp used with own | inner | more
    · exact tagUris_hold (proper.enter declares.1) uri own
    · exact kidsIH (proper.enter declares.1) declares.2.1 uri inner
    · exact restIH proper declares.2.2 uri more

end SoapServer.Crossref
