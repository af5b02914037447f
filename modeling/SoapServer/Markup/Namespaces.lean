import SoapServer.Library.Associations
import SoapServer.Markup.Document
import SoapServer.Markup.Names

/-! Namespace scoping: the bindings in scope at an element, the expanded names they
give, and the resolved events a namespace-aware reader reports.

A scope lists bindings innermost first. The empty prefix stands for the default
namespace, and an empty URI takes a declaration back.
-/

set_option autoImplicit false

namespace Markup

abbrev Scope := List (Text × Text)

def xmlNamespace : Text := "http://www.w3.org/XML/1998/namespace".toList

def xmlnsNamespace : Text := "http://www.w3.org/2000/xmlns/".toList

namespace Scope

/-- The only prefix in use that is bound without a declaration. -/
def initial : Scope := [("xml".toList, xmlNamespace)]

/-- Two scopes that bind every prefix alike. -/
def Same (s t : Scope) : Prop := ∀ p, s.lookup p = t.lookup p

theorem Same.append {s t : Scope} (inner : Scope) (same : Same s t) :
    Same (inner ++ s) (inner ++ t) := by
  intro p
  rw [List.lookup_append, List.lookup_append, same p]

end Scope

/-- The prefix an attribute declares, empty for `xmlns` itself. -/
def Attribute.declares (a : Attribute) : Option Text :=
  if a.key = "xmlns".toList then some [] else stripPrefix "xmlns:".toList a.key

def declarations (attrs : List Attribute) : Scope :=
  attrs.filterMap fun a => a.declares.map fun p => (p, a.value)

def Scope.enter (scope : Scope) (attrs : List Attribute) : Scope := declarations attrs ++ scope

inductive ResolveResult where
  | bound (ns : Text)
  | unbound
  | unknown (pre : Text)
  deriving DecidableEq, Repr

def ResolveResult.known : ResolveResult → Bool
  | .unknown _ => false
  | .bound _ | .unbound => true

/-- The local part of a qualified name. -/
def localName (name : Text) : Text :=
  match splitOnce ':' name with
  | some (_, l) => l
  | none => name

def resolvePrefix (scope : Scope) (pre : Text) : ResolveResult :=
  match scope.lookup pre with
  | some (c :: uri) => .bound (c :: uri)
  | some [] | none => .unknown pre

def resolveDefault (scope : Scope) : ResolveResult :=
  match scope.lookup [] with
  | some (c :: uri) => .bound (c :: uri)
  | some [] | none => .unbound

/-- The namespace of an element name: the default namespace applies. -/
def resolveElement (scope : Scope) (name : Text) : ResolveResult :=
  match splitOnce ':' name with
  | some (pre, _) => resolvePrefix scope pre
  | none => resolveDefault scope

/-- The namespace of an attribute name: without a prefix it has none. -/
def resolveAttribute (scope : Scope) (name : Text) : ResolveResult :=
  match splitOnce ':' name with
  | some (pre, _) => resolvePrefix scope pre
  | none => .unbound

theorem resolveElement_congr {s t : Scope} (same : Scope.Same s t) (name : Text) :
    resolveElement s name = resolveElement t name := by
  unfold resolveElement resolvePrefix resolveDefault
  simp only [same _]

theorem resolveAttribute_congr {s t : Scope} (same : Scope.Same s t) (name : Text) :
    resolveAttribute s name = resolveAttribute t name := by
  unfold resolveAttribute resolvePrefix
  simp only [same _]

structure ExpandedName where
  ns : ResolveResult
  localName : Text
  deriving DecidableEq, Repr

def elementName (scope : Scope) (name : Text) : ExpandedName :=
  ⟨resolveElement scope name, localName name⟩

def attributeName (scope : Scope) (name : Text) : ExpandedName :=
  ⟨resolveAttribute scope name, localName name⟩

/-- The attributes of a tag other than namespace declarations, by expanded name. -/
def attributeNames (scope : Scope) (attrs : List Attribute) : List ExpandedName :=
  (attrs.filter fun a => a.declares.isNone).map fun a => attributeName scope a.key

/-- The elements of a forest with the expanded names of elements and attributes. -/
inductive Names where
  | nil
  | element (name : ExpandedName) (attributes : List ExpandedName) (kids rest : Names)
  deriving DecidableEq, Repr

def Content.names (scope : Scope) : Content → Names
  | .nil => .nil
  | .data _ rest => rest.names scope
  | .empty tag rest =>
    .element (elementName (scope.enter tag.attributes) tag.name)
      (attributeNames (scope.enter tag.attributes) tag.attributes) .nil (rest.names scope)
  | .element tag kids rest =>
    .element (elementName (scope.enter tag.attributes) tag.name)
      (attributeNames (scope.enter tag.attributes) tag.attributes)
      (kids.names (scope.enter tag.attributes)) (rest.names scope)

theorem attributeNames_congr {s t : Scope} (same : Scope.Same s t) (attrs : List Attribute) :
    attributeNames s attrs = attributeNames t attrs := by
  unfold attributeNames attributeName
  simp only [resolveAttribute_congr same]

/-- Names depend on a scope only through what it binds. -/
theorem Content.names_congr (c : Content) {s t : Scope} (same : Scope.Same s t) :
    c.names s = c.names t := by
  induction c generalizing s t with
  | nil => rfl
  | data d rest ih => exact ih same
  | empty tag rest ih =>
    have inner : Scope.Same (s.enter tag.attributes) (t.enter tag.attributes) := same.append _
    simp only [names, elementName, resolveElement_congr inner, attributeNames_congr inner, ih same]
  | element tag kids rest kidsIH restIH =>
    have inner : Scope.Same (s.enter tag.attributes) (t.enter tag.attributes) := same.append _
    simp only [names, elementName, resolveElement_congr inner, attributeNames_congr inner,
      kidsIH inner, restIH same]

/-- What a namespace-aware reader reports: events with the namespace of their element.
Only tags have one. -/
abbrev NsEvent := ResolveResult × Event

def Content.resolved (scope : Scope) : Content → List NsEvent
  | .nil => []
  | .data d rest => (.unbound, .data d) :: rest.resolved scope
  | .empty tag rest =>
    (resolveElement (scope.enter tag.attributes) tag.name, .empty tag.read) :: rest.resolved scope
  | .element tag kids rest =>
    (resolveElement (scope.enter tag.attributes) tag.name, .start tag.read) ::
      (kids.resolved (scope.enter tag.attributes) ++
        (resolveElement (scope.enter tag.attributes) tag.name, .close tag.name) ::
          rest.resolved scope)

theorem Content.resolved_append (a b : Content) (scope : Scope) :
    (a.append b).resolved scope = a.resolved scope ++ b.resolved scope := by
  induction a with
  | nil => rfl
  | data d rest ih => simp [append, resolved, ih]
  | empty tag rest ih => simp [append, resolved, ih]
  | element tag kids rest _ ih => simp [append, resolved, ih]

/-- What a reader refuses to bind: a reserved prefix or a reserved namespace on its own. The
default namespace is not checked, and values are compared as they are written. -/
def refusedBinding (a : Attribute) : Bool :=
  match a.declares with
  | none | some [] => false
  | some p =>
    if p = "xml".toList then a.value ≠ xmlNamespace
    else p = "xmlns".toList || a.value = xmlNamespace || a.value = xmlnsNamespace

/-- The constraints of XML Namespaces on one tag: names have at most one colon, and something on
both sides of it; no attribute twice, also not under two prefixes of one namespace; reserved
prefixes and namespaces are left alone; no prefix is taken back; every prefix in use is declared. -/
structure Tag.NamespaceWellFormed (scope : Scope) (tag : Tag) : Prop where
  name : IsQName tag.name
  keys : ∀ a ∈ tag.attributes, IsQName a.key
  unique : tag.Unique
  expanded : (attributeNames (scope.enter tag.attributes) tag.attributes).Nodup
  reserved : ∀ a ∈ tag.attributes, refusedBinding a = false
  default : ∀ a ∈ tag.attributes, a.declares = some [] → a.value ≠ xmlNamespace ∧ a.value ≠ xmlnsNamespace
  kept : ∀ a ∈ tag.attributes, ∀ p, a.declares = some p → p ≠ [] → a.value ≠ []
  element : (resolveElement (scope.enter tag.attributes) tag.name).known = true
  elementPrefix : ∀ parts ∈ splitOnce ':' tag.name, parts.1 ≠ "xmlns".toList
  attributes : ∀ a ∈ tag.attributes, a.declares = none →
    (resolveAttribute (scope.enter tag.attributes) a.key).known = true

theorem Tag.namespaceWellFormed_iff (scope : Scope) (tag : Tag) :
    tag.NamespaceWellFormed scope ↔
      IsQName tag.name ∧ (∀ a ∈ tag.attributes, IsQName a.key) ∧ tag.Unique ∧
      (attributeNames (scope.enter tag.attributes) tag.attributes).Nodup ∧
      (∀ a ∈ tag.attributes, refusedBinding a = false) ∧
      (∀ a ∈ tag.attributes, a.declares = some [] → a.value ≠ xmlNamespace ∧ a.value ≠ xmlnsNamespace) ∧
      (∀ a ∈ tag.attributes, ∀ p ∈ a.declares, p ≠ [] → a.value ≠ []) ∧
      (resolveElement (scope.enter tag.attributes) tag.name).known = true ∧
      (∀ parts ∈ splitOnce ':' tag.name, parts.1 ≠ "xmlns".toList) ∧
      ∀ a ∈ tag.attributes, a.declares = none →
        (resolveAttribute (scope.enter tag.attributes) a.key).known = true :=
  ⟨fun h => ⟨h.name, h.keys, h.unique, h.expanded, h.reserved, h.default, h.kept, h.element, h.elementPrefix,
      h.attributes⟩,
    fun ⟨name, keys, unique, expanded, reserved, default, kept, element, elementPrefix, attributes⟩ =>
      ⟨name, keys, unique, expanded, reserved, default, kept, element, elementPrefix, attributes⟩⟩

instance (scope : Scope) (tag : Tag) : Decidable (tag.NamespaceWellFormed scope) :=
  decidable_of_iff _ (tag.namespaceWellFormed_iff scope).symm

theorem Attribute.declares_eq_some {a : Attribute} {p : Text} (declares : a.declares = some p) :
    p = [] ∧ a.key = "xmlns".toList ∨ a.key = "xmlns:".toList ++ p := by
  unfold Attribute.declares at declares
  split at declares
  next whole => exact .inl ⟨(Option.some.inj declares).symm, whole⟩
  next => exact .inr (stripPrefix_eq_some.mp declares)

/-- A prefix that is declared is a name without a colon, and only `xmlns` declares the empty one. -/
theorem Attribute.declares_plain {a : Attribute} (key : IsQName a.key) {p : Text}
    (declares : a.declares = some p) :
    ':' ∉ p ∧ (p = [] → a.key = "xmlns".toList) := by
  rcases a.declares_eq_some declares with ⟨rfl, whole⟩ | prefixed
  · exact ⟨by simp, fun _ => whole⟩
  · have parts : splitOnce ':' a.key = some ("xmlns".toList, p) := by
      rw [prefixed]
      exact splitOnce_append ':' "xmlns".toList p (by decide)
    obtain ⟨_, nonempty, plain⟩ := key.prefix_ne_nil parts
    exact ⟨plain, fun empty => absurd empty nonempty⟩

theorem Tag.NamespaceWellFormed.declared {scope : Scope} {tag : Tag}
    (wellFormed : tag.NamespaceWellFormed scope) (a : Attribute) (member : a ∈ tag.attributes)
    (p : Text) (declares : a.declares = some p) :
    ':' ∉ p ∧ (p ≠ [] → a.value ≠ []) ∧ (p = [] → a.key = "xmlns".toList) := by
  obtain ⟨plain, whole⟩ := a.declares_plain (wellFormed.keys a member) declares
  exact ⟨plain, wellFormed.kept a member p declares, whole⟩

/-- A tag that the reader resolves: it refuses none of the declarations, and looks no reserved or
empty prefix up. -/
structure Tag.Resolvable (tag : Tag) : Prop where
  bindings : ∀ a ∈ tag.attributes, refusedBinding a = false ∧ a.key ≠ "xmlns:".toList
  element : ∀ parts ∈ splitOnce ':' tag.name, parts.1 ≠ [] ∧ parts.1 ≠ "xmlns".toList

instance (tag : Tag) : Decidable tag.Resolvable :=
  decidable_of_iff ((∀ a ∈ tag.attributes, refusedBinding a = false ∧ a.key ≠ "xmlns:".toList) ∧
      ∀ parts ∈ splitOnce ':' tag.name, parts.1 ≠ [] ∧ parts.1 ≠ "xmlns".toList)
    ⟨fun h => ⟨h.1, h.2⟩, fun h => ⟨h.bindings, h.element⟩⟩

theorem Tag.NamespaceWellFormed.resolvable {scope : Scope} {tag : Tag}
    (wellFormed : tag.NamespaceWellFormed scope) :
    tag.Resolvable where
  bindings a member := by
    refine ⟨wellFormed.reserved a member, fun bare => ?_⟩
    have key := wellFormed.keys a member
    rw [bare] at key
    exact absurd key (by decide)
  element parts found := ⟨(wellFormed.name.prefix_ne_nil found).1,
    wellFormed.elementPrefix parts found⟩

def Content.NamespaceWellFormed (scope : Scope) : Content → Prop
  | .nil => True
  | .data _ rest => rest.NamespaceWellFormed scope
  | .empty tag rest => tag.NamespaceWellFormed scope ∧ rest.NamespaceWellFormed scope
  | .element tag kids rest =>
    tag.NamespaceWellFormed scope ∧ kids.NamespaceWellFormed (scope.enter tag.attributes) ∧
      rest.NamespaceWellFormed scope

instance decidableNamespaceWellFormed (scope : Scope) :
    (c : Content) → Decidable (c.NamespaceWellFormed scope)
  | .nil => inferInstanceAs (Decidable True)
  | .data _ rest => decidableNamespaceWellFormed scope rest
  | .empty tag rest =>
    have := decidableNamespaceWellFormed scope rest
    inferInstanceAs (Decidable (tag.NamespaceWellFormed scope ∧ rest.NamespaceWellFormed scope))
  | .element tag kids rest =>
    have := decidableNamespaceWellFormed (scope.enter tag.attributes) kids
    have := decidableNamespaceWellFormed scope rest
    inferInstanceAs (Decidable (tag.NamespaceWellFormed scope ∧
      kids.NamespaceWellFormed (scope.enter tag.attributes) ∧ rest.NamespaceWellFormed scope))

theorem Content.NamespaceWellFormed.allTags {P : Tag → Prop}
    (each : ∀ (scope : Scope) (tag : Tag), tag.NamespaceWellFormed scope → P tag) {scope : Scope}
    {c : Content} (wellFormed : c.NamespaceWellFormed scope) : c.AllTags P := by
  induction c generalizing scope with
  | nil => trivial
  | data d rest ih => exact ih wellFormed
  | empty tag rest ih => exact ⟨each _ _ wellFormed.1, ih wellFormed.2⟩
  | element tag kids rest kidsIH restIH =>
    exact ⟨each _ _ wellFormed.1, kidsIH wellFormed.2.1, restIH wellFormed.2.2⟩

theorem Content.NamespaceWellFormed.unique {scope : Scope} {c : Content}
    (wellFormed : c.NamespaceWellFormed scope) : c.AllTags Tag.Unique :=
  wellFormed.allTags fun _ _ tag => tag.unique

theorem Content.NamespaceWellFormed.resolvable {scope : Scope} {c : Content}
    (wellFormed : c.NamespaceWellFormed scope) : c.AllTags Tag.Resolvable :=
  wellFormed.allTags fun _ _ tag => tag.resolvable

end Markup
