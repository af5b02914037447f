import SoapServer.Dom
import SoapServer.Library.Traversals
import SoapServer.Markup.Names
import SoapServer.Markup.Scanner
import SoapServer.Markup.TagText

/-! The tree of a document: references and line ends replaced, names expanded, and each
element with the namespaces in scope. -/

set_option autoImplicit false

namespace SoapServer

open Markup

/-- Put text before siblings, joined with text that stands there. -/
def DomForest.prepend (s : Text) : DomForest → DomForest
  | .text t rest => .text (s ++ t) rest
  | f => if s = [] then f else .text s f

namespace Tree

/-- Namespaces by prefix; no prefix is the default namespace. -/
abbrev Namespaces := List (Option Text × Text)

/-- Line ends as one character each. -/
def normalizeLines : Text → Text
  | '\r' :: '\n' :: s => '\n' :: normalizeLines s
  | '\r' :: s => '\n' :: normalizeLines s
  | c :: s => c :: normalizeLines s
  | [] => []

/-- Every ampersand begins a reference to something known. -/
def referencesKnown (deref : Text → Option Text) : Text → Bool
  | [] => true
  | c :: s =>
    (if c = '&' then
      match splitOnce ';' s with
      | some (name, _) => (deref name).isSome
      | none => false
    else true) && referencesKnown deref s

def attributeValue (deref : Text → Option Text) (raw : Text) : Text :=
  decodeValue (fun name => (deref name).getD [])
    ((normalizeLines raw).map fun c => if c = '\t' ∨ c = '\n' then ' ' else c)

/-- The namespace an attribute declares; that of `xml` is known without. -/
def declaredBy (deref : Text → Option Text) (a : Attribute) : Option (Option Text × Text) :=
  match a.declares with
  | some p =>
    if p = "xml".toList then none else some (if p = [] then none else some p, attributeValue deref a.value)
  | none => none

def ownNamespaces (deref : Text → Option Text)
    (tag : Tag) : Namespaces := tag.attributes.filterMap (declaredBy deref)

def inScope (inherited own : Namespaces) : Namespaces :=
  own ++ inherited.filter fun d => d.1 ∉ own.map Prod.fst

def prefixNamespace (namespaces : Namespaces) (pre : Text) : Option Text :=
  if pre = "xml".toList then some xmlNamespace else namespaces.lookup (some pre)

/-- The default namespace; an empty one is none. -/
def defaultNamespace (namespaces : Namespaces) : Option Text := (namespaces.lookup none).filter (· ≠ [])

/-- A name with its namespace, which is `unprefixed` where it has no prefix. -/
def expandName (namespaces : Namespaces) (unprefixed : Option Text)
    (name : Text) : Option (Option Text × Text) :=
  match splitOnce ':' name with
  | some (pre, l) => (prefixNamespace namespaces pre).map fun uri => (some uri, l)
  | none => some (unprefixed, name)

def attributeOf (deref : Text → Option Text) (namespaces : Namespaces)
    (a : Attribute) : Option DomAttribute :=
  (expandName namespaces none a.key).map fun name => ⟨name.1, name.2, attributeValue deref a.value⟩

structure ProperDeclaration (d : Option Text × Text) : Prop where
  notXml : d.2 ≠ xmlNamespace
  notXmlns : d.2 ≠ xmlnsNamespace
  pre : ∀ p ∈ d.1, IsNcName p ∧ p ≠ "xml".toList ∧ p ≠ "xmlns".toList ∧ d.2 ≠ []

instance (d : Option Text × Text) : Decidable (ProperDeclaration d) :=
  decidable_of_iff (d.2 ≠ xmlNamespace ∧ d.2 ≠ xmlnsNamespace ∧
      ∀ p ∈ d.1, IsNcName p ∧ p ≠ "xml".toList ∧ p ≠ "xmlns".toList ∧ d.2 ≠ [])
    ⟨fun h => ⟨h.1, h.2.1, h.2.2⟩, fun h => ⟨h.notXml, h.notXmlns, h.pre⟩⟩

structure ProperAttribute (deref : Text → Option Text) (a : Attribute) : Prop where
  key : IsQName a.key
  noTag : '<' ∉ a.value
  references : referencesKnown deref a.value = true
  chars : ∀ c ∈ attributeValue deref a.value, isXmlChar c = true
  xml : a.declares = some "xml".toList → attributeValue deref a.value = xmlNamespace

instance (deref : Text → Option Text) (a : Attribute) : Decidable (ProperAttribute deref a) :=
  decidable_of_iff (IsQName a.key ∧ '<' ∉ a.value ∧ referencesKnown deref a.value = true ∧
      (∀ c ∈ attributeValue deref a.value, isXmlChar c = true) ∧
      (a.declares = some "xml".toList → attributeValue deref a.value = xmlNamespace))
    ⟨fun h => ⟨h.1, h.2.1, h.2.2.1, h.2.2.2.1, h.2.2.2.2⟩,
      fun h => ⟨h.key, h.noTag, h.references, h.chars, h.xml⟩⟩

/-- The constraints of XML and its namespaces on one tag, apart from the prefixes in use. -/
structure ProperTag (deref : Text → Option Text) (tag : Tag) : Prop where
  name : IsQName tag.name
  unique : tag.Unique
  attributes : ∀ a ∈ tag.attributes, ProperAttribute deref a
  own : ((ownNamespaces deref tag).map Prod.fst).Nodup
  declarations : ∀ d ∈ ownNamespaces deref tag, ProperDeclaration d

instance (deref : Text → Option Text) (tag : Tag) : Decidable (ProperTag deref tag) :=
  decidable_of_iff (IsQName tag.name ∧ tag.Unique ∧ (∀ a ∈ tag.attributes, ProperAttribute deref a) ∧
      ((ownNamespaces deref tag).map Prod.fst).Nodup ∧ ∀ d ∈ ownNamespaces deref tag, ProperDeclaration d)
    ⟨fun h => ⟨h.1, h.2.1, h.2.2.1, h.2.2.2.1, h.2.2.2.2⟩,
      fun h => ⟨h.name, h.unique, h.attributes, h.own, h.declarations⟩⟩

/-- No attribute of an element has the expanded name of another. -/
def DistinctAttributes (attributes : List DomAttribute) : Prop := (attributes.map fun a => (a.ns, a.name)).Nodup

instance (attributes : List DomAttribute) : Decidable (DistinctAttributes attributes) := by
  unfold DistinctAttributes; infer_instance

/-- The element of a tag, if the tag is proper and every prefix in use is declared. -/
def elementOf (deref : Text → Option Text) (inherited : Namespaces)
    (tag : Tag) : Option DomElement := do
  let namespaces := inScope inherited (ownNamespaces deref tag)
  let (ns, name) ← expandName namespaces (defaultNamespace namespaces) tag.name
  let attributes ← (tag.attributes.filter fun a => a.declares = none).mapM (attributeOf deref namespaces)
  if ProperTag deref tag ∧ DistinctAttributes attributes then some ⟨ns, name, attributes, namespaces⟩ else none

/-- The end of a section, which character data cannot hold. -/
def HoldsSectionEnd (s : Text) : Prop := sectionClose <:+: s

instance (s : Text) : Decidable (HoldsSectionEnd s) := by unfold HoldsSectionEnd; infer_instance

/-- The character data that stands for itself. -/
def textOf (deref : Text → Option Text) : Data → Option Text
  | .text raw => if HoldsSectionEnd raw then none else some (normalizeLines raw)
  | .cdata raw => some (normalizeLines raw)
  | .generalRef name => deref name
  | .comment _ | .pi _ | .decl _ | .docType _ => none

def forestOf (deref : Text → Option Text) : Namespaces → Content → Option DomForest
  | _, .nil => some .nil
  | inherited, .data d rest => do
    let after ← forestOf deref inherited rest
    match d with
    | .comment _ | .pi _ => some (.other after)
    | .decl _ | .docType _ => none
    | d =>
      let s ← textOf deref d
      if ∀ c ∈ s, isXmlChar c = true then some (after.prepend s) else none
  | inherited, .empty tag rest => do
    let e ← elementOf deref inherited tag
    let after ← forestOf deref inherited rest
    some (.element e .nil after)
  | inherited, .element tag kids rest => do
    let e ← elementOf deref inherited tag
    let children ← forestOf deref e.namespaces kids
    let after ← forestOf deref inherited rest
    some (.element e children after)

/-- The tree of a document, given its root. -/
def documentTree (deref : Text → Option Text) (root : Element) : Option DomNode :=
  match forestOf deref [] root.alone with
  | some (.element e children _) => some ⟨e, children⟩
  | _ => none

/-- A document of tags and text alone, without references. -/
structure Literal (root : Element) : Prop where
  writable : root.alone.Writable
  normal : root.alone.Normal
  values : root.alone.AllTags fun tag => ∀ a ∈ tag.attributes, '&' ∉ a.value
  data : root.alone.AllData fun d => ∃ raw, d = .text raw

end Tree

/-- Every prefix in scope stands for a namespace, at every element. -/
def DomForest.PrefixesBound : DomForest → Prop
  | .nil => True
  | .text _ rest | .other rest => rest.PrefixesBound
  | .element e children rest =>
    (∀ d ∈ e.namespaces, d.1 ≠ none → d.2 ≠ []) ∧ children.PrefixesBound ∧ rest.PrefixesBound

instance decidablePrefixesBound : (f : DomForest) → Decidable f.PrefixesBound
  | .nil => inferInstanceAs (Decidable True)
  | .text _ rest | .other rest => decidablePrefixesBound rest
  | .element e children rest =>
    have := decidablePrefixesBound children
    have := decidablePrefixesBound rest
    inferInstanceAs (Decidable ((∀ d ∈ e.namespaces, d.1 ≠ none → d.2 ≠ []) ∧ children.PrefixesBound ∧
      rest.PrefixesBound))

/-- The document takes no prefix back, which XML Namespaces forbids and the parser lets pass. -/
def DomNode.PrefixesBound (node : DomNode) : Prop := (DomForest.element node.element node.children .nil).PrefixesBound

instance (node : DomNode) : Decidable node.PrefixesBound := by unfold DomNode.PrefixesBound; infer_instance

/-- The documented behaviour of the tree parser: what it returns is the tree of some document,
whatever its entities, unless a prefix is taken back there; and a literal document has its tree
read from its written form. Where the parser has an empty namespace, for elements below
`xmlns=""`, trees have none, and where it has a text without characters, for an empty section,
they have no text: nothing that is read of a tree tells these apart. -/
structure TreeParser.Lawful (parseXml : Text → Except Text DomNode) : Prop where
  trees : ∀ s node, parseXml s = .ok node → node.PrefixesBound →
    ∃ deref root, Tree.documentTree deref root = some node
  written : ∀ deref root node, Tree.Literal root → Tree.documentTree deref root = some node →
    parseXml root.alone.write = .ok node

namespace Tree

/-! Texts without references. -/

theorem decodeFrom_of_noReference (deref : Text → Text) {s : Text} (plain : '&' ∉ s) :
    decodeFrom deref none s = s := by
  induction s with
  | nil => rfl
  | cons c s ih =>
    have different : c ≠ '&' := fun same => plain (same ▸ .head _)
    rw [decodeFrom, if_neg different, ih fun member => plain (.tail _ member)]

theorem referencesKnown_of_noReference (deref : Text → Option Text) {s : Text} (plain : '&' ∉ s) :
    referencesKnown deref s = true := by
  induction s with
  | nil => rfl
  | cons c s ih =>
    have different : c ≠ '&' := fun same => plain (same ▸ .head _)
    rw [referencesKnown, if_neg different, Bool.true_and, ih fun member => plain (.tail _ member)]

theorem normalizeLines_of_literal {s : Text} (plain : '\r' ∉ s) : normalizeLines s = s := by
  induction s with
  | nil => rfl
  | cons c s ih =>
    have rest := ih fun member => plain (.tail _ member)
    have different : c ≠ '\r' := fun same => plain (same ▸ .head _)
    rw [normalizeLines.eq_def]
    split
    next same => exact absurd (List.cons.inj same).1 different
    next same => exact absurd (List.cons.inj same).1 different
    next same => cases same; rw [rest]
    next same => cases same

/-! What holds throughout a tree. -/

/-- Declarations in scope, each prefix once. -/
structure ProperNamespaces (namespaces : Namespaces) : Prop where
  distinct : (namespaces.map Prod.fst).Nodup
  proper : ∀ d ∈ namespaces, ProperDeclaration d
  chars : ∀ d ∈ namespaces, ∀ c ∈ d.2, isXmlChar c = true

theorem properNamespaces_nil : ProperNamespaces [] := ⟨List.nodup_nil, by simp, by simp⟩

theorem ProperNamespaces.lookup_eq {namespaces : Namespaces} (proper : ProperNamespaces namespaces)
    {d : Option Text × Text} (member : d ∈ namespaces) : namespaces.lookup d.1 = some d.2 :=
  Associations.lookup_of_mem proper.distinct member

structure ScopedElement (inherited : Namespaces) (e : DomElement) : Prop where
  namespaces : ProperNamespaces e.namespaces
  covers : ∀ d ∈ inherited, d.1 ∈ e.namespaces.map Prod.fst
  name : IsNcName e.name
  noNamespace : e.ns = none → defaultNamespace e.namespaces = none
  nonempty : e.ns ≠ some []
  attributes : ∀ a ∈ e.attributes, IsNcName a.name ∧ (a.ns = none → a.name ≠ "xmlns".toList) ∧
    ∀ c ∈ a.value, isXmlChar c = true
  distinct : DistinctAttributes e.attributes

end Tree

/-- Every element has proper namespaces, among them those of its parent. -/
def DomForest.Scoped : Tree.Namespaces → DomForest → Prop
  | _, .nil => True
  | inherited, .text s rest => (∀ c ∈ s, isXmlChar c = true) ∧ rest.Scoped inherited
  | inherited, .other rest => rest.Scoped inherited
  | inherited, .element e children rest =>
    Tree.ScopedElement inherited e ∧ children.Scoped e.namespaces ∧ rest.Scoped inherited

theorem DomForest.Scoped.prepend {inherited : Tree.Namespaces} {f : DomForest}
    (within : f.Scoped inherited) {s : Text} (chars : ∀ c ∈ s, isXmlChar c = true) :
    (f.prepend s).Scoped inherited := by
  unfold DomForest.prepend
  split
  next t rest =>
    refine ⟨fun c member => ?_, within.2⟩
    rcases List.mem_append.mp member with member | member
    · exact chars c member
    · exact within.1 c member
  next =>
    split
    next => exact within
    next => exact ⟨chars, within⟩

theorem DomForest.elements_prepend (s : Text) (f : DomForest) :
    (f.prepend s).elements = f.elements := by
  unfold DomForest.prepend
  split
  · rfl
  · split <;> rfl

namespace Tree

variable {deref : Text → Option Text} {inherited : Namespaces}

/-- Data stands beside the elements of a tree. -/
theorem forestOf_data {d : Data} {rest : Content} {f : DomForest}
    (run : forestOf deref inherited (.data d rest) = some f) :
    ∃ after, forestOf deref inherited rest = some after ∧ f.elements = after.elements ∧
      ∀ rest' after', forestOf deref inherited rest' = some after' →
        ∃ f', forestOf deref inherited (.data d rest') = some f' ∧ f'.elements = after'.elements := by
  simp only [forestOf, Option.bind_eq_bind, Option.bind_eq_some_iff] at run
  obtain ⟨after, restRun, run⟩ := run
  refine ⟨after, restRun, ?_⟩
  -- a text joins the node behind it, and adds no element
  have written {o : Option Text} (run : (o.bind fun s => if ∀ c ∈ s, isXmlChar c = true then some (after.prepend s)
      else none) = some f) : f.elements = after.elements ∧ ∀ after' : DomForest, ∃ f',
        (o.bind fun s => if ∀ c ∈ s, isXmlChar c = true then some (after'.prepend s) else none) = some f' ∧
          f'.elements = after'.elements := by
    obtain ⟨s, text, run⟩ := Option.bind_eq_some_iff.mp run
    split at run
    next chars =>
      cases run
      refine ⟨DomForest.elements_prepend s after,
        fun after' => ⟨after'.prepend s, ?_, DomForest.elements_prepend s after'⟩⟩
      rw [text, Option.bind_some, if_pos chars]
    next => cases run
  cases d with
  | text raw | cdata raw | generalRef name =>
    obtain ⟨elements, others⟩ := written run
    refine ⟨elements, fun rest' after' restRun' => ?_⟩
    obtain ⟨f', run', elements'⟩ := others after'
    refine ⟨f', ?_, elements'⟩
    simp only [forestOf, restRun', Option.bind_eq_bind, Option.bind_some]
    exact run'
  | comment raw | pi raw =>
    cases run
    refine ⟨rfl, fun rest' after' restRun' => ⟨.other after', ?_, rfl⟩⟩
    simp only [forestOf, restRun', Option.bind_eq_bind, Option.bind_some]
  | decl raw | docType raw => cases run

theorem forestOf_empty {tag : Tag} {rest : Content} {f : DomForest} :
    forestOf deref inherited (.empty tag rest) = some f ↔
      ∃ e, elementOf deref inherited tag = some e ∧ ∃ after, forestOf deref inherited rest = some after ∧
        .element e .nil after = f := by
  simp only [forestOf, Option.bind_eq_bind, Option.bind_eq_some_iff, Option.some.injEq]

theorem forestOf_element {tag : Tag} {kids rest : Content} {f : DomForest} :
    forestOf deref inherited (.element tag kids rest) = some f ↔
      ∃ e, elementOf deref inherited tag = some e ∧ ∃ children, forestOf deref e.namespaces kids = some children ∧
        ∃ after, forestOf deref inherited rest = some after ∧ .element e children after = f := by
  simp only [forestOf, Option.bind_eq_bind, Option.bind_eq_some_iff, Option.some.injEq]

theorem elementOf_eq_some {tag : Tag} {e : DomElement}
    (run : elementOf deref inherited tag = some e) :
    ProperTag deref tag ∧ DistinctAttributes e.attributes ∧ e.namespaces = inScope inherited (ownNamespaces deref tag) ∧
      expandName e.namespaces (defaultNamespace e.namespaces) tag.name = some (e.ns, e.name) ∧
      ∀ a ∈ e.attributes, ∃ raw ∈ tag.attributes, raw.declares = none ∧ attributeOf deref e.namespaces raw = some a := by
  simp only [elementOf, Option.bind_eq_bind, Option.bind_eq_some_iff] at run
  obtain ⟨⟨ns, name⟩, named, attributes, read, run⟩ := run
  split at run
  next proper =>
    cases run
    refine ⟨proper.1, proper.2, rfl, named, fun a member => ?_⟩
    obtain ⟨raw, among, found⟩ := Traversals.exists_source read member
    obtain ⟨among, plain⟩ := List.mem_filter.mp among
    exact ⟨raw, among, of_decide_eq_true plain, found⟩
  next => cases run

theorem elementOf_localName {tag : Tag} {e : DomElement}
    (run : elementOf deref inherited tag = some e) : localName tag.name = e.name := by
  obtain ⟨_, _, _, named, _⟩ := elementOf_eq_some run
  unfold expandName at named
  unfold localName
  cases divided : splitOnce ':' tag.name with
  | some parts =>
    obtain ⟨pre, l⟩ := parts
    simp only [divided] at named ⊢
    obtain ⟨_, _, same⟩ := Option.map_eq_some_iff.mp named
    exact (Prod.mk.inj same).2
  | none =>
    simp only [divided] at named ⊢
    exact (Prod.mk.inj (Option.some.inj named)).2

theorem elementOf_attributes {tag : Tag} {e : DomElement}
    (run : elementOf deref inherited tag = some e) :
    (tag.attributes.filter fun a => a.declares = none).mapM (attributeOf deref e.namespaces) = some e.attributes := by
  simp only [elementOf, Option.bind_eq_bind, Option.bind_eq_some_iff] at run
  obtain ⟨_, _, attributes, read, run⟩ := run
  split at run
  · cases run
    exact read
  · cases run

theorem ownNamespaces_chars {tag : Tag} (proper : ProperTag deref tag) {d : Option Text × Text}
    (member : d ∈ ownNamespaces deref tag) {c : Char} (inside : c ∈ d.2) : isXmlChar c = true := by
  obtain ⟨a, among, declared⟩ := List.mem_filterMap.mp member
  unfold declaredBy at declared
  split at declared
  next p _ =>
    split at declared
    next => cases declared
    next =>
      cases declared
      exact (proper.attributes a among).chars c inside
  next => cases declared

theorem ProperTag.inScope {tag : Tag} (proper : ProperTag deref tag)
    (before : ProperNamespaces inherited) :
    ProperNamespaces (inScope inherited (ownNamespaces deref tag)) where
  distinct := by
    rw [Tree.inScope, List.map_append, List.nodup_append]
    refine ⟨proper.own, before.distinct.sublist (List.filter_sublist.map _), ?_⟩
    intro p here q there same
    obtain ⟨d, member, rfl⟩ := List.mem_map.mp there
    have fresh := (List.mem_filter.mp member).2
    exact absurd here (by simpa [same] using fresh)
  proper d member := by
    rcases List.mem_append.mp member with member | member
    · exact proper.declarations d member
    · exact before.proper d (List.mem_filter.mp member).1
  chars d member c inside := by
    rcases List.mem_append.mp member with member | member
    · exact ownNamespaces_chars proper member inside
    · exact before.chars d (List.mem_filter.mp member).1 c inside

/-- Expanding a name: its local part is a name, and a prefix gives a namespace. -/
theorem expandName_eq_some {namespaces : Namespaces} (proper : ProperNamespaces namespaces)
    {unprefixed ns : Option Text} {name l : Text} (isQName : IsQName name)
    (run : expandName namespaces unprefixed name = some (ns, l)) :
    IsNcName l ∧ (ns = unprefixed ∧ l = name ∨ ∃ uri, ns = some uri ∧ uri ≠ []) := by
  unfold expandName at run
  unfold IsQName at isQName
  split at run
  next pre l' split =>
    rw [split] at isQName
    obtain ⟨uri, found, same⟩ := Option.map_eq_some_iff.mp run
    cases same
    refine ⟨isQName.2, .inr ⟨uri, rfl, ?_⟩⟩
    unfold prefixNamespace at found
    split at found
    next => exact fun empty => absurd (found.trans (congrArg some empty)) (by decide)
    next =>
      obtain ⟨before, after, split, _⟩ := List.lookup_eq_some_iff.mp found
      have declared := proper.proper (some pre, uri) (by rw [split]; simp)
      exact (declared.pre pre rfl).2.2.2
  next split =>
    rw [split] at isQName
    cases run
    exact ⟨isQName, .inl ⟨rfl, rfl⟩⟩

theorem elementOf_scoped {tag : Tag} {e : DomElement} (before : ProperNamespaces inherited)
    (run : elementOf deref inherited tag = some e) : ScopedElement inherited e := by
  obtain ⟨proper, distinct, scope, named, attributes⟩ := elementOf_eq_some run
  have namespaces : ProperNamespaces e.namespaces := scope ▸ proper.inScope before
  obtain ⟨isName, expanded⟩ := expandName_eq_some namespaces proper.name named
  refine ⟨namespaces, ?_, isName, ?_, ?_, ?_, distinct⟩
  · intro d member
    rw [scope, inScope, List.map_append, List.mem_append]
    -- the tag declares the prefix, or the scope around it does
    by_cases own : d.1 ∈ (ownNamespaces deref tag).map Prod.fst
    · exact .inl own
    · exact .inr (List.mem_map.mpr ⟨d, List.mem_filter.mpr ⟨member, by simpa using own⟩, rfl⟩)
  · intro none
    rcases expanded with ⟨same, _⟩ | ⟨uri, same, _⟩
    · exact same.symm.trans none
    · rw [none] at same; cases same
  · intro empty
    rcases expanded with ⟨same, _⟩ | ⟨uri, same, filled⟩
    · have := (Option.filter_eq_some_iff.mp (same.symm.trans empty)).2
      simp at this
    · exact filled (Option.some.inj (same.symm.trans empty))
  · intro a member
    obtain ⟨raw, among, plain, read⟩ := attributes a member
    obtain ⟨⟨ns, l⟩, named, rfl⟩ := Option.map_eq_some_iff.mp read
    obtain ⟨isName, expanded⟩ := expandName_eq_some namespaces (proper.attributes raw among).key named
    refine ⟨isName, fun none => ?_, (proper.attributes raw among).chars⟩
    rcases expanded with ⟨_, same⟩ | ⟨uri, same, _⟩
    · rintro rfl
      rw [Attribute.declares, ← same, if_pos rfl] at plain
      cases plain
    · cases none.symm.trans same

theorem forestOf_scoped {c : Content} {f : DomForest} (before : ProperNamespaces inherited)
    (run : forestOf deref inherited c = some f) : f.Scoped inherited := by
  induction c generalizing inherited f with
  | nil => cases run; trivial
  | data d rest ih =>
    simp only [forestOf, Option.bind_eq_bind, Option.bind_eq_some_iff] at run
    obtain ⟨after, restRun, run⟩ := run
    have within := ih before restRun
    -- a text may be one of XML only
    have written {s : Text} {g : DomForest}
        (run : (if ∀ c ∈ s, isXmlChar c = true then some (after.prepend s) else none) = some g) :
        g.Scoped inherited := by
      split at run
      next chars => cases run; exact within.prepend chars
      next => cases run
    cases d with
    | text raw | cdata raw | generalRef name =>
      simp only [Option.bind_eq_some_iff] at run
      obtain ⟨s, _, run⟩ := run
      exact written run
    | comment raw | pi raw => cases run; exact within
    | decl raw | docType raw => cases run
  | empty tag rest ih =>
    obtain ⟨e, element, after, restRun, rfl⟩ := forestOf_empty.mp run
    exact ⟨elementOf_scoped before element, trivial, ih before restRun⟩
  | element tag kids rest kidsIH restIH =>
    obtain ⟨e, element, children, kidsRun, after, restRun, rfl⟩ := forestOf_element.mp run
    have within := elementOf_scoped before element
    exact ⟨within, kidsIH within.namespaces kidsRun, restIH before restRun⟩

/-- The tree of a document, below the root. -/
theorem documentTree_scoped {root : Element} {node : DomNode}
    (run : documentTree deref root = some node) :
    ScopedElement [] node.element ∧ node.children.Scoped node.element.namespaces := by
  unfold documentTree at run
  split at run
  next e children rest tree =>
    cases run
    have within := forestOf_scoped properNamespaces_nil tree
    exact ⟨within.1, within.2.1⟩
  next => cases run

end Tree

end SoapServer
