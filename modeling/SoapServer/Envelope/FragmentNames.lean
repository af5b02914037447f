import SoapServer.Envelope.Message
import SoapServer.RootName

/-! The names of elements and attributes in the extracted fragments, read as documents
of their own.

The bindings that a fragment inherits are emitted one by one, so a prefix that both
`Envelope` and the part declare is declared twice on the fragment's root.
-/

set_option autoImplicit false

namespace Markup

theorem Content.names_kept (c : Content) (scope : Scope) : c.kept.names scope = c.names scope := by
  induction c generalizing scope with
  | nil => rfl
  | data d rest ih => cases d <;> exact ih scope
  | empty tag rest ih => simp only [kept, names, ih]
  | element tag kids rest kidsIH restIH => simp only [kept, names, kidsIH, restIH]

theorem Content.names_prependText (s : Text) (c : Content) (scope : Scope) :
    (prependText s c).names scope = c.names scope := by
  unfold prependText
  split
  · rfl
  · split <;> rfl

theorem Content.names_coalesce (c : Content) (scope : Scope) :
    c.coalesce.names scope = c.names scope := by
  induction c generalizing scope with
  | nil => rfl
  | data d rest ih => 
    cases d with
    | text s => rw [coalesce, names_prependText]; exact ih scope
    | _ => exact ih scope
  | empty tag rest ih => simp only [coalesce, names, ih]
  | element tag kids rest kidsIH restIH => simp only [coalesce, names, kidsIH, restIH]

end Markup

namespace SoapServer.Envelope

open Markup

/-! Bindings as attributes. -/

theorem bindingKey_injective {p q : Text} (same : bindingKey p = bindingKey q) : p = q := by
  unfold bindingKey at same
  by_cases left : p = [] <;> by_cases right : q = []
  · rw [left, right]
  · have := congrArg List.length same
    simp [left, right, xmlns, xmlnsColon] at this
  · have := congrArg List.length same
    simp [left, right, xmlns, xmlnsColon] at this
  · simpa [left, right] using same

theorem declares_bindingKey (p value : Text) :
    (Attribute.mk (bindingKey p) value).declares = some p := by
  unfold Attribute.declares bindingKey
  by_cases empty : p = []
  · simp [empty, xmlns]
  · have prefixed : xmlnsColon ++ p ≠ "xmlns".toList := by
      intro same
      have := congrArg List.length same
      simp [xmlnsColon] at this
    simp only [empty, if_false, prefixed]
    exact stripPrefix_append _ _

theorem declarations_bindingAttributes (bindings : Scope) :
    declarations (bindingAttributes bindings) = bindings := by
  unfold declarations bindingAttributes
  rw [List.filterMap_map]
  simp [declares_bindingKey]

theorem declarations_append (a b : List Attribute) :
    declarations (a ++ b) = declarations a ++ declarations b :=
  List.filterMap_append

/-- The inherited bindings add what the root does not declare, and hide nothing. -/
theorem inherited_same (bindings outer : Scope) (el : Element) :
    Scope.Same (inherited bindings el ++ (declarations el.tag.attributes ++ outer))
      (declarations el.tag.attributes ++ (bindings ++ outer)) := by
  intro p
  simp only [List.lookup_append]
  by_cases own : p ∈ (declarations el.tag.attributes).map Prod.fst
  · have hidden : (inherited bindings el).lookup p = none := by
      rw [Associations.lookup_eq_none_iff]
      intro found
      obtain ⟨binding, member, rfl⟩ := List.mem_map.mp found
      have absent := (List.mem_filter.mp member).2
      simp only [decide_eq_true_eq] at absent
      exact absent own
    obtain ⟨v, found⟩ := Option.ne_none_iff_exists'.mp (mt Associations.lookup_eq_none_iff.mp (not_not.mpr own))
    simp [hidden, found]
  · have kept : (inherited bindings el).lookup p = bindings.lookup p :=
      Associations.lookup_filter (fun q => q ∉ (declarations el.tag.attributes).map Prod.fst) (by simpa using own)
    simp [Associations.lookup_eq_none_iff.mpr own, kept]

/-- A fragment read in the initial scope has the names of its element. -/
theorem fragment_names (bindings : Scope) (el : Element) :
    (fragment bindings el).alone.names Scope.initial = el.alone.names (bindings ++ Scope.initial) := by
  have same := inherited_same bindings Scope.initial el
  -- what the fragment declares first is the scope around the element
  have entered : Scope.initial.enter (fragment bindings el).tag.attributes =
      inherited bindings el ++ (declarations el.tag.attributes ++ Scope.initial) := by
    simp [Scope.enter, fragment, declarations_append, declarations_bindingAttributes]
  have element : elementName (Scope.initial.enter (fragment bindings el).tag.attributes)
      (fragment bindings el).tag.name =
        elementName (Scope.enter (bindings ++ Scope.initial) el.tag.attributes) el.tag.name := by
    rw [entered]
    exact congrArg (ExpandedName.mk · _) (resolveElement_congr same _)
  have attributes : attributeNames (Scope.initial.enter (fragment bindings el).tag.attributes)
      (fragment bindings el).tag.attributes =
        attributeNames (Scope.enter (bindings ++ Scope.initial) el.tag.attributes) el.tag.attributes := by
    -- what was put in front declares, and is no attribute of its own
    have noDeclaration : (bindingAttributes (inherited bindings el)).filter (fun a => a.declares.isNone) = [] := by
      rw [bindingAttributes, List.filter_map, List.map_eq_nil_iff, List.filter_eq_nil_iff]
      intro binding _
      simp [declares_bindingKey]
    rw [entered, attributeNames_congr same]
    simp only [attributeNames, fragment, List.filter_append, noDeclaration, List.nil_append]
    rfl
  rcases el with ⟨tag, _ | kids⟩
  · exact (congrArg (Names.element · _ .nil .nil) element).trans (congrArg (Names.element _ · .nil .nil) attributes)
  · have content : kids.kept.names (Scope.initial.enter (fragment bindings ⟨tag, some kids⟩).tag.attributes) =
        kids.names (Scope.enter (bindings ++ Scope.initial) tag.attributes) := by
      rw [Content.names_kept, entered]
      exact kids.names_congr same
    exact (congrArg (Names.element · _ _ .nil) element).trans
      ((congrArg (Names.element _ · _ .nil) attributes).trans (congrArg (Names.element _ _ · .nil) content))

/-! Repeated declarations. -/

theorem bindingKey_of_declares {a : Attribute} {p : Text} (declares : a.declares = some p)
    (plain : p = [] → a.key = xmlns) : bindingKey p = a.key := by
  unfold Attribute.declares at declares
  unfold bindingKey
  by_cases empty : p = []
  · rw [if_pos empty, plain empty]
  · rw [if_neg empty]
    split at declares
    · cases declares
      exact absurd rfl empty
    · exact (stripPrefix_eq_some.mp declares).symm

theorem prefixes_keys (attributes : List Attribute)
    (plain : ∀ a ∈ attributes, ∀ p, a.declares = some p → p = [] → a.key = xmlns) :
    ((declarations attributes).map Prod.fst).map bindingKey =
      (attributes.filter fun a => a.declares.isSome).map (·.key) := by
  induction attributes with
  | nil => rfl
  | cons a rest ih =>
    have later := ih fun b member => plain b (List.mem_cons_of_mem _ member)
    unfold declarations at later ⊢
    cases declares : a.declares with
    | none => simpa [declares] using later
    | some p =>
      have key := bindingKey_of_declares declares (plain a List.mem_cons_self p declares)
      simpa [declares, key] using later

theorem prefixes_nodup {tag : Tag} (unique : tag.Unique) (plain : PrefixesPlain tag) :
    tag.prefixes.Nodup := by
  have keys := prefixes_keys tag.attributes fun a member p declares => (plain a member p declares).2
  apply List.Nodup.of_map bindingKey
  rw [Tag.prefixes, keys]
  exact List.Nodup.sublist (List.Sublist.map _ List.filter_sublist) unique

/-- A prefix declared around the fragment and on its part is declared on the root again. -/
def Redeclared (outer part : Tag) (el : Element) : Prop :=
  ∀ p, p ∈ outer.prefixes → p ∈ part.prefixes → p ∈ el.tag.prefixes

instance (outer part : Tag) (el : Element) : Decidable (Redeclared outer part el) := by
  unfold Redeclared
  infer_instance

theorem inherited_prefixes (bindings : Scope) (el : Element) :
    (inherited bindings el).map Prod.fst = (bindings.map Prod.fst).filter fun p => p ∉ el.tag.prefixes := by
  rw [inherited, List.filter_map]
  rfl

theorem inherited_nodup_iff {outer part : Tag} {el : Element} (outerUnique : outer.Unique)
    (outerPlain : PrefixesPlain outer) (partUnique : part.Unique) (partPlain : PrefixesPlain part) :
    ((inherited (declarations part.attributes ++ declarations outer.attributes) el).map Prod.fst).Nodup ↔
      Redeclared outer part el := by
  rw [inherited_prefixes, List.map_append, List.filter_append, List.nodup_append]
  have one : (part.prefixes.filter fun p => p ∉ el.tag.prefixes).Nodup :=
    (prefixes_nodup partUnique partPlain).filter _
  have two : (outer.prefixes.filter fun p => p ∉ el.tag.prefixes).Nodup :=
    (prefixes_nodup outerUnique outerPlain).filter _
  constructor
  · rintro ⟨_, _, apart⟩ p inOuter inPart
    by_contra absent
    exact apart p (List.mem_filter.mpr ⟨inPart, by simpa using absent⟩) p
      (List.mem_filter.mpr ⟨inOuter, by simpa using absent⟩) rfl
  · intro redeclared
    refine ⟨one, two, ?_⟩
    rintro p inPart _ inOuter rfl
    obtain ⟨inPart, absent⟩ := List.mem_filter.mp inPart
    exact absurd (redeclared p (List.mem_filter.mp inOuter).1 inPart) (by simpa using absent)

theorem fragment_unique_iff {bindings : Scope} {el : Element} (unique : el.tag.Unique)
    (plain : PrefixesPlain el.tag) :
    (fragment bindings el).tag.Unique ↔ ((inherited bindings el).map Prod.fst).Nodup := by
  unfold Tag.Unique
  rw [fragment, List.map_append, List.nodup_append]
  have keys : (bindingAttributes (inherited bindings el)).map (·.key) =
      ((inherited bindings el).map Prod.fst).map bindingKey := by
    simp [bindingAttributes]
  rw [keys, List.nodup_map_iff fun _ _ => bindingKey_injective]
  constructor
  · exact fun split => split.1
  · intro nodup
    refine ⟨nodup, unique, ?_⟩
    rintro key inherits _ own rfl
    obtain ⟨p, member, rfl⟩ := List.mem_map.mp inherits
    rw [inherited_prefixes] at member
    have absent := (List.mem_filter.mp member).2
    simp only [decide_eq_true_eq] at absent
    exact absent ((bindingKey_mem_iff plain p).mp own)

/-! Fragments as documents. -/

theorem kept_allTags (P : Tag → Prop) (c : Content) : c.kept.AllTags P ↔ c.AllTags P := by
  induction c with
  | nil => rfl
  | data d rest ih => cases d <;> exact ih
  | empty tag rest ih => simp only [Content.kept, Content.AllTags, ih]
  | element tag kids rest kidsIH restIH => simp only [Content.kept, Content.AllTags, kidsIH, restIH]

theorem kept_lexical {c : Content} (clean : c.AllData Data.Clean) :
    c.kept.AllData Data.Lexical := by
  induction c with
  | nil => trivial
  | data d rest ih =>
    cases d with
    | text raw => exact ⟨clean.1, ih clean.2⟩
    | generalRef name => exact ⟨clean.1, ih clean.2⟩
    | _ => exact ih clean.2
  | empty tag rest ih => exact ih clean
  | element tag kids rest kidsIH restIH => exact ⟨kidsIH clean.1, restIH clean.2⟩

theorem alone_allTags {P : Tag → Prop} {el : Element} : el.alone.AllTags P ↔ el.AllTags P := by
  rcases el with ⟨tag, _ | kids⟩ <;> simp [Element.alone, Content.AllTags, Element.AllTags]

theorem alone_allData {P : Data → Prop} {el : Element} : el.alone.AllData P ↔ el.AllData P := by
  rcases el with ⟨tag, _ | kids⟩ <;> simp [Element.alone, Content.AllData, Element.AllData]

instance (P : Tag → Prop) [DecidablePred P] (el : Element) : Decidable (el.AllTags P) :=
  decidable_of_iff _ alone_allTags

instance (P : Data → Prop) [DecidablePred P] (el : Element) : Decidable (el.AllData P) :=
  decidable_of_iff _ alone_allData

/-- A declaration that is passed on is an attribute of the tag it comes from. -/
theorem declaration_attribute {tag : Tag} (plain : PrefixesPlain tag) {binding : Text × Text}
    (member : binding ∈ declarations tag.attributes) :
    Attribute.mk (bindingKey binding.1) binding.2 ∈ tag.attributes := by
  obtain ⟨a, own, declared⟩ := List.mem_filterMap.mp member
  obtain ⟨p, declares, rfl⟩ := Option.map_eq_some_iff.mp declared
  rw [bindingKey_of_declares declares (plain a own p declares).2]
  exact own

/-- The attributes of a fragment's root are those of the tags around it and its own. -/
theorem fragment_attribute {outer part : Tag} {el : Element} (outerPlain : PrefixesPlain outer)
    (partPlain : PrefixesPlain part) {a : Attribute}
    (member : a ∈ (fragment (declarations part.attributes ++ declarations outer.attributes) el).tag.attributes) :
    a ∈ part.attributes ∨ a ∈ outer.attributes ∨ a ∈ el.tag.attributes := by
  rcases List.mem_append.mp member with inherits | own
  · obtain ⟨binding, kept, rfl⟩ := List.mem_map.mp inherits
    rcases List.mem_append.mp (List.mem_filter.mp kept).1 with inPart | inOuter
    · exact .inl (declaration_attribute partPlain inPart)
    · exact .inr (.inl (declaration_attribute outerPlain inOuter))
  · exact .inr (.inr own)

/-- What holds of a tag through its name and each of its attributes holds of the tags of a
fragment. -/
theorem fragment_allTags {P : Text → Prop} {Q : Attribute → Prop} {outer part : Tag} {el : Element}
    (outerPlain : PrefixesPlain outer) (partPlain : PrefixesPlain part)
    (inOuter : ∀ a ∈ outer.attributes, Q a) (inPart : ∀ a ∈ part.attributes, Q a)
    (inside : el.AllTags fun tag => P tag.name ∧ ∀ a ∈ tag.attributes, Q a) :
    (fragment (declarations part.attributes ++ declarations outer.attributes) el).AllTags
      fun tag => P tag.name ∧ ∀ a ∈ tag.attributes, Q a := by
  refine ⟨⟨inside.1.1, fun a member => ?_⟩, ?_⟩
  · rcases fragment_attribute outerPlain partPlain member with known | known | known
    · exact inPart a known
    · exact inOuter a known
    · exact inside.1.2 a known
  · rintro kids found
    obtain ⟨kids, original, rfl⟩ := Option.map_eq_some_iff.mp found
    exact (kept_allTags _ _).mpr (inside.2 kids original)

/-- The part of a fragment that does not depend on quoting is in order. -/
theorem fragment_lexical {m : Message} (sound : m.document.Sound) {pair : Tag × Element}
    (member : pair ∈ m.extracted) : (fragment (m.bindings pair.1) pair.2).AllTags Tag.Lexical := by
  obtain ⟨part, inside⟩ := m.extracted_allTags sound.lexical member
  have plain := plain_of_sound sound
  exact fragment_allTags (m.envelope_allTags plain) (m.extracted_allTags plain member).1
    (m.envelope_allTags sound.lexical).2 part.2 inside

/-- No declaration in a fragment is refused, and no reserved prefix looked up. -/
theorem fragment_resolvable {m : Message} (sound : m.document.Sound) {pair : Tag × Element}
    (member : pair ∈ m.extracted) :
    (fragment (m.bindings pair.1) pair.2).AllTags Tag.Resolvable := by
  have resolvable := sound.namespaces.resolvable
  obtain ⟨part, inside⟩ := m.extracted_allTags resolvable member
  have plain := plain_of_sound sound
  have all := fragment_allTags (P := fun name => ∀ parts ∈ splitOnce ':' name, parts.1 ≠ [] ∧ parts.1 ≠ "xmlns".toList)
    (m.envelope_allTags plain) (m.extracted_allTags plain member).1 (m.envelope_allTags resolvable).bindings
    part.bindings (inside.mono fun _ tag => ⟨tag.element, tag.bindings⟩)
  exact all.mono fun _ tag => ⟨tag.2, tag.1⟩

/-- Every value that the parser writes into the fragments of a message stands between
double quotes. -/
def QuoteFree (m : Message) : Prop :=
  ∀ pair ∈ m.extracted, (fragment (m.bindings pair.1) pair.2).AllTags Tag.QuoteFree

instance (m : Message) : Decidable (QuoteFree m) := by
  unfold QuoteFree
  infer_instance

/-- The fragment of a message, as a document. -/
theorem fragment_reads {ext : Externals} (lawful : ext.xml.Lawful) {m : Message}
    (sound : m.document.Sound) (quotes : QuoteFree m) {pair : Tag × Element}
    (member : pair ∈ m.extracted) :
    ext.xml.Reads (fragment (m.bindings pair.1) pair.2).write
      (fragment (m.bindings pair.1) pair.2).alone.coalesce := by
  refine lawful.written_tag ⟨alone_allTags.mpr (fragment_lexical sound member),
    alone_allTags.mpr (quotes pair member), alone_allData.mpr ?_⟩ (Element.alone_markup _)
  rintro kids found
  obtain ⟨kids, original, rfl⟩ := Option.map_eq_some_iff.mp found
  exact kept_lexical (m.extracted_allData sound.data member kids original)

theorem alone_coalesce (el : Element) :
    el.alone.coalesce = (Element.mk el.tag (el.kids.map Content.coalesce)).alone := by
  rcases el with ⟨tag, _ | kids⟩ <;> rfl

/-- A text is one element whose root repeats no attribute, and whose names are those of
`el` in its scope. -/
def StandsAlone (ext : Externals) (text : Text) (scope : Scope) (el : Element) : Prop :=
  ∃ root : Element, ext.xml.Reads text root.alone ∧ root.tag.Unique ∧
    root.alone.names Scope.initial = el.alone.names scope

/-- What a parsed message keeps of the names in the original. -/
structure KeepsNames (ext : Externals) (m : Message) (parsed : ParsedEnvelope) : Prop where
  headers : List.Forall₂ (fun text el => StandsAlone ext text (m.partScope m.headerTag) el)
    parsed.headerChildren m.headerParts
  body : StandsAlone ext parsed.bodyElement (m.partScope m.body) m.first
  key : extractBodyQname ext parsed.bodyElement =
    .ok (expandedQName (elementName ((m.partScope m.body).enter m.first.tag.attributes) m.first.tag.name))

theorem message_unique_iff {m : Message} (sound : m.document.Sound) {pair : Tag × Element}
    (member : pair ∈ m.extracted) :
    (fragment (m.bindings pair.1) pair.2).tag.Unique ↔ Redeclared m.envelope pair.1 pair.2 := by
  have plain := plain_of_sound sound
  have unique := sound.namespaces.unique
  have partPlain := m.extracted_allTags plain member
  have partUnique := m.extracted_allTags unique member
  rw [fragment_unique_iff partUnique.2.1 partPlain.2.1]
  exact inherited_nodup_iff (m.envelope_allTags unique) (m.envelope_allTags plain) partUnique.1 partPlain.1

theorem standsAlone_of_unique {ext : Externals} (lawful : ext.xml.Lawful) {m : Message}
    (sound : m.document.Sound) (quotes : QuoteFree m) {pair : Tag × Element}
    (member : pair ∈ m.extracted) (unique : (fragment (m.bindings pair.1) pair.2).tag.Unique) :
    StandsAlone ext (fragment (m.bindings pair.1) pair.2).write (m.partScope pair.1) pair.2 := by
  have reads := fragment_reads lawful sound quotes member
  have same := (fragment (m.bindings pair.1) pair.2).alone.names_coalesce Scope.initial
  rw [alone_coalesce] at reads same
  refine ⟨_, reads, unique, ?_⟩
  rw [same, fragment_names, m.partScope_eq]

/-- The first event of an element tells its tag. -/
theorem tag_of_events {a b : Element} (same : a.alone.events = b.alone.events) :
    a.tag.read = b.tag.read := by
  rcases a with ⟨tag, _ | kids⟩ <;> rcases b with ⟨tag', _ | kids'⟩ <;>
    simp only [Element.alone, Content.events, List.cons.injEq, Event.empty.injEq, Event.start.injEq,
      reduceCtorEq, false_and] at same
  · exact same.1
  · exact same.1

theorem unique_of_standsAlone {ext : Externals} (lawful : ext.xml.Lawful) {m : Message}
    (sound : m.document.Sound) (quotes : QuoteFree m) {pair : Tag × Element}
    (member : pair ∈ m.extracted) {scope : Scope} {el : Element}
    (alone : StandsAlone ext (fragment (m.bindings pair.1) pair.2).write scope el) :
    (fragment (m.bindings pair.1) pair.2).tag.Unique := by
  obtain ⟨root, reads, unique, _⟩ := alone
  have own := fragment_reads lawful sound quotes member
  rw [alone_coalesce] at own
  have tags := tag_of_events (stream_inj (reads.symm.trans own))
  apply Tag.unique_of_read
  have clean : none ∉ root.tag.read.attributes := by
    rw [Tag.read_of_unique unique]
    simp
  rw [tags] at clean
  exact clean

theorem fragment_allUnique {m : Message} (sound : m.document.Sound) {pair : Tag × Element}
    (member : pair ∈ m.extracted) (unique : (fragment (m.bindings pair.1) pair.2).tag.Unique) :
    (fragment (m.bindings pair.1) pair.2).alone.coalesce.AllTags Tag.Unique := by
  rw [Content.coalesce_allTags, alone_allTags]
  refine ⟨unique, ?_⟩
  rintro inner found
  obtain ⟨inner, original, rfl⟩ := Option.map_eq_some_iff.mp found
  exact (kept_allTags _ _).mpr
    ((m.extracted_allTags sound.namespaces.unique member).2.2 inner original)

/-- The root of a fragment without repeated attributes has the name of its element in the message. -/
theorem fragment_root {ext : Externals} (lawful : ext.xml.Lawful) {m : Message}
    (sound : m.document.Sound) (quotes : QuoteFree m) {pair : Tag × Element}
    (member : pair ∈ m.extracted) (unique : (fragment (m.bindings pair.1) pair.2).tag.Unique) :
    extractBodyQname ext (fragment (m.bindings pair.1) pair.2).write =
      .ok (expandedQName (elementName ((m.partScope pair.1).enter pair.2.tag.attributes)
        pair.2.tag.name)) := by
  have reads := fragment_reads lawful sound quotes member
  have names := fragment_names (m.bindings pair.1) pair.2
  rw [← m.partScope_eq] at names
  have resolvable := (Content.coalesce_allTags _ _).mpr (alone_allTags.mpr (fragment_resolvable sound member))
  rw [extractBodyQname, lawful.resolvesTrimmed _ _ (fragment_allUnique sound member unique) resolvable reads,
    alone_coalesce]
  revert names
  obtain ⟨part, tag, inner⟩ := pair
  intro names
  cases inner <;>
    simp only [fragment, Option.map_none, Option.map_some, Element.alone, Content.names,
      Names.element.injEq] at names ⊢ <;>
    exact congrArg (fun name => Except.ok (expandedQName name)) names.1

/-- Every fragment of every message keeps its names. -/
def FragmentsKeepNames (ext : Externals) (doctypes : Text → Option Entities) : Prop :=
  ∀ (m : Message) (input : Text), ext.xml.Reads input m.document → m.WellFormed doctypes →
    ∃ parsed, parseEnvelope ext input = .ok parsed ∧ KeepsNames ext m parsed

def envelopeTag : Tag :=
  ⟨"s:Envelope".toList, [⟨"xmlns:s".toList, soap12Ns⟩, ⟨"xmlns:a".toList, "urn:a".toList⟩]⟩

theorem envelopeTag_named :
    elementName (Scope.initial.enter envelopeTag.attributes) envelopeTag.name =
    ⟨.bound (envelopeNs .soap12), "Envelope".toList⟩ := by decide +kernel

def ticketHeader : Element :=
  ⟨⟨"s:Header".toList, [⟨"xmlns:h".toList, "urn:h".toList⟩]⟩, some
    (.element ⟨"h:Ticket".toList, [⟨"a:n".toList, "7".toList⟩]⟩
      (.data (.text "a ".toList) (.data (.generalRef "amp".toList) (.data (.text " b".toList) .nil))) .nil)⟩

def orderBodyTag : Tag := ⟨"s:Body".toList, [⟨"xmlns:a".toList, "urn:body".toList⟩]⟩

def orderElement : Element :=
  ⟨⟨"a:Order".toList, [⟨"xmlns:a".toList, "urn:order".toList⟩, ⟨"k".toList, "1 &lt; 2".toList⟩]⟩, some
    (.data (.text "x ".toList) (.empty ⟨"a:Item".toList, [⟨"a:n".toList, "2".toList⟩, ⟨"n".toList, "3".toList⟩]⟩
      (.data (.generalRef "#65".toList) (.data (.cdata []) (.data (.text "y".toList) .nil)))))⟩

/-- A message with a header. The prefix `a` is declared on `Envelope`, on `Body`, and again on the
element in the body. -/
def order : Message where
  version := .soap12
  prolog := .data (.comment " sent ".toList) .nil
  envelope := envelopeTag
  kids := ticketHeader.alone.append (.element orderBodyTag orderElement.alone .nil)
  epilog := .nil
  header := some ticketHeader
  body := orderBodyTag
  bodyKids := orderElement.alone
  first := orderElement
  bare := rfl
  named := envelopeTag_named
  headers := by decide +kernel
  bodies := by decide +kernel
  firstChild := rfl

theorem order_reads : scanner.Reads order.document.write order.document :=
  scanner_lawful.written_tag (c := order.document) (by decide +kernel) (by decide +kernel)

theorem order_wellFormed : order.WellFormed noDoctypes :=
  wellFormedDocument_plain _ rfl (by decide +kernel) rfl (by decide +kernel) (by decide +kernel)

def operationTag : Tag := ⟨"a:Op".toList, []⟩

/-- The prefix `a` is declared on `Envelope` and on `Body`, and not on the element in the body. -/
def declaredTwice : Message where
  version := .soap12
  prolog := .nil
  envelope := envelopeTag
  kids := .element ⟨"s:Body".toList, [⟨"xmlns:a".toList, "urn:a".toList⟩]⟩ (.empty operationTag .nil) .nil
  epilog := .nil
  header := none
  body := ⟨"s:Body".toList, [⟨"xmlns:a".toList, "urn:a".toList⟩]⟩
  bodyKids := .empty operationTag .nil
  first := ⟨operationTag, none⟩
  bare := Content.elements_nil
  named := envelopeTag_named
  headers := by decide +kernel
  bodies := by decide +kernel
  firstChild := rfl

end SoapServer.Envelope
