import SoapServer.Envelope.Surroundings
import SoapServer.Server.Messages

/-! Bodies that are put in an envelope and taken out again.

A body may travel on: what one service takes out of an envelope is answered in another envelope, in either
version. On its first way it gains the declaration of the envelope's prefix, and it does not change again.
-/

set_option autoImplicit false

namespace Markup

/-! Names in a wider scope. -/

/-- The second scope binds what the first one binds, and other prefixes at most. -/
def Scope.Extends (s t : Scope) : Prop := ∀ p, t.lookup p = s.lookup p ∨ s.lookup p = none ∧ p ≠ []

variable {s t : Scope}

theorem Scope.Extends.enter (wider : Scope.Extends s t) (attributes : List Attribute) :
    Scope.Extends (s.enter attributes) (t.enter attributes) := by
  intro p
  simp only [Scope.enter, List.lookup_append]
  cases own : (declarations attributes).lookup p with
  | some uri => exact .inl rfl
  | none => exact wider p

theorem Scope.Extends.pre (wider : Scope.Extends s t) {pre : Text}
    (known : (resolvePrefix s pre).known = true) :
    resolvePrefix t pre = resolvePrefix s pre := by
  unfold resolvePrefix at known ⊢
  rcases wider pre with same | ⟨free, _⟩
  · rw [same]
  · rw [free] at known
    cases known

theorem Scope.Extends.element (wider : Scope.Extends s t) {name : Text}
    (known : (resolveElement s name).known = true) :
    resolveElement t name = resolveElement s name := by
  unfold resolveElement at known ⊢
  cases split : splitOnce ':' name with
  | some parts =>
    rw [split] at known
    exact wider.pre known
  | none =>
    have same : t.lookup [] = s.lookup [] := (wider []).resolve_right fun free => free.2 rfl
    simp only [resolveDefault, same]

theorem Scope.Extends.attribute (wider : Scope.Extends s t) {name : Text}
    (known : (resolveAttribute s name).known = true) :
    resolveAttribute t name = resolveAttribute s name := by
  unfold resolveAttribute at known ⊢
  cases split : splitOnce ':' name with
  | some parts =>
    rw [split] at known
    exact wider.pre known
  | none => rfl

theorem Tag.NamespaceWellFormed.names {tag : Tag} (wellFormed : tag.NamespaceWellFormed s)
    (wider : Scope.Extends s t) :
    elementName (t.enter tag.attributes) tag.name = elementName (s.enter tag.attributes) tag.name ∧
      attributeNames (t.enter tag.attributes) tag.attributes =
        attributeNames (s.enter tag.attributes) tag.attributes := by
  have inner := wider.enter tag.attributes
  refine ⟨congrArg (ExpandedName.mk · _) (inner.element wellFormed.element),
    List.map_congr_left fun a member => ?_⟩
  obtain ⟨own, undeclared⟩ := List.mem_filter.mp member
  have known := wellFormed.attributes a own (Option.isNone_iff_eq_none.mp undeclared)
  exact congrArg (ExpandedName.mk · _) (inner.attribute known)

/-- Well-formed content has its names in every scope that is wider. -/
theorem Content.NamespaceWellFormed.names {c : Content} (wellFormed : c.NamespaceWellFormed s)
    (wider : Scope.Extends s t) :
    c.names t = c.names s := by
  induction c generalizing s t with
  | nil => rfl
  | data d rest ih => exact ih wellFormed wider
  | empty tag rest ih =>
    obtain ⟨element, attributes⟩ := wellFormed.1.names wider
    rw [Content.names, Content.names, element, attributes, ih wellFormed.2 wider]
  | element tag kids rest kidsIH restIH =>
    obtain ⟨element, attributes⟩ := wellFormed.1.names wider
    rw [Content.names, Content.names, element, attributes,
      kidsIH wellFormed.2.1 (wider.enter tag.attributes), restIH wellFormed.2.2 wider]

end Markup

namespace SoapServer.Server

open Markup
open Envelope (envelopeNs fragment inherited bindingAttributes Plain PrefixesPlain parseEnvelope
    parseEnvelope_message alone_allTags
  alone_allData kept_allTags kept_lexical fragment_names fragment_unique_iff fragment_write_element
  inherited_prefixes openEnd declarations_append declarations_bindingAttributes)

variable {ext : Externals} {text : Text} {el : Element}

/-- The body that comes out of an envelope around another one. -/
def passOn (ext : Externals) (body : Text) (version : SoapVersion) : Outcome Text :=
  (parseEnvelope ext (serializeEnvelope body version)).map fun parsed => parsed.bodyElement

/-- What an envelope declares around its body. -/
def envelopeBinding (version : SoapVersion) : Scope := [("env".toList, envelopeNs version)]

/-- A text that reads as one element, and an element that can be written. -/
structure Travels (ext : Externals) (text : Text) (el : Element) : Prop where
  markup : text.head? = some '<'
  reads : ext.xml.Reads text el.alone
  lexical : el.AllTags Tag.Lexical
  unique : el.AllTags Tag.Unique
  resolvable : el.AllTags Tag.Resolvable
  plain : el.AllTags PrefixesPlain
  quotes : el.AllTags Tag.QuoteFree
  data : el.AllData Data.Clean

theorem IsElementText.travels (element : IsElementText ext text el)
    (quotes : el.AllTags Tag.QuoteFree) :
    Travels ext text el where
  markup := element.markup
  reads := element.reads
  lexical := alone_allTags.mp element.sound.lexical
  unique := alone_allTags.mp element.sound.namespaces.unique
  resolvable := alone_allTags.mp element.sound.namespaces.resolvable
  plain := alone_allTags.mp (Envelope.plain_of_sound element.sound)
  quotes := quotes
  data := alone_allData.mp element.sound.data

/-- The element as it is read again once it was copied. -/
def copied (version : SoapVersion) (el : Element) : Element :=
  ⟨(fragment (envelopeBinding version) el).tag, el.kids.map fun kids => kids.kept.coalesce⟩

/-! The root of a copy. -/

/-- An attribute of the copy is one of the element, or declares the prefix of the envelope. -/
theorem copied_attribute {version : SoapVersion} {a : Attribute}
    (member : a ∈ (copied version el).tag.attributes) :
    a = ⟨"xmlns:env".toList, envelopeNs version⟩ ∨ a ∈ el.tag.attributes := by
  rcases List.mem_append.mp member with inherits | own
  · obtain ⟨binding, kept, rfl⟩ := List.mem_map.mp inherits
    obtain rfl := List.mem_singleton.mp (List.mem_filter.mp kept).1
    exact .inl rfl
  · exact .inr own

/-- The copy declares the prefix of the envelope. -/
theorem copied_declares (version : SoapVersion) (el : Element) :
    "env".toList ∈ (copied version el).tag.prefixes := by
  have split : (copied version el).tag.prefixes =
      (inherited (envelopeBinding version) el).map Prod.fst ++ el.tag.prefixes := by
    rw [Tag.prefixes, copied, fragment, declarations_append, declarations_bindingAttributes,
      List.map_append, Tag.prefixes]
  rw [split, List.mem_append, inherited_prefixes]
  by_cases own : "env".toList ∈ el.tag.prefixes
  · exact .inr own
  · exact .inl (List.mem_filter.mpr ⟨.head _, decide_eq_true own⟩)

/-- An element that declares the prefix of the envelope is copied with its tag as it is. -/
theorem fragment_declared (version : SoapVersion) (declared : "env".toList ∈ el.tag.prefixes) :
    (fragment (envelopeBinding version) el).tag = el.tag := by
  have none_ : inherited (envelopeBinding version) el = [] := by
    have prefixes := inherited_prefixes (envelopeBinding version) el
    rw [envelopeBinding, List.map_cons, List.map_nil,
      List.filter_cons_of_neg (by simpa using declared), List.filter_nil,
      List.map_eq_nil_iff] at prefixes
    exact prefixes
  rw [fragment, none_]
  rfl

theorem copied_unique (version : SoapVersion) (unique : el.tag.Unique)
    (plain : PrefixesPlain el.tag) :
    (copied version el).tag.Unique := by
  refine (fragment_unique_iff unique plain).mpr ?_
  rw [inherited_prefixes]
  exact (List.nodup_singleton _).filter _

/-! One way. -/

theorem alone_copied (version : SoapVersion) (el : Element) :
    (fragment (envelopeBinding version) el).alone.coalesce = (copied version el).alone := by
  rcases el with ⟨tag, _ | kids⟩ <;> rfl

namespace Travels

theorem parses (lawful : ext.xml.Lawful) (compositional : ext.xml.Compositional)
    (travels : Travels ext text el)
    (version : SoapVersion) : parseEnvelope ext (serializeEnvelope text version) =
      .ok ⟨version, [], (fragment (envelopeBinding version) el).write⟩ := by
  have starts : el.alone.elements.head? = some el := by rcases el with ⟨tag, _ | kids⟩ <;> rfl
  have reads := Frame.document_reads compositional (.env version) travels.markup travels.reads
  have rootPlain : PrefixesPlain (Frame.env version).root := by
    intro a member p declares
    obtain rfl := List.mem_singleton.mp member
    cases version <;> (cases declares; decide)
  have partPlain : PrefixesPlain (Frame.part (.env version) "Body".toList) := fun _ absent => by cases absent
  have tagsResolvable : (Frame.env version).root.Resolvable ∧
      (Frame.part (.env version) "Body".toList).Resolvable := by
    cases version <;> decide +kernel
  rw [serializeEnvelope_eq]
  exact parseEnvelope_message lawful (Frame.message (.env version) el.alone el starts) reads
    ⟨List.nodup_singleton _, ⟨List.nodup_nil, alone_allTags.mpr travels.unique, trivial⟩, trivial⟩
    ⟨tagsResolvable.1, ⟨tagsResolvable.2, alone_allTags.mpr travels.resolvable, trivial⟩, trivial⟩
    ⟨rootPlain, ⟨partPlain, alone_allTags.mpr travels.plain, trivial⟩, trivial⟩

/-- The copy can travel on. -/
theorem copy (lawful : ext.xml.Lawful) (travels : Travels ext text el) (version : SoapVersion) :
    Travels ext (fragment (envelopeBinding version) el).write (copied version el) := by
  -- everything below the root is as it was
  have inner {P : Tag → Prop} (all : el.AllTags P) (root : P (copied version el).tag) :
      (copied version el).AllTags P := by
    refine ⟨root, fun kids found => ?_⟩
    obtain ⟨kids, original, rfl⟩ := Option.map_eq_some_iff.mp found
    exact (Content.coalesce_allTags _ _).mpr ((kept_allTags _ _).mpr (all.2 kids original))
  have ns : '<' ∉ envelopeNs version ∧ '"' ∉ envelopeNs version := by cases version <;> decide +kernel
  -- and the root has one declaration more, of the prefix `env`
  have attributes {P : Attribute → Prop} (declaring : P ⟨"xmlns:env".toList, envelopeNs version⟩)
      (own : ∀ a ∈ el.tag.attributes, P a) : ∀ a ∈ (copied version el).tag.attributes, P a := by
    intro a member
    rcases copied_attribute member with rfl | member
    · exact declaring
    · exact own a member
  have plain : (copied version el).AllTags PrefixesPlain := by
    refine inner travels.plain (attributes (fun p declares => ?_) travels.plain.1)
    obtain rfl : "env".toList = p := Option.some.inj declares
    exact (by decide : ':' ∉ "env".toList ∧ ("env".toList = [] → "xmlns:env".toList = Envelope.xmlns))
  have key : IsName "xmlns:env".toList := by decide
  have lexical := inner travels.lexical ⟨travels.lexical.1.1,
    attributes ⟨key, ns.1⟩ travels.lexical.1.2⟩
  have quotes := inner travels.quotes (attributes ns.2 travels.quotes.1)
  have binding : refusedBinding ⟨"xmlns:env".toList, envelopeNs version⟩ = false := by
    cases version <;> decide +kernel
  have resolvable := inner travels.resolvable
    ⟨attributes ⟨binding, (by decide : "xmlns:env".toList ≠ "xmlns:".toList)⟩ travels.resolvable.1.bindings,
      travels.resolvable.1.element⟩
  have tags {P : Tag → Prop} (all : (copied version el).AllTags P) :
      (fragment (envelopeBinding version) el).alone.AllTags P := by
    rw [← Content.coalesce_allTags, alone_copied]
    exact alone_allTags.mpr all
  have kept : (fragment (envelopeBinding version) el).AllData Data.Lexical := by
    intro kids found
    obtain ⟨kids, original, rfl⟩ := Option.map_eq_some_iff.mp found
    exact kept_lexical (travels.data kids original)
  refine ⟨?_, ?_, lexical, inner travels.unique
    (copied_unique version travels.unique.1 travels.plain.1), resolvable, plain, quotes, ?_⟩
  · rcases el with ⟨tag, _ | kids⟩ <;> rfl
  · rw [← alone_copied]
    exact lawful.written_tag ⟨tags lexical, tags quotes, alone_allData.mpr kept⟩ (Element.alone_markup _)
  · rintro kids found
    obtain ⟨kids, original, rfl⟩ := Option.map_eq_some_iff.mp found
    refine Content.AllData.mono (fun d lexical => ?_)
      (Content.coalesce_lexical (kept_lexical (travels.data kids original)))
    cases d with
    | text raw | generalRef name => exact lexical
    | _ => trivial

end Travels

theorem kept_kept (c : Content) : c.kept.kept = c.kept := by
  induction c with
  | nil => rfl
  | data d rest ih =>
    cases d with
    | text raw => exact congrArg (Content.data (.text raw)) ih
    | generalRef name => exact congrArg (Content.data (.generalRef name)) ih
    | _ => exact ih
  | empty tag rest ih => exact congrArg (Content.empty tag) ih
  | element tag kids rest kidsIH restIH => exact congrArg₂ (Content.element tag) kidsIH restIH

/-- A copy is copied as it is. -/
theorem fragment_copied (first version : SoapVersion) (el : Element) :
    (fragment (envelopeBinding version) (copied first el)).write =
      (fragment (envelopeBinding first) el).write := by
  have tag := fragment_declared version (copied_declares first el)
  rcases el with ⟨name, _ | kids⟩
  · exact congrArg (fun tag => (Element.mk tag none).write) tag
  · have inner : kids.kept.coalesce.kept.write =
        kids.kept.write := by rw [Content.kept_coalesce, kept_kept]
    rw [copied, Option.map_some, fragment_write_element, fragment_write_element, inner]
    exact congrArg (fun tag : Tag => '<' ::
      (tag.writeBody ++ (openEnd ++ (kids.kept.write ++ closeTag name.name)))) tag

theorem envelopeBinding_extends (version : SoapVersion) :
    Scope.Extends Scope.initial (envelopeBinding version ++ Scope.initial) := by
  intro p
  by_cases same : p = "env".toList
  · subst same
    exact .inr ⟨by decide, by decide⟩
  · refine .inl ?_
    rw [List.lookup_append, envelopeBinding, List.lookup_cons, beq_false_of_ne same,
      List.lookup_nil]
    rfl

/-- Where the text of an element is routed. -/
theorem extractBodyQname_element (lawful : ext.xml.Lawful) (reads : ext.xml.Reads text el.alone)
    (unique : el.AllTags Tag.Unique) (resolvable : el.AllTags Tag.Resolvable) :
    extractBodyQname ext text =
      .ok (expandedQName (elementName (Scope.initial.enter el.tag.attributes) el.tag.name)) := by
  rw [extractBodyQname, lawful.resolvesTrimmed _ _ (alone_allTags.mpr unique) (alone_allTags.mpr resolvable) reads]
  rcases el with ⟨tag, _ | kids⟩ <;> rfl

theorem copied_names (version : SoapVersion)
    (wellFormed : el.alone.NamespaceWellFormed Scope.initial) :
    (copied version el).alone.names Scope.initial = el.alone.names Scope.initial := by
  rw [← alone_copied, Content.names_coalesce, fragment_names]
  exact wellFormed.names (envelopeBinding_extends version)

/-- A body that travels on settles on its first way. It comes out of the first envelope with the
declaration of the envelope's prefix, and out of all later ones as it was put in, in whatever versions
they are; and it has its names and is routed by the same key all the way. -/
theorem passed_on_settles (lawful : ext.xml.Lawful) (compositional : ext.xml.Compositional)
    (element : IsElementText ext text el) (quotes : el.AllTags Tag.QuoteFree) (first : SoapVersion)
    (versions : List SoapVersion) :
    ∃ settled, passOn ext text first = .ok settled ∧ versions.foldlM (passOn ext) settled = .ok settled ∧
      settled = (fragment (envelopeBinding first) el).write ∧
        Envelope.StandsAlone ext settled Scope.initial el ∧
      extractBodyQname ext settled = extractBodyQname ext text := by
  have travels := element.travels quotes
  have again := travels.copy lawful first
  have names := copied_names first element.sound.namespaces
  refine ⟨_, by rw [passOn, travels.parses lawful compositional]; rfl, ?_, rfl,
    ⟨_, again.reads, again.unique.1, names⟩, ?_⟩
  · induction versions with
    | nil => rfl
    | cons version rest ih =>
      have step : passOn ext (fragment (envelopeBinding first) el).write version =
          .ok (fragment (envelopeBinding first) el).write := by
        rw [passOn, again.parses lawful compositional, fragment_copied]
        rfl
      rw [List.foldlM_cons, step]
      exact ih
  · rw [extractBodyQname_element lawful again.reads again.unique again.resolvable,
      extractBodyQname_element lawful travels.reads travels.unique travels.resolvable]
    rcases el with ⟨tag, _ | kids⟩ <;>
      exact congrArg (fun name => (Except.ok (expandedQName name) : Outcome QName))
        (Names.element.inj names).1

/-! A body with a prefix of its own and a comment, on its way through both versions. -/

def travellerText : Text := "<a:Op xmlns:a=\"urn:a\"><!--x--><a:In/>&lt;</a:Op>".toList

def traveller : Element :=
  ⟨⟨"a:Op".toList, [⟨"xmlns:a".toList, "urn:a".toList⟩]⟩, some (.data (.comment "x".toList)
    (.empty ⟨"a:In".toList, []⟩ (.data (.generalRef "lt".toList) .nil)))⟩

theorem traveller_element : IsElementText .scanning travellerText traveller where
  markup := rfl
  reads := by
    show Reader.events _ _ _ = _
    decide +kernel
  sound := by decide +kernel

theorem traveller_settles :
    ∃ settled, passOn .scanning travellerText .soap11 = .ok settled ∧
      [SoapVersion.soap12, .soap11].foldlM (passOn .scanning) settled = .ok settled ∧
      settled = (fragment (envelopeBinding .soap11) traveller).write ∧
      Envelope.StandsAlone .scanning settled Scope.initial traveller ∧
      extractBodyQname .scanning settled = extractBodyQname .scanning travellerText :=
  passed_on_settles Externals.scanning_lawful Markup.scanner_compositional traveller_element
    (alone_allTags.mp (by decide +kernel)) .soap11 [.soap12, .soap11]

end SoapServer.Server
