import SoapServer.Envelope.Copy
import SoapServer.Markup.WellFormed

/-! A SOAP envelope as a document tree, and what the parser returns for it. -/

set_option autoImplicit false

namespace Markup

/-- The prefixes a tag declares. -/
def Tag.prefixes (tag : Tag) : List Text := (declarations tag.attributes).map Prod.fst

end Markup

namespace SoapServer.Envelope

open Markup

/-- A child of the envelope that the parser takes for its `Header` or `Body`. -/
def isPart (scope : Scope) (name : Text) (el : Element) : Bool :=
  isSoapNs (resolveElement (scope.enter el.tag.attributes) el.tag.name) && localName el.tag.name = name

/-- An envelope with at most one header, one body, and an element in the body. -/
structure Message where
  version : SoapVersion
  prolog : Content
  envelope : Tag
  kids : Content
  epilog : Content
  header : Option Element
  body : Tag
  bodyKids : Content
  first : Element
  bare : prolog.elements = []
  named : elementName (Scope.initial.enter envelope.attributes) envelope.name =
    ⟨.bound (envelopeNs version), "Envelope".toList⟩
  headers : kids.elements.filter (isPart (Scope.initial.enter envelope.attributes) "Header".toList) =
    header.toList
  bodies : kids.elements.filter (isPart (Scope.initial.enter envelope.attributes) "Body".toList) =
    [⟨body, some bodyKids⟩]
  firstChild : bodyKids.elements.head? = some first

namespace Message

variable (m : Message)

def document : Content := m.prolog.append (.element m.envelope m.kids m.epilog)

/-- Well-formedness by XML and by XML Namespaces, under a grammar of document type declarations. -/
def WellFormed (doctypes : Text → Option Entities) : Prop :=
  WellFormedDocument doctypes m.prolog m.envelope m.kids m.epilog

def scope : Scope := Scope.initial.enter m.envelope.attributes

/-- The children of the header, none when it is written as an empty tag. -/
def headerParts : List Element :=
  match m.header with
  | some ⟨_, some kids⟩ => kids.elements
  | _ => []

def headerTag : Tag := (m.header.map (·.tag)).getD ⟨[], []⟩

/-- The bindings that `Envelope` and a part of it declare, innermost first. -/
def bindings (part : Tag) : Scope := declarations part.attributes ++ declarations m.envelope.attributes

/-- The scope around the children of a part. -/
def partScope (part : Tag) : Scope := m.scope.enter part.attributes

theorem partScope_eq (part : Tag) : m.partScope part = m.bindings part ++ Scope.initial := by
  simp [partScope, scope, bindings, Scope.enter]

/-- What is extracted: each element with the part it comes from. -/
def extracted : List (Tag × Element) :=
  m.headerParts.map (fun el => (m.headerTag, el)) ++ [(m.body, m.first)]

end Message

theorem plain_of_sound {c : Content} (sound : c.Sound) : Plain c :=
  sound.namespaces.allTags fun _ _ tag a member p declares =>
    ⟨(tag.declared a member p declares).1, (tag.declared a member p declares).2.2⟩

theorem Message.WellFormed.sound {doctypes : Text → Option Entities} {m : Message}
    (wellFormed : m.WellFormed doctypes) :
    m.document.Sound := WellFormedDocument.sound wellFormed

theorem Message.WellFormed.referencesClosed {doctypes : Text → Option Entities} {m : Message}
    (wellFormed : m.WellFormed doctypes) : m.document.AllTags Tag.ReferencesClosed :=
  WellFormedDocument.referencesClosed wellFormed

theorem Message.forall_extracted {m : Message} {P : Tag × Element → Prop} :
    (∀ pair ∈ m.extracted, P pair) ↔ (∀ el ∈ m.headerParts, P (m.headerTag, el)) ∧ P (m.body, m.first) := by
  simp [extracted, or_imp, forall_and]

/-- What is extracted stands in a part of the envelope. -/
theorem Message.extracted_in_part (m : Message) {pair : Tag × Element}
    (member : pair ∈ m.extracted) :
    ∃ kids, Element.mk pair.1 (some kids) ∈ m.kids.elements ∧ pair.2 ∈ kids.elements := by
  rcases List.mem_append.mp member with inHeader | inBody
  · obtain ⟨el, child, rfl⟩ := List.mem_map.mp inHeader
    have found := m.headers
    unfold headerParts at child
    unfold headerTag
    rcases known : m.header with _ | ⟨tag, _ | header⟩ <;> rw [known] at child found
    · cases child
    · cases child
    · refine ⟨header, (List.mem_filter.mp (?_ : _ ∈ m.kids.elements.filter
        (isPart (Scope.initial.enter m.envelope.attributes) "Header".toList))).1, child⟩
      rw [found]
      exact List.mem_singleton_self _
  · obtain rfl := List.mem_singleton.mp inBody
    refine ⟨m.bodyKids, (List.mem_filter.mp (?_ : _ ∈ m.kids.elements.filter
      (isPart (Scope.initial.enter m.envelope.attributes) "Body".toList))).1,
      List.mem_of_mem_head? m.firstChild⟩
    rw [m.bodies]
    exact List.mem_singleton_self _

theorem Message.envelope_allTags {m : Message} {P : Tag → Prop} (all : m.document.AllTags P) :
    P m.envelope :=
  (Content.allTags_append.mp all).2.1

theorem Message.extracted_allTags {m : Message} {P : Tag → Prop} (all : m.document.AllTags P)
    {pair : Tag × Element} (member : pair ∈ m.extracted) : P pair.1 ∧ pair.2.AllTags P := by
  obtain ⟨kids, part, child⟩ := m.extracted_in_part member
  obtain ⟨partTag, partKids⟩ := (Content.allTags_append.mp all).2.2.1.of_mem part
  exact ⟨partTag, (partKids _ rfl).of_mem child⟩

theorem Message.extracted_allData {m : Message} {P : Data → Prop} (all : m.document.AllData P)
    {pair : Tag × Element} (member : pair ∈ m.extracted) : pair.2.AllData P := by
  obtain ⟨kids, part, child⟩ := m.extracted_in_part member
  exact ((Content.allData_append.mp all).2.1.of_mem part _ rfl).of_mem child

/-! What the parser returns. -/

theorem findEnvelope_bare (c : Content) (bare : c.elements = []) (scope : Scope) (rest : Events) :
    findEnvelope (stream (c.resolved scope) ++ rest) = findEnvelope rest := by
  induction c with
  | nil => rfl
  | data d more ih => exact ih bare
  | empty tag more => cases bare
  | element tag kids more => cases bare

theorem findEnvelope_envelope {tag : Tag} (unique : tag.Unique) (plain : PrefixesPlain tag)
    {version : SoapVersion} {scope : Scope}
    (named : elementName scope tag.name = ⟨.bound (envelopeNs version), "Envelope".toList⟩)
    (rest : Events) :
    findEnvelope (.ok (resolveElement scope tag.name, .start tag.read) :: rest) =
      .ok (version, declarations tag.attributes, rest) := by
  simp only [elementName, ExpandedName.mk.injEq] at named
  have different : soap11Ns ≠ soap12Ns := by decide +kernel
  simp only [findEnvelope, named, Tag.read_name, if_true, boundNs]
  rw [Tag.read_of_unique unique, validAttributes_some,
    ← collectBindings_eq fun a member p declares => (plain a member p declares).1]
  cases version with
  | soap11 => simp only [envelopeNs, different, if_false, if_true, bind_ok]
  | soap12 => simp only [envelopeNs, if_true, bind_ok]

/-- The header fragments after an optional header was met. -/
def headerFragments (bindings : Scope) (before : List Text) : Option Element → List Text
  | some ⟨tag, some kids⟩ =>
    kids.elements.map fun el => (fragment (declarations tag.attributes ++ bindings) el).write
  | some ⟨_, none⟩ | none => before

/-- The body fragment after an optional body was met. -/
def bodyFragment (bindings : Scope) (before : Option Text) : Option Element → Option Text
  | some ⟨tag, some kids⟩ =>
    (kids.firstElement.map fun found =>
      (fragment (declarations tag.attributes ++ bindings) found.1).write).or before
  | some ⟨_, none⟩ | none => before

theorem isPart_iff {scope : Scope} {name : Text} {el : Element} :
    isPart scope name el = true ↔
      isSoapNs (resolveElement (scope.enter el.tag.attributes) el.tag.name) = true ∧
        localName el.tag.name = name := by
  simp [isPart]

theorem not_body_of_header {scope : Scope} {el : Element}
    (header : isPart scope "Header".toList el = true) :
    isPart scope "Body".toList el = false := by
  have different : "Header".toList ≠ "Body".toList := by decide
  by_contra body
  exact different ((isPart_iff.mp header).2.symm.trans (isPart_iff.mp (by simpa using body)).2)

/-- Either the head of a list is the only item that passes, or the tail decides. -/
theorem filter_cons_toList {α : Type} {p : α → Bool} {a : α} {l : List α} {o : Option α}
    (one : (a :: l).filter p = o.toList) :
    (p a = true ∧ o = some a ∧ l.filter p = []) ∨ (p a = false ∧ l.filter p = o.toList) := by
  cases test : p a with
  | false => exact .inr ⟨rfl, by simpa [test] using one⟩
  | true =>
    left
    cases o with
    | none => simp [test] at one
    | some b =>
      simp only [List.filter_cons, test, if_true, Option.toList_some, List.cons.injEq] at one
      exact ⟨rfl, by rw [one.1], one.2⟩

/-- The parser's classification, for at most one header and at most one body. -/
theorem scanParts_parts (bindings scope : Scope) (c : Content) (headers : List Text)
    (body : Option Text) (header part : Option Element)
    (isHeader : c.elements.filter (isPart scope "Header".toList) = header.toList)
    (isBody : c.elements.filter (isPart scope "Body".toList) = part.toList)
    (filled : ∀ el ∈ part, ∀ kids, el.kids = some kids → kids.firstElement ≠ none) :
    scanParts bindings scope c headers body =
      .ok (headerFragments bindings headers header, bodyFragment bindings body part) := by
  induction c generalizing headers body header part with
  | nil =>
    obtain rfl : header = none := by cases header <;> first | rfl | cases isHeader
    obtain rfl : part = none := by cases part <;> first | rfl | cases isBody
    rfl
  | data d rest ih => exact ih headers body header part isHeader isBody filled
  | empty tag rest ih =>
    -- an empty tag is not reported as a start, so it leaves both results as they are
    have skip : scanParts bindings scope (.empty tag rest) headers body =
        scanParts bindings scope rest headers body := rfl
    rw [skip]
    rcases filter_cons_toList isHeader with ⟨_, rfl, noHeader⟩ | ⟨_, later⟩ <;>
      rcases filter_cons_toList isBody with ⟨_, rfl, noBody⟩ | ⟨_, laterBody⟩
    · exact ih headers body none none noHeader noBody (by simp)
    · exact ih headers body none part noHeader laterBody filled
    · exact ih headers body header none later noBody (by simp)
    · exact ih headers body header part later laterBody filled
  | element tag kids rest _ ih =>
    rw [scanParts]
    rcases filter_cons_toList isHeader with ⟨found, rfl, noHeader⟩ | ⟨other, later⟩
    · rw [if_pos (isPart_iff.mp found)]
      rcases filter_cons_toList isBody with ⟨also, _⟩ | ⟨_, laterBody⟩
      · rw [not_body_of_header found] at also
        cases also
      · exact ih _ body none part noHeader laterBody filled
    · rw [if_neg (fun both => by rw [isPart_iff.mpr both] at other; cases other)]
      rcases filter_cons_toList isBody with ⟨found, rfl, noBody⟩ | ⟨other, laterBody⟩
      · rw [if_pos (isPart_iff.mp found)]
        cases first : kids.firstElement with
        | none => exact absurd first (filled _ rfl kids rfl)
        | some pair =>
          refine (ih headers _ header none later noBody (by simp)).trans ?_
          simp [bodyFragment, first]
      · rw [if_neg (fun both => by rw [isPart_iff.mpr both] at other; cases other)]
        exact ih headers body header part later laterBody filled

/-- A document whose root is the envelope of a version is parsed into what its children are
classified as, when there is a body among them. -/
theorem parseEnvelope_document {ext : Externals} (lawful : ext.xml.Lawful)
    {prolog kids epilog : Content} {envelope : Tag} {version : SoapVersion}
    (bare : prolog.elements = [])
    (named : elementName (Scope.initial.enter envelope.attributes) envelope.name =
      ⟨.bound (envelopeNs version), "Envelope".toList⟩) {input : Text}
    (reads : ext.xml.Reads input (prolog.append (.element envelope kids epilog)))
    (unique : (prolog.append (.element envelope kids epilog)).AllTags Tag.Unique)
    (resolvable : (prolog.append (.element envelope kids epilog)).AllTags Tag.Resolvable)
    (plain : Plain (prolog.append (.element envelope kids epilog))) (found : SoapVersion) (headers : List Text)
    (body : Text) :
    parseEnvelope ext input = .ok ⟨found, headers, body⟩ ↔
      found = version ∧ scanParts (declarations envelope.attributes) (Scope.initial.enter envelope.attributes)
        kids [] none = .ok (headers, some body) := by
  obtain ⟨_, envelopeUnique, kidsUnique, _⟩ := Content.allTags_append.mp unique
  obtain ⟨_, envelopePlain, kidsPlain, _⟩ := Content.allTags_append.mp plain
  -- the envelope stands between a prolog and an epilog without elements
  have events : ext.xml.nsEvents false input =
      stream (prolog.resolved Scope.initial) ++
        .ok (resolveElement (Scope.initial.enter envelope.attributes) envelope.name, .start envelope.read) ::
        (stream (kids.resolved (Scope.initial.enter envelope.attributes)) ++
          .ok (resolveElement (Scope.initial.enter envelope.attributes) envelope.name, .close envelope.name) ::
            stream (epilog.resolved Scope.initial)) := by
    rw [lawful.resolves input _ unique resolvable reads]
    simp [Content.resolved_append, Content.resolved]
  rw [parseEnvelope, events, findEnvelope_bare prolog bare,
    findEnvelope_envelope envelopeUnique envelopePlain named, bind_ok]
  simp only
  rw [scanEnvelope_content _ kids kidsUnique kidsPlain _ _ (by
    simp only [stream, List.length_map, List.length_append, List.length_cons]
    omega)]
  cases scanParts (declarations envelope.attributes) (Scope.initial.enter envelope.attributes) kids [] none with
  | error e => simp
  | ok parts =>
    obtain ⟨children, part⟩ := parts
    cases part with
    | none => simp [senderFault]
    | some text => simp [eq_comm]

/-- A message is parsed into its fragments. -/
theorem parseEnvelope_message {ext : Externals} (lawful : ext.xml.Lawful) (m : Message)
    {input : Text} (reads : ext.xml.Reads input m.document) (unique : m.document.AllTags Tag.Unique)
    (resolvable : m.document.AllTags Tag.Resolvable) (plain : Plain m.document) :
    parseEnvelope ext input = .ok ⟨m.version,
      m.headerParts.map fun el => (fragment (m.bindings m.headerTag) el).write,
      (fragment (m.bindings m.body) m.first).write⟩ := by
  have first : m.bodyKids.firstElement.map Prod.fst = some m.first :=
    m.bodyKids.firstElement_eq_head.trans m.firstChild
  -- the only body has a child
  have filled : ∀ el ∈ some (Element.mk m.body (some m.bodyKids)), ∀ kids, el.kids = some kids →
      kids.firstElement ≠ none := by
    rintro el ⟨⟩ kids ⟨⟩ none
    rw [none] at first
    cases first
  have parts := scanParts_parts (declarations m.envelope.attributes)
    (Scope.initial.enter m.envelope.attributes) m.kids [] none m.header (some ⟨m.body, some m.bodyKids⟩)
    m.headers m.bodies filled
  have headers : headerFragments (declarations m.envelope.attributes) [] m.header =
      m.headerParts.map fun el => (fragment (m.bindings m.headerTag) el).write := by
    unfold Message.headerParts Message.headerTag
    rcases m.header with _ | ⟨tag, _ | kids⟩ <;> rfl
  have body : bodyFragment (declarations m.envelope.attributes) none (some ⟨m.body, some m.bodyKids⟩) =
      some (fragment (m.bindings m.body) m.first).write := by
    obtain ⟨pair, found, same⟩ := Option.map_eq_some_iff.mp first
    simp [bodyFragment, found, same, Message.bindings]
  rw [headers, body] at parts
  exact (parseEnvelope_document lawful m.bare m.named reads unique resolvable plain _ _ _).mpr ⟨rfl,
    parts⟩

theorem parseEnvelope_sound {ext : Externals} (lawful : ext.xml.Lawful) (m : Message) {input : Text}
    (reads : ext.xml.Reads input m.document) (sound : m.document.Sound) :
    parseEnvelope ext input = .ok ⟨m.version,
      m.headerParts.map fun el => (fragment (m.bindings m.headerTag) el).write,
      (fragment (m.bindings m.body) m.first).write⟩ :=
  parseEnvelope_message lawful m reads sound.namespaces.unique sound.namespaces.resolvable (plain_of_sound sound)

end SoapServer.Envelope
