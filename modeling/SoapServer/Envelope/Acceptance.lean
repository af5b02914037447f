import SoapServer.Envelope.Message
import SoapServer.Library.Loops

/-! Which of the accepted texts are SOAP messages. -/

set_option autoImplicit false

namespace Markup

/-- The tag an event opens. -/
def Event.opens : Event → Option ReadTag
  | .start tag | .empty tag => some tag
  | .close _ | .data _ => none

/-- The first tag that is opened is that of the first element. -/
theorem Content.events_opens (c : Content) :
    c.events.findSome? Event.opens = c.elements.head?.map (·.tag.read) := by
  induction c with
  | nil => rfl
  | data d rest ih => exact ih
  | empty tag rest => rfl
  | element tag kids rest => rfl

end Markup

namespace SoapServer.Envelope

open Markup
open Loops (bind_eq_ok)

/-- An element stands in the namespace of the envelope of a version. -/
def inVersion (version : SoapVersion) (scope : Scope) (el : Element) : Prop :=
  resolveElement (scope.enter el.tag.attributes) el.tag.name = .bound (envelopeNs version)

/-- The copy the parser makes of an element below a part of the envelope. -/
def Message.copy (m : Message) (part : Tag)
    (el : Element) : Text := (fragment (m.bindings part) el).write

def isHeaderOrBody (scope : Scope) (el : Element) : Prop :=
  isPart scope "Header".toList el = true ∨ isPart scope "Body".toList el = true

instance (scope : Scope) (el : Element) : Decidable (isHeaderOrBody scope el) := by
  unfold isHeaderOrBody
  infer_instance

/-- A text is a well-formed document, and read as that document. -/
structure IsDocument (ext : Externals) (doctypes : Text → Option Entities) (input : Text)
    (prolog : Content) (root : Tag) (kids epilog : Content) : Prop where
  reads : ext.xml.Reads input (prolog.append (.element root kids epilog))
  spelled : Spelled input (prolog.append (.element root kids epilog))
  wellFormed : WellFormedDocument doctypes prolog root kids epilog

/-- A text is a message, and what was parsed from it is the content of that message. -/
structure IsMessage (ext : Externals) (doctypes : Text → Option Entities) (input : Text)
    (parsed : ParsedEnvelope) (m : Message) : Prop where
  document : IsDocument ext doctypes input m.prolog m.envelope m.kids m.epilog
  version : m.version = parsed.soapVersion
  parts : ∀ el ∈ m.kids.elements, isHeaderOrBody m.scope el → inVersion m.version m.scope el
  headers : parsed.headerChildren = m.headerParts.map (m.copy m.headerTag)
  body : parsed.bodyElement = m.copy m.body m.first

/-- Of the elements of a forest two pass a test. -/
def Repeats (p : Element → Bool) (c : Content) : Prop :=
  ∃ a b, [a, b].Sublist c.elements ∧ p a = true ∧ p b = true

/-- What the loops of the parser let pass in the children of an envelope: a part that replaces an
earlier one, and a part of the other version. -/
inductive Slip (root : Tag) (kids : Content) : Prop
  | headers (repeats : Repeats (isPart (Scope.initial.enter root.attributes) "Header".toList) kids)
  | bodies (repeats : Repeats (isPart (Scope.initial.enter root.attributes) "Body".toList) kids)
  | versions (version other : SoapVersion) (el : Element) (different : version ≠ other)
    (outer : resolveElement (Scope.initial.enter root.attributes) root.name = .bound (envelopeNs version))
    (member : el ∈ kids.elements) (part : isHeaderOrBody (Scope.initial.enter root.attributes) el)
    (inner : inVersion other (Scope.initial.enter root.attributes) el)

theorem repeats_iff {p : Element → Bool} {c : Content} :
    Repeats p c ↔ 1 < (c.elements.filter p).length := by
  constructor
  · rintro ⟨a, b, inside, first, second⟩
    have filtered := inside.filter p
    rw [List.filter_cons_of_pos first, List.filter_cons_of_pos second, List.filter_nil] at filtered
    exact filtered.length_le
  · intro long
    match found : c.elements.filter p, long with
    | a :: b :: rest, _ =>
      have passes (el : Element) (member : el ∈ a :: b :: rest) : p el = true := by
        rw [← found] at member
        exact (List.mem_filter.mp member).2
      have inside : [a, b].Sublist (c.elements.filter p) := by
        rw [found]
        exact (List.nil_sublist rest).cons_cons b |>.cons_cons a
      exact ⟨a, b, inside.trans List.filter_sublist, passes a (by simp), passes b (by simp)⟩

/-- A part is in the namespace of a version. -/
theorem inVersion_of_part {scope : Scope} {el : Element} (part : isHeaderOrBody scope el) :
    ∃ version, inVersion version scope el := by
  have isSoap : isSoapNs (resolveElement (scope.enter el.tag.attributes) el.tag.name) = true := by
    rcases part with header | body
    · exact (isPart_iff.mp header).1
    · exact (isPart_iff.mp body).1
  unfold inVersion
  revert isSoap
  cases resolveElement (scope.enter el.tag.attributes) el.tag.name with
  | bound ns =>
    intro isSoap
    simp only [isSoapNs, boundNs, Bool.or_eq_true] at isSoap
    rcases isSoap with twelve | eleven
    · exact ⟨.soap12, congrArg _ (of_decide_eq_true twelve)⟩
    · exact ⟨.soap11, congrArg _ (of_decide_eq_true eleven)⟩
  | unbound => intro isSoap; cases isSoap
  | unknown pre => intro isSoap; cases isSoap

/-- A root called `Envelope` is only passed when it is in the namespace of a version. -/
theorem findEnvelope_called {ns : ResolveResult} {tag : ReadTag}
    (called : localName tag.name = "Envelope".toList) {rest : Events}
    {found : SoapVersion × Scope × Events}
    (result : findEnvelope (.ok (ns, .start tag) :: rest) = .ok found) :
    ∃ version, ns = .bound (envelopeNs version) := by
  have bound {uri : Text} (nonempty : uri ≠ []) (same : boundNs ns = uri) : ns = .bound uri := by
    cases ns with
    | bound other => exact congrArg _ same
    | unbound => exact absurd same.symm nonempty
    | unknown pre => exact absurd same.symm nonempty
  simp only [findEnvelope, if_pos called] at result
  by_cases twelve : boundNs ns = soap12Ns
  · exact ⟨.soap12, bound (by decide +kernel) twelve⟩
  · by_cases eleven : boundNs ns = soap11Ns
    · exact ⟨.soap11, bound (by decide +kernel) eleven⟩
    · simp only [if_neg twelve, if_neg eleven, bind_senderFault] at result
      cases result

/-- Each body that was passed had a child. -/
theorem scanParts_filled {bindings scope : Scope} {c : Content} {headers : List Text}
    {body : Option Text} {found : List Text × Option Text}
    (result : scanParts bindings scope c headers body = .ok found) :
    ∀ el ∈ c.elements, isPart scope "Body".toList el = true → ∀ kids, el.kids = some kids →
      kids.firstElement ≠ none := by
  induction c generalizing headers body with
  | nil => simp [Content.elements]
  | data d rest ih => exact ih result
  | empty tag rest ih =>
    rintro el member isBody kids has
    rcases List.mem_cons.mp member with rfl | later
    · cases has
    · exact ih result el later isBody kids has
  | element tag kids rest _ ih =>
    rintro el member isBody inner has
    rw [scanParts] at result
    split at result
    case isTrue isHeader =>
      rcases List.mem_cons.mp member with rfl | later
      · -- no element is a header and a body
        rw [not_body_of_header (isPart_iff.mpr isHeader)] at isBody
        cases isBody
      · exact ih result el later isBody inner has
    case isFalse =>
      split at result
      case isTrue =>
        -- a body without a child ends the scan with a fault
        cases first : kids.firstElement with
        | none =>
          rw [first] at result
          cases result
        | some pair =>
          rw [first] at result
          rcases List.mem_cons.mp member with rfl | later
          · cases has
            rw [first]
            simp
          · exact ih result el later isBody inner has
      case isFalse other =>
        rcases List.mem_cons.mp member with rfl | later
        · exact absurd (isPart_iff.mp isBody) other
        · exact ih result el later isBody inner has

/-- A list of at most one item, as an option. -/
theorem toList_of_length_le_one {α : Type} {l : List α} (short : l.length ≤ 1) :
    ∃ o : Option α, l = o.toList := by
  match l with
  | [] => exact ⟨none, rfl⟩
  | [a] => exact ⟨some a, rfl⟩

variable {ext : Externals} {doctypes : Text → Option Entities} {input : Text}
    {parsed : ParsedEnvelope}

/-- Accepted, a document called `Envelope` that repeats neither part is a message. -/
theorem message_of_accepted (lawful : ext.xml.Lawful) {prolog kids epilog : Content} {root : Tag}
    (document : IsDocument ext doctypes input prolog root kids epilog)
    (called : localName root.name = "Envelope".toList) (unslipped : ¬ Slip root kids)
    (accepted : parseEnvelope ext input = .ok parsed) :
    ∃ m : Message, m.prolog = prolog ∧ m.envelope = root ∧ m.kids = kids ∧ m.epilog = epilog := by
  have sound := document.wellFormed.sound
  have unique := sound.namespaces.unique
  have resolvable := sound.namespaces.resolvable
  have plain := plain_of_sound sound
  have bare := document.wellFormed.before
  obtain ⟨_, rootUnique, kidsUnique, _⟩ := Content.allTags_append.mp unique
  obtain ⟨_, rootPlain, kidsPlain, _⟩ := Content.allTags_append.mp plain
  have events : ext.xml.nsEvents false input =
      stream (prolog.resolved Scope.initial) ++
        .ok (resolveElement (Scope.initial.enter root.attributes) root.name, .start root.read) ::
        (stream (kids.resolved (Scope.initial.enter root.attributes)) ++
          .ok (resolveElement (Scope.initial.enter root.attributes) root.name, .close root.name) ::
            stream (epilog.resolved Scope.initial)) := by
    rw [lawful.resolves input _ unique resolvable document.reads]
    simp [Content.resolved_append, Content.resolved]
  obtain ⟨⟨found, bindings, rest⟩, finds, accepted⟩ := bind_eq_ok.mp accepted
  rw [events, findEnvelope_bare prolog bare] at finds
  obtain ⟨version, inNs⟩ := findEnvelope_called called finds
  have named : elementName (Scope.initial.enter root.attributes) root.name =
      ⟨.bound (envelopeNs version), "Envelope".toList⟩ := by
    rw [elementName, inNs, called]
  rw [findEnvelope_envelope rootUnique rootPlain named] at finds
  obtain ⟨-, rfl, rfl⟩ : version = found ∧ declarations root.attributes = bindings ∧ _ = rest := by
    simpa using finds
  obtain ⟨⟨headerTexts, bodyText⟩, scans, accepted⟩ := bind_eq_ok.mp accepted
  rw [scanEnvelope_content _ kids kidsUnique kidsPlain _ _ (by simp only [stream, List.length_map, List.length_append, List.length_cons]; omega)] at scans
  obtain ⟨header, headers⟩ := toList_of_length_le_one
    (Nat.not_lt.mp fun long => unslipped (.headers (repeats_iff.mpr long)))
  obtain ⟨body, bodies⟩ := toList_of_length_le_one
    (Nat.not_lt.mp fun long => unslipped (.bodies (repeats_iff.mpr long)))
  have filled : ∀ el ∈ body, ∀ inner, el.kids = some inner → inner.firstElement ≠ none := by
    rintro el isBody
    have member : el ∈ kids.elements.filter (isPart (Scope.initial.enter root.attributes) "Body".toList) := by
      rw [bodies, Option.mem_toList]
      exact isBody
    exact scanParts_filled scans el (List.mem_filter.mp member).1 (List.mem_filter.mp member).2
  rw [scanParts_parts _ _ _ _ _ _ _ headers bodies filled] at scans
  obtain ⟨-, rfl⟩ := Prod.mk.inj (Except.ok.inj scans)
  -- without a body that has an end tag there is no text to return
  rcases body with _ | ⟨bodyTag, _ | bodyKids⟩
  · cases accepted
  · cases accepted
  · cases first : bodyKids.firstElement with
    | none => exact absurd first (filled _ rfl _ rfl)
    | some pair =>
      have head : bodyKids.elements.head? = some pair.1 := by
        rw [← bodyKids.firstElement_eq_head, first, Option.map_some]
      exact ⟨⟨version, prolog, root, kids, epilog, header, bodyTag, bodyKids, pair.1, bare, named, headers, bodies,
        head⟩, rfl, rfl, rfl, rfl⟩

/-- What the parser returns for a message is its content. -/
theorem isMessage_of_document (lawful : ext.xml.Lawful) {m : Message}
    (document : IsDocument ext doctypes input m.prolog m.envelope m.kids m.epilog)
    (unslipped : ¬ Slip m.envelope m.kids) (accepted : parseEnvelope ext input = .ok parsed) :
    IsMessage ext doctypes input parsed m := by
  have parses := parseEnvelope_sound lawful m document.reads document.wellFormed.sound
  obtain rfl := Except.ok.inj (parses.symm.trans accepted)
  refine ⟨document, rfl, fun el member part => ?_, rfl, rfl⟩
  obtain ⟨other, inner⟩ := inVersion_of_part part
  have root : resolveElement (Scope.initial.enter m.envelope.attributes) m.envelope.name = .bound (envelopeNs m.version) :=
    congrArg ExpandedName.ns m.named
  by_cases same : m.version = other
  · rw [same]
    exact inner
  · exact absurd (.versions m.version other el same root member part inner) unslipped

theorem envelopeNs_injective {version other : SoapVersion}
    (same : envelopeNs version = envelopeNs other) :
    version = other := by
  have different : soap11Ns ≠ soap12Ns := by decide +kernel
  cases version <;> cases other
  · rfl
  · exact absurd same different
  · exact absurd same.symm different
  · rfl

/-- No slip was made over a message. -/
theorem IsMessage.unslipped {m : Message} (message : IsMessage ext doctypes input parsed m) :
    ¬ Slip m.envelope m.kids := by
  rintro (repeats | repeats | ⟨version, other, el, different, outer, member, part, inner⟩)
  · have long := repeats_iff.mp repeats
    rw [m.headers] at long
    cases known : m.header <;> simp [known] at long
  · have long := repeats_iff.mp repeats
    rw [m.bodies] at long
    simp at long
  · have root : resolveElement (Scope.initial.enter m.envelope.attributes) m.envelope.name = .bound (envelopeNs m.version) :=
      congrArg ExpandedName.ns m.named
    have own := message.parts el member part
    have first := envelopeNs_injective (ResolveResult.bound.inj (outer.symm.trans root))
    have second := envelopeNs_injective (ResolveResult.bound.inj (inner.symm.trans own))
    exact different (first.trans second.symm)

/-- Every accepted text is a message, and is parsed into its content. -/
def AcceptsOnlyMessages (ext : Externals) (doctypes : Text → Option Entities) : Prop :=
  ∀ (input : Text) (parsed : ParsedEnvelope), parseEnvelope ext input = .ok parsed →
    ∃ m, IsMessage ext doctypes input parsed m

def bodyContent : Content :=
  .element ⟨"s:Body".toList, []⟩ (.empty ⟨"Op".toList, []⟩ .nil) .nil

def soap12Tag (name : Text) : Tag := ⟨name, [⟨"xmlns:s".toList, soap12Ns⟩]⟩

/-- An envelope inside an element of another name. -/
def wrapped : Content :=
  .element ⟨"w".toList, []⟩ (.element (soap12Tag "s:Envelope".toList) bodyContent .nil) .nil

def greetingTag : Tag := soap12Tag "s:Envelope".toList

def greetingKids : Content := .element ⟨"s:Header".toList, []⟩ (.empty ⟨"s:Ticket".toList, []⟩ .nil) bodyContent

/-- A message with its version's header and body. -/
def greeting : Content := .element greetingTag greetingKids .nil

end SoapServer.Envelope
