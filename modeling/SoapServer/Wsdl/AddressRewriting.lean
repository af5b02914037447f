import SoapServer.Library.Loops
import SoapServer.Markup.Pieces
import SoapServer.TagValues
import SoapServer.Wsdl.Parser

/-! The WSDL that is served: the document with the location of its addresses replaced. -/

set_option autoImplicit false

namespace SoapServer.Wsdl

open Markup
open SoapServer.Tree (Namespaces elementOf attributeValue Predefined isValueChar ReadsAs PlainKey)

def location : Text := "location".toList

def address : Text := "address".toList

/-- A tag with its attributes pushed one by one: a new location is escaped, the other values
are written as they stand, between double quotes. Attributes the reader rejects are left out. -/
def rebuiltTag (ext : Externals) (newUrl : Text) (tag : ReadTag) : Tag :=
  ⟨tag.name, tag.attributes.reduceOption.map (setValue location (ext.escape newUrl))⟩

/-- What is written for an event: every element called `address` is rebuilt, in whatever
namespace it is. -/
def rewriteEvent (ext : Externals) (newUrl : Text) : RawEvent → Text
  | .start body tag =>
    if localName tag.name = address then startText (rebuiltTag ext newUrl tag).writeBody
    else (RawEvent.start body tag).write
  | .empty body tag =>
    if localName tag.name = address then emptyText (rebuiltTag ext newUrl tag).writeBody
    else (RawEvent.empty body tag).write
  | .close name space => (RawEvent.close name space).write
  | .data d => (RawEvent.data d).write

/-- The loop ends at the end of the text and at the first error. -/
def rewriteEvents (ext : Externals) (newUrl : Text) : List (Except Text RawEvent) → Text
  | [] => []
  | .error _ :: _ => []
  | .ok event :: rest => rewriteEvent ext newUrl event ++ rewriteEvents ext newUrl rest

def rewriteWsdlAddress (ext : Externals) (reader : RawReader) (bytes newUrl : Text) : Text :=
  rewriteEvents ext newUrl (reader bytes)

theorem rewriteEvents_stream (ext : Externals) (newUrl : Text) (events : List RawEvent) :
    rewriteEvents ext newUrl (stream events) = events.flatMap (rewriteEvent ext newUrl) := by
  induction events with
  | nil => rfl
  | cons event rest ih => rw [stream_cons, rewriteEvents, ih, List.flatMap_cons]

/-! What the served document should be. -/

/-- An address of one of the two SOAP bindings. -/
def IsSoapAddress (e : DomElement) : Prop :=
  e.name = address ∧ (e.ns = some soap11BindingNs ∨ e.ns = some soap12BindingNs)

instance (e : DomElement) : Decidable (IsSoapAddress e) := by unfold IsSoapAddress; infer_instance

def relocated (u : Text)
    (e : DomElement) : DomElement := if IsSoapAddress e then e.setValue location u else e

variable (deref : Text → Option Text) (u : Text)

/-- Every tag of a forest has an element: it is well-formed, and its prefixes are declared. -/
def Proper : Namespaces → Content → Prop
  | _, .nil => True
  | inherited, .data _ rest => Proper inherited rest
  | inherited, .empty tag rest => (∃ e, elementOf deref inherited tag = some e) ∧ Proper inherited rest
  | inherited, .element tag kids rest =>
    (∃ e, elementOf deref inherited tag = some e ∧ Proper e.namespaces kids) ∧ Proper inherited rest

/-- Two forests are the same tree, but for the location of the SOAP addresses. -/
inductive Relocates : Namespaces → Content → Content → Prop
  | nil {inherited : Namespaces} : Relocates inherited .nil .nil
  | data {inherited : Namespaces} {d : Data} {c c' : Content} (more : Relocates inherited c c') :
    Relocates inherited (.data d c) (.data d c')
  | empty {inherited : Namespaces} {tag tag' : Tag} {e : DomElement} {c c' : Content}
    (before : elementOf deref inherited tag = some e) (after : elementOf deref inherited tag' = some (relocated u e))
    (more : Relocates inherited c c') : Relocates inherited (.empty tag c) (.empty tag' c')
  | element {inherited : Namespaces} {tag tag' : Tag} {e : DomElement} {kids kids' c c' : Content}
    (before : elementOf deref inherited tag = some e) (after : elementOf deref inherited tag' = some (relocated u e))
    (inner : Relocates e.namespaces kids kids') (more : Relocates inherited c c') :
    Relocates inherited (.element tag kids c) (.element tag' kids' c')

/-- The text is a well-formed document: the tree `c` with just its SOAP addresses relocated. -/
def RewritesOnlyAddresses (c : Content) (output : Text) : Prop :=
  ∃ events c', events.flatMap RawEvent.source = output ∧ Denotes events c' ∧ Relocates deref u [] c c'

/-- A reader reports a text piece by piece, and the pieces are a well-formed document. -/
structure ReadDocument (reader : RawReader) (bytes : Text) (events : List RawEvent) (c : Content) :
    Prop where
  text : bytes = events.flatMap RawEvent.source
  reads : reader bytes = stream events
  denotes : Denotes events c
  proper : Proper deref [] c

/-- Rebuilding a tag does just what it should: no value that is kept holds a double quote, and
a location that is replaced belongs to a SOAP address or is the new one already. -/
def TagFits (e : DomElement) (tag : Tag) : Prop :=
  localName tag.name = address →
    (∀ a ∈ tag.attributes, a.key ≠ location → '"' ∉ a.value) ∧
    ∀ a ∈ tag.attributes, a.key = location → IsSoapAddress e ∨ attributeValue deref a.value = u

/-- All tags of a forest are rebuilt as they should be. -/
def AddressesFit : Namespaces → Content → Prop
  | _, .nil => True
  | inherited, .data _ rest => AddressesFit inherited rest
  | inherited, .empty tag rest =>
    (∀ e, elementOf deref inherited tag = some e → TagFits deref u e tag) ∧ AddressesFit inherited rest
  | inherited, .element tag kids rest =>
    (∀ e, elementOf deref inherited tag = some e → TagFits deref u e tag ∧ AddressesFit e.namespaces kids) ∧
      AddressesFit inherited rest

instance (deref : Text → Option Text) (u : Text) (e : DomElement)
    (tag : Tag) : Decidable (TagFits deref u e tag) := by
  unfold TagFits
  infer_instance

instance decidableProper :
    (inherited : Namespaces) → (c : Content) → Decidable (Proper deref inherited c)
  | _, .nil => inferInstanceAs (Decidable True)
  | inherited, .data _ rest => decidableProper inherited rest
  | inherited, .empty tag rest =>
    have := decidableProper inherited rest
    have : Decidable (∃ e, elementOf deref inherited tag = some e) :=
      decidable_of_iff ((elementOf deref inherited tag).isSome = true) Option.isSome_iff_exists
    inferInstanceAs (Decidable ((∃ e, elementOf deref inherited tag = some e) ∧ Proper deref inherited rest))
  | inherited, .element tag kids rest =>
    have := decidableProper inherited rest
    have (e : DomElement) := decidableProper e.namespaces kids
    inferInstanceAs (Decidable
      ((∃ e, elementOf deref inherited tag = some e ∧ Proper deref e.namespaces kids) ∧ Proper deref inherited rest))

instance decidableAddressesFit :
    (inherited : Namespaces) → (c : Content) → Decidable (AddressesFit deref u inherited c)
  | _, .nil => inferInstanceAs (Decidable True)
  | inherited, .data _ rest => decidableAddressesFit inherited rest
  | inherited, .empty tag rest =>
    have := decidableAddressesFit inherited rest
    inferInstanceAs (Decidable ((∀ e, elementOf deref inherited tag = some e → TagFits deref u e tag) ∧
      AddressesFit deref u inherited rest))
  | inherited, .element tag kids rest =>
    have := decidableAddressesFit inherited rest
    have (e : DomElement) := decidableAddressesFit e.namespaces kids
    inferInstanceAs (Decidable ((∀ e, elementOf deref inherited tag = some e →
      TagFits deref u e tag ∧ AddressesFit deref u e.namespaces kids) ∧ AddressesFit deref u inherited rest))

/-! One tag. -/

variable {deref u}

theorem location_plain : PlainKey location := ⟨by decide, by decide⟩

theorem relocated_of_other {e : DomElement} (other : e.name ≠ address) : relocated u e = e :=
  if_neg fun soap => other soap.1

theorem setValue_relocated (e : DomElement) :
    (relocated u e).setValue location u = e.setValue location u := by
  unfold relocated
  split
  · exact Tree.setValue_setValue e location u u
  · rfl

theorem rebuiltTag_read (ext : Externals) {tag : Tag} (unique : tag.Unique) :
    rebuiltTag ext u tag.read = tag.setValue location (ext.escape u) := by
  rw [rebuiltTag, Tag.read_of_unique unique, reduceOption_some]
  rfl

theorem attributeList_lexical {s : Text} {attributes : List Attribute}
    (list : AttributeList s attributes) :
    ∀ a ∈ attributes, IsName a.key ∧ '<' ∉ a.value := by
  induction list with
  | nil => exact fun _ member => by cases member
  | cons _ _ name _ _ _ _ clean _ ih => exact List.forall_mem_cons.mpr ⟨⟨name, clean⟩, ih⟩

theorem tagText_lexical {body : Text} {tag : Tag} (text : TagText body tag) : tag.Lexical := by
  obtain ⟨_, _, list⟩ := text.attributes
  exact ⟨text.name, attributeList_lexical list⟩

theorem setValue_lexical {tag : Tag} (lexical : tag.Lexical) {raw : Text} (noTag : '<' ∉ raw) :
    (tag.setValue location raw).Lexical := by
  refine ⟨lexical.1, fun a member => ?_⟩
  obtain ⟨b, among, rfl⟩ := List.mem_map.mp member
  rw [Tree.setValue_key]
  refine ⟨(lexical.2 b among).1, ?_⟩
  unfold setValue
  split
  · exact noTag
  · exact (lexical.2 b among).2

theorem setValue_quoteFree_iff {tag : Tag} {raw : Text} (noQuote : '"' ∉ raw) :
    (tag.setValue location raw).QuoteFree ↔ ∀ a ∈ tag.attributes, a.key ≠ location → '"' ∉ a.value := by
  constructor
  · intro free a member other
    have kept : setValue location raw a = a := if_neg other
    exact kept ▸ free _ (List.mem_map_of_mem member)
  · rintro free _ member
    obtain ⟨a, among, rfl⟩ := List.mem_map.mp member
    unfold setValue Attribute.QuoteFree
    split
    next => exact noQuote
    next other => exact free a among other

theorem attribute_of_key {inherited : Namespaces} {tag : Tag} {e : DomElement}
    (run : elementOf deref inherited tag = some e) {a : Attribute} (member : a ∈ tag.attributes)
    (key : a.key = location) : ⟨none, location, attributeValue deref a.value⟩ ∈ e.attributes := by
  have read := Tree.elementOf_attributes run
  have kept : a ∈ tag.attributes.filter fun a => a.declares = none :=
    List.mem_filter.mpr ⟨member, by simp [location_plain.declares key]⟩
  have own : Tree.attributeOf deref e.namespaces a = some ⟨none, location, attributeValue deref a.value⟩ := by
    rw [Tree.attributeOf, key, Tree.expandName_plain _ location_plain, Option.map_some]
  obtain ⟨before, after, split⟩ := List.append_of_mem kept
  rw [split, List.mapM_append] at read
  simp only [List.mapM_cons, bind, Option.bind_eq_some_iff, pure, Option.some.injEq] at read
  obtain ⟨front, _, _, ⟨found, here, rest, _, rfl⟩, all⟩ := read
  obtain rfl := Option.some.inj (own.symm.trans here)
  rw [← all]
  simp

/-- The element of a rebuilt tag is the one it should be just when the locations are for SOAP
or the new one already. -/
theorem setValue_eq_relocated_iff {inherited : Namespaces} {tag : Tag} {e : DomElement}
    (run : elementOf deref inherited tag = some e) :
    e.setValue location u = relocated u e ↔
      ∀ a ∈ tag.attributes, a.key = location → IsSoapAddress e ∨ attributeValue deref a.value = u := by
  by_cases soap : IsSoapAddress e
  · rw [relocated, if_pos soap]
    exact iff_of_true rfl fun _ _ _ => .inl soap
  · rw [relocated, if_neg soap]
    constructor
    · intro same a member key
      exact .inr (Tree.setValue_eq_self same (attribute_of_key run member key) rfl rfl)
    · intro values
      obtain ⟨_, _, _, _, raws⟩ := Tree.elementOf_eq_some run
      have fixed : e.attributes.map (·.setValue location u) = e.attributes := by
        refine (List.map_congr_left fun attr member => ?_).trans (List.map_id _)
        obtain ⟨raw, among, _, read⟩ := raws attr member
        rw [DomAttribute.setValue]
        split
        next named =>
          obtain ⟨⟨ns, name⟩, expanded, rfl⟩ := Option.map_eq_some_iff.mp read
          obtain ⟨rfl, rfl⟩ := named
          have key : raw.key = location := (Tree.expandName_eq_plain expanded).symm
          have value := (values raw among key).resolve_left soap
          simp [value]
        next => rfl
      rw [DomElement.setValue, fixed]

/-- What is written for the tag of an element between its angle brackets. -/
def writtenBody (ext : Externals) (u body : Text) (tag : Tag) : Text :=
  if localName tag.name = address then (tag.setValue location (ext.escape u)).writeBody else body

theorem rewriteEvent_start (ext : Externals) (body : Text) {tag : Tag} (unique : tag.Unique) :
    rewriteEvent ext u (.start body tag.read) = startText (writtenBody ext u body tag) := by
  rw [rewriteEvent, rebuiltTag_read ext unique, writtenBody, apply_ite startText]
  rfl

theorem rewriteEvent_empty (ext : Externals) (body : Text) {tag : Tag} (unique : tag.Unique) :
    rewriteEvent ext u (.empty body tag.read) = emptyText (writtenBody ext u body tag) := by
  rw [rewriteEvent, rebuiltTag_read ext unique, writtenBody, apply_ite emptyText]
  rfl

section

variable {ext : Externals} (reads : ReadsAs deref (ext.escape u) u)
include reads

/-- A tag that fits is written as the tag of the element it should be. -/
theorem written_of_fits {inherited : Namespaces} {body : Text} {tag : Tag} {e : DomElement}
    (text : TagText body tag) (run : elementOf deref inherited tag = some e)
    (fits : TagFits deref u e tag) :
    ∃ tag', TagText (writtenBody ext u body tag) tag' ∧ tag'.name = tag.name ∧
      elementOf deref inherited tag' = some (relocated u e) := by
  unfold writtenBody
  by_cases called : localName tag.name = address
  · rw [if_pos called]
    obtain ⟨quotes, values⟩ := fits called
    have lexical := setValue_lexical (tagText_lexical text) reads.noTag
    have free := (setValue_quoteFree_iff reads.noQuote).mpr quotes
    have unique : (tag.setValue location (ext.escape u)).Unique := Tree.unique_setValue text.unique
    refine ⟨_, tagText_of_quoteFree lexical free unique, rfl, ?_⟩
    rw [← (setValue_eq_relocated_iff run).mpr values]
    exact Tree.elementOf_setValue location_plain reads run
  · rw [if_neg called]
    rw [Tree.elementOf_localName run] at called
    exact ⟨tag, text, rfl, by rw [relocated_of_other called]; exact run⟩

/-- A tag written as one of the element it should be fits, and ends where it was written to. -/
theorem fits_of_written {inherited : Namespaces} {body body' ending ending' x y : Text}
    {tag tag' : Tag} {e : DomElement} (text : TagText body tag) (text' : TagText body' tag')
    (run : elementOf deref inherited tag = some e)
    (run' : elementOf deref inherited tag' = some (relocated u e)) (ends : TagEnd ending)
    (ends' : TagEnd ending')
    (same : body' ++ (ending' ++ x) = writtenBody ext u body tag ++ (ending ++ y)) :
    TagFits deref u e tag ∧ tag'.name = tag.name ∧ x = y := by
  unfold writtenBody at same
  by_cases called : localName tag.name = address
  · rw [if_pos called] at same
    have lexical := setValue_lexical (tagText_lexical text) reads.noTag
    have rebuilt := Tree.elementOf_setValue location_plain reads run
    obtain ⟨name, ⟨rfl, free, _, rest⟩ | ⟨before, a, b, after, after', more, own, cut, key, value⟩⟩ :=
      text'.append_written lexical ends' ends same
    · have element := Option.some.inj (rebuilt.symm.trans run')
      exact ⟨fun _ => ⟨(setValue_quoteFree_iff reads.noQuote).mp free, (setValue_eq_relocated_iff run).mp element⟩,
        name, rest⟩
    · -- cut in a value, the tag would be read with another value than the element has
      exfalso
      have member : a ∈ (tag.setValue location (ext.escape u)).attributes := by rw [own]; simp
      have quote : '"' ∈ a.value := by rw [value]; simp
      have other : a.key ≠ location := by
        obtain ⟨c, _, rfl⟩ := List.mem_map.mp member
        intro isLocation
        rw [Tree.setValue_key] at isLocation
        rw [setValue, if_pos isLocation] at quote
        exact reads.noQuote quote
      rw [← setValue_relocated] at rebuilt
      exact Tree.elementOf_ne_cut own cut key value location_plain other rebuilt run'
  · rw [if_neg called] at same
    obtain ⟨rfl, _, rest⟩ := text'.append_inj text ends' ends same
    exact ⟨fun isAddress => absurd isAddress called, rfl, rest⟩

/-! The document. -/

theorem rewrites_of_fit {events : List RawEvent} {c : Content} (denotes : Denotes events c)
    {inherited : Namespaces} (proper : Proper deref inherited c)
    (fit : AddressesFit deref u inherited c) :
    ∃ events' c', events'.flatMap RawEvent.source = events.flatMap (rewriteEvent ext u) ∧ Denotes events' c' ∧
      Relocates deref u inherited c c' := by
  -- on the document; each tag that fits is written as a tag of the element it should be
  induction denotes generalizing inherited with
  | nil => exact ⟨[], .nil, rfl, .nil, .nil⟩
  | @data d events c clean more ih =>
    obtain ⟨events', c', text, denotes, same⟩ := ih proper fit
    exact ⟨.data d :: events', .data d c', congrArg (d.write ++ ·) text, .data clean denotes,
      .data same⟩
  | @empty body tag events c text more ih =>
    obtain ⟨⟨e, run⟩, proper⟩ := proper
    obtain ⟨events', c', others, denotes, same⟩ := ih proper fit.2
    obtain ⟨tag', text', name, run'⟩ := written_of_fits reads text run (fit.1 e run)
    refine ⟨.empty (writtenBody ext u body tag) tag'.read :: events', .empty tag' c', ?_,
      .empty text' denotes, .empty run run' same⟩
    rw [List.flatMap_cons, List.flatMap_cons, rewriteEvent_empty ext body text.unique, others]
    rfl
  | @element body space tag inside events kids c text blank inner more innerIH moreIH =>
    obtain ⟨⟨e, run, properKids⟩, proper⟩ := proper
    obtain ⟨tagFits, fitKids⟩ := fit.1 e run
    obtain ⟨inside', kids', innerText, innerDenotes, innerSame⟩ := innerIH properKids fitKids
    obtain ⟨events', c', others, denotes, same⟩ := moreIH proper fit.2
    obtain ⟨tag', text', name, run'⟩ := written_of_fits reads text run tagFits
    refine ⟨.start (writtenBody ext u body tag) tag'.read :: (inside' ++ .close tag'.name [] :: events'),
      .element tag' kids' c', ?_, .element text' blank_nil innerDenotes denotes, .element run run' innerSame same⟩
    simp only [List.flatMap_cons, List.flatMap_append, rewriteEvent_start ext body text.unique,
      innerText, others, name, RawEvent.source, List.append_nil]
    rfl

theorem fit_of_rewrites {events : List RawEvent} {c : Content} (denotes : Denotes events c)
    {inherited : Namespaces} {events' : List RawEvent} {c' : Content} {x y : Text}
    (denotes' : Denotes events' c') (same : Relocates deref u inherited c c')
    (text : events'.flatMap RawEvent.source ++ x = events.flatMap (rewriteEvent ext u) ++ y) :
    AddressesFit deref u inherited c ∧ x = y := by
  induction denotes generalizing inherited events' c' x y with
  | nil =>
    cases same
    cases denotes'
    exact ⟨trivial, text⟩
  | data clean more ih =>
    cases same with
    | data same =>
      cases denotes' with
      | data _ more' =>
        simp only [List.flatMap_cons, List.append_assoc] at text
        exact ih more' same (List.append_cancel_left text)
  | @empty body tag events c tagText more ih =>
    cases same with
    | empty run run' same =>
      cases denotes' with
      | @empty body' _ events' _ tagText' more' =>
        rw [List.flatMap_cons, List.flatMap_cons, rewriteEvent_empty ext body tagText.unique] at text
        simp only [RawEvent.source, emptyText, List.cons_append, List.append_assoc, List.cons.injEq, true_and] at text
        obtain ⟨fits, _, rest⟩ := fits_of_written reads tagText tagText' run run' (.inr rfl) (.inr rfl) text
        obtain ⟨fit, rest⟩ := ih more' same rest
        refine ⟨⟨fun e read => ?_, fit⟩, rest⟩
        obtain rfl := Option.some.inj (run.symm.trans read)
        exact fits
  | @element body space tag inside events kids c tagText blank inner more innerIH moreIH =>
    cases same with
    | element run run' innerSame same =>
      cases denotes' with
      | @element body' space' _ inside' events' _ _ tagText' blank' inner' more' =>
        rw [List.flatMap_cons, List.flatMap_cons, rewriteEvent_start ext body tagText.unique] at text
        simp only [RawEvent.source, startText, List.cons_append, List.append_assoc, List.cons.injEq, true_and] at text
        obtain ⟨fits, name, rest⟩ := fits_of_written reads tagText tagText' run run' (.inl rfl) (.inl rfl) text
        simp only [List.flatMap_append, List.append_assoc] at rest
        obtain ⟨fitKids, rest⟩ := innerIH inner' innerSame rest
        -- the end tags have the same name, and nothing can stand behind it but the bracket
        simp only [List.flatMap_cons, RawEvent.source, rewriteEvent, RawEvent.write, closeTag, name,
          List.cons_append,
          List.append_assoc, List.cons.injEq, true_and, List.append_cancel_left_eq] at rest
        obtain ⟨_, rest⟩ := blank_append_inj blank' blank_nil (by rintro c ⟨⟩; rfl) (by rintro c ⟨⟩; rfl) rest
        obtain ⟨fit, rest⟩ := moreIH more' same (List.cons.inj rest).2
        refine ⟨⟨fun e read => ?_, fit⟩, rest⟩
        obtain rfl := Option.some.inj (run.symm.trans read)
        exact ⟨fits, fitKids⟩

end

theorem rewriteWsdlAddress_document {ext : Externals} {reader : RawReader} {bytes : Text}
    {events : List RawEvent} {c : Content} (document : ReadDocument deref reader bytes events c) :
    rewriteWsdlAddress ext reader bytes u = events.flatMap (rewriteEvent ext u) := by
  rw [rewriteWsdlAddress, document.reads, rewriteEvents_stream]

/-- The served document is the WSDL with just its SOAP addresses relocated exactly when every
element called `address` fits. -/
theorem rewrites_only_addresses_iff {ext : Externals} (escapes : ext.Escapes)
    (predefined : Predefined deref) (chars : ∀ c ∈ u, isValueChar c = true) {reader : RawReader}
    {bytes : Text} {events : List RawEvent} {c : Content}
    (document : ReadDocument deref reader bytes events c) :
    RewritesOnlyAddresses deref u c (rewriteWsdlAddress ext reader bytes u) ↔ AddressesFit deref u [] c := by
  have reads : ReadsAs deref (ext.escape u) u := by
    rw [escapes]
    exact Tree.readsAs_escaped predefined chars
  rw [rewriteWsdlAddress_document document]
  constructor
  · rintro ⟨events', c', text, denotes', same⟩
    exact (fit_of_rewrites reads document.denotes denotes' same (congrArg (· ++ []) text)).1
  · exact rewrites_of_fit reads document.denotes document.proper

def definitionsTag : Tag :=
  ⟨"definitions".toList, [⟨"xmlns".toList, wsdlNs⟩, ⟨"xmlns:soap".toList, soap11BindingNs⟩,
    ⟨"xmlns:http".toList, "http://schemas.xmlsoap.org/wsdl/http/".toList⟩]⟩

/-- A service with one port, which has the given address. -/
def addressed (name : String) : Content :=
  .element definitionsTag (.element ⟨"service".toList, [⟨"name".toList, "S".toList⟩]⟩
    (.element ⟨"port".toList, [⟨"name".toList, "P".toList⟩, ⟨"binding".toList, "B".toList⟩]⟩
      (.empty ⟨name.toList, [⟨location, "http://old".toList⟩]⟩ .nil) .nil) .nil) .nil

def newUrl : Text := "http://new/soap?a&b".toList

theorem addressed_document {name : String} {reader : RawReader} {bytes : Text}
    (text : bytes = (addressed name).pieces.flatMap RawEvent.source)
    (reads : reader bytes = stream (addressed name).pieces)
    (tags : (addressed name).AllTags fun tag => tag.Lexical ∧ tag.QuoteFree ∧ tag.Unique)
    (proper : Proper Tree.predefinedEntity [] (addressed name)) :
    ReadDocument Tree.predefinedEntity reader bytes (addressed name).pieces (addressed name) :=
  ⟨text, reads, denotes_pieces tags ⟨⟨⟨trivial, trivial⟩, trivial⟩, trivial⟩, proper⟩

theorem soapAddress_rewrites_iff :
    RewritesOnlyAddresses Tree.predefinedEntity newUrl (addressed "soap:address")
        (rewriteWsdlAddress .scanning (fun _ => stream (addressed "soap:address").pieces)
          ((addressed "soap:address").pieces.flatMap RawEvent.source) newUrl) ↔
      AddressesFit Tree.predefinedEntity newUrl [] (addressed "soap:address") :=
  rewrites_only_addresses_iff Externals.scanning_escapes Tree.predefinedEntity_predefined (by decide +kernel)
    (addressed_document rfl rfl (by decide +kernel) (by decide +kernel))

/-- The address of another binding is relocated too. -/
theorem httpAddress_relocated :
    ¬ RewritesOnlyAddresses Tree.predefinedEntity newUrl (addressed "http:address")
      (rewriteWsdlAddress .scanning (fun _ => stream (addressed "http:address").pieces)
        ((addressed "http:address").pieces.flatMap RawEvent.source) newUrl) := by
  have document : ReadDocument Tree.predefinedEntity (fun _ => stream (addressed "http:address").pieces)
      ((addressed "http:address").pieces.flatMap RawEvent.source) (addressed "http:address").pieces
      (addressed "http:address") :=
    addressed_document rfl rfl (by decide +kernel) (by decide +kernel)
  have reads : ReadsAs Tree.predefinedEntity (Externals.scanning.escape newUrl) newUrl :=
    Tree.readsAs_escaped Tree.predefinedEntity_predefined (by decide +kernel)
  rw [rewriteWsdlAddress_document document]
  rintro ⟨events', c', text, denotes', same⟩
  have fit := (fit_of_rewrites reads document.denotes denotes' same (congrArg (· ++ []) text)).1
  have misfit : ¬ AddressesFit Tree.predefinedEntity newUrl [] (addressed "http:address") := by decide +kernel
  exact misfit fit

end SoapServer.Wsdl
