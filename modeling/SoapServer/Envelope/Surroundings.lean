import Mathlib.Logic.Relation
import SoapServer.Envelope.Acceptance

/-! What stands around the parts of an envelope has no effect on what is parsed from it. -/

set_option autoImplicit false

namespace Markup.Content

theorem prependText_append (s : Text) (a : Content) (tag : Tag) (kids rest : Content) :
    (a.append (.element tag kids rest)).prependText s = (a.prependText s).append (.element tag kids rest) := by
  cases a with
  | nil =>
    simp only [append, prependText]
    split <;> rfl
  | data d more => cases d <;> simp only [append, prependText] <;> split <;> rfl
  | empty tag more =>
    simp only [append, prependText]
    split <;> rfl
  | element tag kids more =>
    simp only [append, prependText]
    split <;> rfl

/-- Runs of character data are not joined across an element. -/
theorem coalesce_append (a : Content) (tag : Tag) (kids rest : Content) :
    (a.append (.element tag kids rest)).coalesce = a.coalesce.append (.element tag kids.coalesce rest.coalesce) := by
  induction a with
  | nil => rfl
  | data d more ih =>
    cases d with
    | text s => rw [append, coalesce, ih, prependText_append, coalesce]
    | _ => exact congrArg _ ih
  | empty own more ih => exact congrArg _ ih
  | element own inner more _ ih => exact congrArg _ ih

theorem kept_prependText (s : Text) (c : Content) :
    (c.prependText s).kept.write = s ++ c.kept.write := by
  unfold prependText
  split
  · simp [kept, write, Data.write]
  · split
    · next empty => simp [empty]
    · rfl

/-- A copy of joined runs is written like a copy of the runs. -/
theorem kept_coalesce (c : Content) : c.coalesce.kept.write = c.kept.write := by
  induction c with
  | nil => rfl
  | data d rest ih =>
    cases d with
    | text s => rw [coalesce, kept_prependText, ih, kept, write, Data.write]
    | generalRef name => simp only [coalesce, kept, write, ih]
    | _ => exact ih
  | empty tag rest ih => rw [coalesce, kept, write, ih, kept, write]
  | element tag kids rest kidsIH restIH => rw [coalesce, kept, write, kidsIH, restIH, kept, write]

end Markup.Content

namespace SoapServer.Envelope

open Markup
open Loops (bind_eq_ok)

/-! What the classification of the envelope's children depends on. -/

section parts

variable (bindings scope : Scope)

theorem scanParts_append (a b : Content) (headers : List Text) (body : Option Text) :
    scanParts bindings scope (a.append b) headers body =
      (scanParts bindings scope a headers body >>= fun parts => scanParts bindings scope b parts.1 parts.2) := by
  induction a generalizing headers body with
  | nil => rfl
  | data d rest ih => exact ih headers body
  | empty tag rest ih => exact ih headers body
  | element tag kids rest _ ih =>
    simp only [Content.append, scanParts]
    split
    · exact ih _ body
    · split
      · cases kids.firstElement with
        | none => rfl
        | some found => exact ih headers _
      · exact ih headers body

/-- Content without a part of the envelope is passed over, whatever is inside its elements. -/
theorem scanParts_foreign {c : Content} (foreign : ∀ el ∈ c.elements, ¬ isHeaderOrBody scope el)
    (headers : List Text) (body : Option Text) :
    scanParts bindings scope c headers body = .ok (headers, body) := by
  induction c with
  | nil => rfl
  | data d rest ih => exact ih foreign
  | empty tag rest ih => exact ih fun el later => foreign el (List.mem_cons_of_mem _ later)
  | element tag kids rest _ ih =>
    have other := not_or.mp (foreign ⟨tag, some kids⟩ List.mem_cons_self)
    rw [scanParts, if_neg (mt isPart_iff.mpr other.1), if_neg (mt isPart_iff.mpr other.2)]
    exact ih fun el later => foreign el (List.mem_cons_of_mem _ later)

/-- Of a body only its first element counts. -/
theorem scanParts_body {tag : Tag} {kids kids' : Content}
    (isBody : isPart scope "Body".toList ⟨tag, some kids⟩ = true)
    (same : kids.firstElement.map Prod.fst = kids'.firstElement.map Prod.fst) (rest : Content)
    (headers : List Text) (body : Option Text) :
    scanParts bindings scope (.element tag kids rest) headers body =
      scanParts bindings scope (.element tag kids' rest) headers body := by
  have notHeader : ¬ isPart scope "Header".toList ⟨tag, some kids⟩ = true := fun isHeader => by
    rw [not_body_of_header isHeader] at isBody
    cases isBody
  rw [isPart_iff] at isBody notHeader
  simp only [scanParts, if_neg notHeader, if_pos isBody]
  cases first : kids.firstElement with
  | none =>
    rw [first] at same
    rw [Option.map_eq_none_iff.mp same.symm]
  | some found =>
    rw [first] at same
    obtain ⟨found', first', tag'⟩ := Option.map_eq_some_iff.mp same.symm
    rw [first']
    simp only [tag']

theorem fragment_coalesce (el : Element) :
    (fragment bindings ⟨el.tag, el.kids.map Content.coalesce⟩).write = (fragment bindings el).write := by
  obtain ⟨tag, _ | kids⟩ := el
  · rfl
  · simp only [Option.map_some, fragment_write_element, Content.kept_coalesce]
    rfl

/-- Joined runs of character data are classified and copied like the runs. -/
theorem scanParts_coalesce (c : Content) (headers : List Text) (body : Option Text) :
    scanParts bindings scope c.coalesce headers body = scanParts bindings scope c headers body := by
  induction c generalizing headers body with
  | nil => rfl
  | data d rest ih =>
    cases d with
    | text s =>
      -- the scan skips character data, joined or not
      have skip : scanParts bindings scope (rest.coalesce.prependText s) headers body =
          scanParts bindings scope rest.coalesce headers body := by
        generalize rest.coalesce = joined
        unfold Content.prependText
        split
        · rfl
        · split <;> rfl
      exact skip.trans (ih headers body)
    | _ => exact ih headers body
  | empty tag rest ih => exact ih headers body
  | element tag kids rest _ ih =>
    -- the first child of a part is the same, with its own runs joined
    have first := kids.coalesce.firstElement_eq_head
    rw [kids.elements_coalesce, List.head?_map, ← kids.firstElement_eq_head] at first
    simp only [Content.coalesce, scanParts, ih, kids.elements_coalesce, List.map_map,
      Function.comp_def, fragment_coalesce]
    cases known : kids.firstElement with
    | none =>
      rw [known] at first
      rw [Option.map_eq_none_iff.mp first]
    | some found =>
      rw [known] at first
      obtain ⟨found', known', same⟩ := Option.map_eq_some_iff.mp first
      simp only [known', same, fragment_coalesce]

end parts

/-- One change to what surrounds the parts of an envelope: content is inserted that is no
part itself, elements are appended behind the first one of a body, or character data stands
in other pieces. -/
inductive Surrounds (scope : Scope) : Content → Content → Prop
  | inserted (before extra after : Content) (foreign : ∀ el ∈ extra.elements, ¬ isHeaderOrBody scope el) :
    Surrounds scope (before.append after) (before.append (extra.append after))
  | appended (before : Content) (body : Tag) (first siblings rest after : Content)
    (isBody : isPart scope "Body".toList ⟨body, some (first.append rest)⟩ = true) (filled : first.elements ≠ []) :
    Surrounds scope (before.append (.element body (first.append rest) after))
      (before.append (.element body (first.append (siblings.append rest)) after))
  | respaced (kids kids' : Content) (same : kids.coalesce = kids'.coalesce) : Surrounds scope kids kids'

theorem scanParts_surrounds {bindings scope : Scope} {kids kids' : Content}
    (change : Surrounds scope kids kids') :
    scanParts bindings scope kids = scanParts bindings scope kids' := by
  funext headers body
  cases change with
  | inserted before extra after foreign =>
    have passed (headers : List Text) (body : Option Text) :
        scanParts bindings scope (extra.append after) headers body = scanParts bindings scope after headers body := by
      rw [scanParts_append, scanParts_foreign bindings scope foreign, bind_ok]
    rw [scanParts_append, scanParts_append]
    simp only [passed]
  | appended before tag first siblings rest after isBody filled =>
    have head (more : Content) : (first.append more).firstElement.map Prod.fst = first.elements.head? := by
      rw [Content.firstElement_eq_head, Content.elements_append,
        List.head?_append_of_ne_nil _ filled]
    rw [scanParts_append, scanParts_append]
    simp only [scanParts_body bindings scope isBody ((head rest).trans (head (siblings.append rest)).symm)]
  | respaced _ _ same =>
    rw [← scanParts_coalesce, same, scanParts_coalesce]

/-- Any number of such changes. -/
theorem scanParts_surroundings {bindings scope : Scope} {kids kids' : Content}
    (changes : Relation.ReflTransGen (Surrounds scope) kids kids') :
    scanParts bindings scope kids = scanParts bindings scope kids' := by
  induction changes with
  | refl => rfl
  | tail _ change ih => exact ih.trans (scanParts_surrounds change)

/-- The text of an envelope, read with each run of character data in one piece. -/
structure EnvelopeText (ext : Externals) (doctypes : Text → Option Entities) (prolog : Content)
    (envelope : Tag) (kids epilog : Content) (input : Text) : Prop where
  reads : ext.xml.Reads input (prolog.append (.element envelope kids epilog)).coalesce
  wellFormed : WellFormedDocument doctypes prolog envelope kids epilog

section text

variable {ext : Externals} {doctypes : Text → Option Entities} {prolog kids epilog : Content}
    {envelope : Tag}
  {version : SoapVersion}

theorem EnvelopeText.parses (lawful : ext.xml.Lawful) {input : Text}
    (text : EnvelopeText ext doctypes prolog envelope kids epilog input)
    (named : elementName (Scope.initial.enter envelope.attributes) envelope.name =
      ⟨.bound (envelopeNs version), "Envelope".toList⟩) (found : SoapVersion) (headers : List Text) (body : Text) :
    parseEnvelope ext input = .ok ⟨found, headers, body⟩ ↔
      found = version ∧ scanParts (declarations envelope.attributes) (Scope.initial.enter envelope.attributes)
        kids [] none = .ok (headers, some body) := by
  have reads := text.reads
  have sound := text.wellFormed.sound
  have unique := (Content.coalesce_allTags Tag.Unique _).mpr sound.namespaces.unique
  have resolvable := (Content.coalesce_allTags Tag.Resolvable _).mpr sound.namespaces.resolvable
  have plain := (Content.coalesce_allTags PrefixesPlain _).mpr (plain_of_sound sound)
  rw [Content.coalesce_append] at reads unique resolvable plain
  rw [← scanParts_coalesce]
  exact parseEnvelope_document lawful (by rw [Content.elements_coalesce, text.wellFormed.before]; rfl) named reads
    unique resolvable plain _ _ _

/-- However an accepted envelope is surrounded, it is parsed as before. -/
theorem parseEnvelope_surrounded (lawful : ext.xml.Lawful) {kids' : Content}
    (named : elementName (Scope.initial.enter envelope.attributes) envelope.name =
      ⟨.bound (envelopeNs version), "Envelope".toList⟩)
    (changes : Relation.ReflTransGen (Surrounds (Scope.initial.enter envelope.attributes)) kids kids')
    {input input' : Text} (text : EnvelopeText ext doctypes prolog envelope kids epilog input)
    (text' : EnvelopeText ext doctypes prolog envelope kids' epilog input') {parsed : ParsedEnvelope}
    (accepted : parseEnvelope ext input = .ok parsed) : parseEnvelope ext input' = .ok parsed := by
  obtain ⟨found, headers, body⟩ := parsed
  rw [text.parses lawful named, scanParts_surroundings changes] at accepted
  exact (text'.parses lawful named found headers body).mpr accepted

end text

/-- Content between the header and the body, with a body of its own inside. -/
def wrapping : Content :=
  .data (.text "between".toList) (.element ⟨"s:Kept".toList, []⟩ bodyContent .nil)

/-- The content of the greeting, surrounded. -/
def surroundedKids : Content :=
  .empty ⟨"s:Header".toList, []⟩ (wrapping.append
    (.element ⟨"s:Body".toList, []⟩ (.empty ⟨"Op".toList, []⟩ (.element ⟨"Op2".toList, []⟩ bodyContent .nil)) .nil))

def greetingScope : Scope := Scope.initial.enter (soap12Tag "s:Envelope".toList).attributes

theorem surrounded_greeting_parsed :
    parseEnvelope .scanning (Content.element (soap12Tag "s:Envelope".toList) surroundedKids .nil).write =
      .ok ⟨.soap12, [], "<Op xmlns:s=\"http://www.w3.org/2003/05/soap-envelope\"/>".toList⟩ := by
  have written (kids : Content) (writable : (Content.element (soap12Tag "s:Envelope".toList) kids .nil).Writable)
      (wellFormed : (Content.element (soap12Tag "s:Envelope".toList) kids .nil).WellFormed Entities.none) :
      EnvelopeText .scanning noDoctypes .nil (soap12Tag "s:Envelope".toList) kids .nil
        (Content.element (soap12Tag "s:Envelope".toList) kids .nil).write :=
    ⟨scanner_lawful.written_tag writable rfl,
      wellFormedDocument_plain _ rfl (by decide) rfl (by decide) wellFormed⟩
  have inserted : Surrounds greetingScope (.append (.empty ⟨"s:Header".toList, []⟩ .nil) bodyContent)
      (.append (.empty ⟨"s:Header".toList, []⟩ .nil) (wrapping.append bodyContent)) :=
    .inserted _ _ _ (by decide +kernel)
  have appended : Surrounds greetingScope (.append (.empty ⟨"s:Header".toList, []⟩ wrapping) bodyContent)
      surroundedKids :=
    .appended (.empty ⟨"s:Header".toList, []⟩ wrapping) ⟨"s:Body".toList, []⟩ (.empty ⟨"Op".toList, []⟩ .nil)
      (.element ⟨"Op2".toList, []⟩ bodyContent .nil) .nil .nil (by decide +kernel) (by decide)
  have named : elementName greetingScope "s:Envelope".toList = ⟨.bound (envelopeNs .soap12), "Envelope".toList⟩ := by
    decide +kernel
  exact parseEnvelope_surrounded Externals.scanning_lawful named
    ((Relation.ReflTransGen.single inserted).tail appended) (written _ (by decide +kernel) (by decide +kernel))
    (written _ (by decide +kernel) (by decide +kernel)) (by decide +kernel)

end SoapServer.Envelope
