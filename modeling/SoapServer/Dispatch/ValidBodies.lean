import SoapServer.Dispatch.Verdicts
import SoapServer.Wsdl.Parser
import SoapServer.Xsd.ContentModel

/-! Bodies that a type's content model allows, against the required names that the check of
a request has for the type. -/

set_option autoImplicit false

namespace SoapServer.Dispatch

open Markup
open Maps Loops
open ContentModels
open Xsd
open Wsdl (schemaNode attr)

/-! The words that bodies spell. -/

/-- A request body whose root has children of these names, in this order. -/
def Spells (reader : Reader) (body : Text) (word : List NcName) : Prop :=
  ∃ root, OneRoot reader body root ∧ childNames root = word.map NcName.text

/-- Elements without content, side by side. -/
def emptyElements : List NcName → Content
  | [] => .nil
  | name :: rest => .empty ⟨name.text, []⟩ (emptyElements rest)

theorem emptyElements_names (word : List NcName) :
    (emptyElements word).elements.map (fun el => localName el.tag.name) = word.map NcName.text := by
  induction word with
  | nil => rfl
  | cons name rest ih =>
    have plain : localName name.text = name.text :=
      by rw [localName, splitOnce_none ':' _ name.proper.no_colon]
    simp [emptyElements, Content.elements, plain, ih]

theorem emptyElements_coalesce (word : List NcName) :
    (emptyElements word).coalesce = emptyElements word := by
  induction word with
  | nil => rfl
  | cons name rest ih => rw [emptyElements, Content.coalesce, ih]

theorem emptyElements_allTags {P : Tag → Prop} (word : List NcName)
    (plain : ∀ name ∈ word, P ⟨name.text, []⟩) :
    (emptyElements word).AllTags P := by
  induction word with
  | nil => trivial
  | cons name rest ih => exact ⟨plain name (.head _), ih fun other member => plain other (.tail _ member)⟩

theorem emptyElements_allData {P : Data → Prop} (word : List NcName) :
    (emptyElements word).AllData P := by
  induction word with
  | nil => trivial
  | cons name rest ih => exact ih

/-- Every word is spelt by some body. -/
theorem exists_spells {reader : Reader} (lawful : reader.Lawful) (word : List NcName) :
    ∃ body, Spells reader body word := by
  let root : Tag := ⟨"request".toList, []⟩
  have writable : (Content.element root (emptyElements word) .nil).Writable := by
    refine ⟨⟨by decide, emptyElements_allTags word fun name _ => ⟨name.proper.isName, ?_⟩, trivial⟩,
      ⟨by decide, emptyElements_allTags word fun name _ => ?_, trivial⟩, emptyElements_allData word, trivial⟩
    · exact fun a member => (by cases member)
    · exact fun a member => (by cases member)
  have reads := lawful.written_tag writable rfl
  rw [Content.coalesce, emptyElements_coalesce] at reads
  exact ⟨_, ⟨root, some (emptyElements word)⟩, ⟨_, reads, rfl⟩, emptyElements_names word⟩

/-! The check. -/

theorem validateRequest_spells {ext : Externals} (lawful : ext.xml.Lawful) {body : Text}
    {word : List NcName} (spells : Spells ext.xml body word) {registry : TypeRegistry} {q : QName}
    {t : XsdType} (found : registry.lookup q = some t) :
    validateRequest ext body registry (some q) = .ok () ↔
      ∀ n ∈ collectRequiredElementNames t, ∃ name ∈ word, name.text = n := by
  obtain ⟨root, document, names⟩ := spells
  rw [validateRequest_document lawful document found, verdict_eq_ok, names]
  exact forall₂_congr fun n _ => List.mem_map

theorem resolveContent_group {flat : FlatTypeMap}
    {resolveBase : Resolved → QName → Resolution (ComplexType × Resolved)} {kind : GroupKind}
    {els : List XsdElement} {content : ComplexContent} {memo memo' : Resolved}
    (run : resolveContent flat resolveBase (groupContentOf kind els) memo = .ok (content, memo')) :
    ∃ out, Expands flat els out ∧ content = groupContentOf kind out := by
  cases kind <;>
  · simp only [groupContentOf, resolveContent, bind_eq_ok] at run
    obtain ⟨out, resolved, same⟩ := run
    cases same
    exact ⟨out, resolveElements_expands resolved, rfl⟩

theorem mem_collectRequired {kind : GroupKind} {els : List XsdElement} {n : Text} :
    n ∈ collectRequiredFromContent (groupContentOf kind els) ↔
      kind ≠ .choice ∧ ∃ el ∈ els, 0 < el.minOccurs ∧ el.name = some n := by
  cases kind <;> simp [groupContentOf, collectRequiredFromContent]

/-- The names the check requires are the demands, but for a choice. -/
theorem mem_required_iff {flat : FlatTypeMap} {raw ct : ComplexType} (made : MadeFrom flat raw ct)
    {children : DomForest} (content : raw.content = typeContent .empty children)
    {model : Model Leaf} (read : readModel children = some model) {n : Text} :
    n ∈ collectRequiredElementNames (.complex ct) ↔ model.kind ≠ .choice ∧ Demands flat children n := by
  obtain ⟨resolveBase, memo, memo', run⟩ := made
  rw [content] at run
  unfold readModel at read
  split at read
  -- without a group the type has no particles
  next none =>
    rw [(typeContent_of_nodes .empty).1 none, resolveContent] at run
    have empty : ct.content = .empty := (congrArg Prod.fst (Except.ok.inj run)).symm
    simp [collectRequiredElementNames, collectRequiredFromContent, Demands, none, empty]
  next node single =>
    obtain ⟨kind, group, occurs, _, particles, _, rfl⟩ : ∃ kind, node.element.xs.groupKind = some kind ∧
        ∃ occurs, readOccurs node.element = some occurs ∧ ∃ particles, readParticles node.children = some particles ∧
          model = ⟨kind, occurs, particles⟩ := by
      simp only [Option.bind_eq_bind, Option.bind_eq_some_iff, Option.some.injEq] at read
      obtain ⟨kind, group, occurs, bounds, particles, inside, same⟩ := read
      exact ⟨kind, group, occurs, bounds, particles, inside, same.symm⟩
    rw [(typeContent_of_nodes .empty).2 node kind single group] at run
    obtain ⟨out, expands, same⟩ := resolveContent_group run
    rw [collectRequiredElementNames, same, mem_collectRequired]
    -- each element of the group stands for what its particle expands to
    refine and_congr_right' ?_
    simp only [Demands, single, List.mem_singleton, exists_eq_left, expands.mem_iff]
    constructor
    · rintro ⟨el, stands, demanded⟩
      obtain ⟨particle, among, stands⟩ := stands_iff_exists.mp stands
      obtain ⟨inner, within, particle⟩ := mem_visitParticleChildren.mp among
      exact ⟨inner, _, el, within, particle, stands, demanded⟩
    · rintro ⟨inner, particle, el, within, same, stands, demanded⟩
      exact ⟨el, stands_iff_exists.mpr ⟨particle, mem_visitParticleChildren.mpr ⟨inner, within, same⟩, stands⟩,
        demanded⟩
  next => cases read

/-- What a type that a schema defines demands, once the schema is resolved. -/
theorem required_of_definition {iter : MapOrder} {parseXml : TreeParser} {loader : SchemaLoader}
    {fuel : Nat} {doc : DomNode} {alreadyLoaded : List Text} {flat : FlatTypeMap}
    {collected loaded : List Text} {registry : TypeRegistry} {q : QName} {node : DomNode}
    {t : XsdType} {model : Model Leaf}
    (collects : collectAllSchemas parseXml loader fuel (parseSchema doc) alreadyLoaded = .ok (flat, collected)) (resolves : resolveSchema iter parseXml loader fuel (parseSchema doc) alreadyLoaded = .ok (registry, loaded))
    (defines : flat.Defines q (visitComplexType node)) (found : registry.lookup q = some t)
    (read : readModel node.children = some model) (n : Text) :
    n ∈ collectRequiredElementNames t ↔ model.kind ≠ .choice ∧ Demands flat node.children n := by
  rw [resolveSchema, collects] at resolves
  obtain ⟨registry', flatRun, same⟩ : ∃ registry', resolveFlat iter flat = .ok registry' ∧ _ :=
    bind_eq_ok.mp resolves
  cases same
  obtain ⟨ct, rfl, made⟩ := resolveFlat_entry flatRun defines found
  exact mem_required_iff made rfl read

/-- Every body that the content model of a type allows is accepted exactly when the model is
a choice or forces every name that the definition demands. -/
theorem valid_accepted_iff {ext : Externals} (lawful : ext.xml.Lawful) {iter : MapOrder}
    {parseXml : TreeParser} {loader : SchemaLoader} {fuel : Nat} {doc : DomNode}
    {alreadyLoaded : List Text} {flat : FlatTypeMap} {collected loaded : List Text}
    {registry : TypeRegistry} {q : QName} {node : DomNode} {t : XsdType} {model : Model Leaf}
    (collects : collectAllSchemas parseXml loader fuel (parseSchema doc) alreadyLoaded = .ok (flat, collected))
    (resolves : resolveSchema iter parseXml loader fuel (parseSchema doc) alreadyLoaded = .ok (registry, loaded))
    (defines : flat.Defines q (visitComplexType node)) (found : registry.lookup q = some t)
    (read : readModel node.children = some model) :
    (∀ body word, word ∈ model.language Leaf.admits → Spells ext.xml body word →
      validateRequest ext body registry (some q) = .ok ()) ↔
    model.kind = .choice ∨ ∀ n, Demands flat node.children n → model.forces (Leaf.forces n) = true := by
  have required := required_of_definition collects resolves defines found read
  have forced (n : Text) : Meets (model.language Leaf.admits) (fun name => name.text = n) ↔
      model.forces (Leaf.forces n) = true := model.meets_language_iff (Leaf.forces_iff n)
  constructor
  · intro accepted
    by_contra neither
    obtain ⟨group, unforced⟩ := not_or.mp neither
    simp only [not_forall] at unforced
    obtain ⟨n, demanded, unforced⟩ := unforced
    -- a name that is not forced is missing from some valid word, which a body spells
    obtain ⟨word, valid, without⟩ := not_meets_iff.mp fun meets => unforced ((forced n).mp meets)
    obtain ⟨body, spells⟩ := exists_spells lawful word
    obtain ⟨name, member, same⟩ := (validateRequest_spells lawful spells found).mp
      (accepted body word valid spells) n ((required n).mpr ⟨group, demanded⟩)
    exact without name member same
  · intro condition body word valid spells
    rw [validateRequest_spells lawful spells found]
    intro n member
    obtain ⟨group, demanded⟩ := (required n).mp member
    rcases condition with choice | all
    · exact absurd choice group
    · exact (forced n).mpr (all n demanded) word valid

/-! A choice inside a sequence, each of whose alternatives is demanded. -/

def elementParticle (name : String) : DomNode := schemaNode "element" [attr "name" name] []

def paymentType : DomNode :=
  schemaNode "complexType" [attr "name" "Payment"]
    [schemaNode "sequence" []
      [elementParticle "amount", schemaNode "choice" [] [elementParticle "card", elementParticle "iban"]]]

def paymentSchema : DomNode := schemaNode "schema" [attr "targetNamespace" "urn:a"] [paymentType]

def paymentQName : QName := .new "urn:a".toList "Payment".toList

def paymentFlat : FlatTypeMap := FlatTypeMap.empty.merge (parseSchema paymentSchema)

def amountName : NcName := ⟨"amount".toList, by decide⟩

def cardName : NcName := ⟨"card".toList, by decide⟩

def ibanName : NcName := ⟨"iban".toList, by decide⟩

def paymentModel : Model Leaf :=
  ⟨.sequence, .once, .leaf (.named amountName) .once
    (.group .choice .once (.leaf (.named cardName) .once (.leaf (.named ibanName) .once .nil)) .nil)⟩

/-- No other schema document and no tree parser is asked for. -/
def noDocuments : TreeParser := fun _ => .error []

def noLoader : SchemaLoader := fun _ _ => .error (.unknownRef [])

theorem paymentSchema_resolves : ∃ registry t,
    resolveSchema .stored noDocuments noLoader 1 (parseSchema paymentSchema) [] = .ok (registry, []) ∧
      registry.lookup paymentQName = some t ∧
      collectRequiredElementNames t = ["amount".toList, "card".toList, "iban".toList] := by
  have evaluated : ∃ resolved,
      resolveSchema .stored noDocuments noLoader 1 (parseSchema paymentSchema) [] = .ok resolved ∧
        ∃ t, resolved.1.lookup paymentQName = some t ∧
          resolved.2 = [] ∧ collectRequiredElementNames t = ["amount".toList, "card".toList, "iban".toList] := by
    decide +kernel
  obtain ⟨⟨registry, loaded⟩, run, t, found, rfl, required⟩ := evaluated
  exact ⟨registry, t, run, found, required⟩

theorem paymentFlat_collects :
    collectAllSchemas noDocuments noLoader 1 (parseSchema paymentSchema) [] = .ok (paymentFlat, []) := rfl

theorem paymentFlat_defines :
    paymentFlat.Defines paymentQName (visitComplexType paymentType) := .inl rfl

theorem paymentType_model : readModel paymentType.children = some paymentModel := rfl

def cardPayment : Text := "<request><amount/><card/></request>".toList

theorem cardPayment_spells : Spells scanner cardPayment [amountName, cardName] :=
  ⟨_, ⟨.element ⟨"request".toList, []⟩ (emptyElements [amountName, cardName]) .nil,
    by unfold Reader.Reads; decide +kernel, rfl⟩, by decide⟩

theorem cardPayment_valid : [amountName, cardName] ∈ paymentModel.language Leaf.admits := by
  have leaf (name : NcName) : [name] ∈ Occurs.once.times (Particles.letters Leaf.admits (.named name)) :=
    Occurs.mem_times_once ⟨name, rfl, rfl⟩
  have rest : [cardName] ∈ Occurs.once.times (Particles.language Leaf.admits .choice
      (.leaf (.named cardName) .once (.leaf (.named ibanName) .once .nil))) :=
    Occurs.mem_times_once (.inl (leaf cardName))
  exact Occurs.mem_times_once
    (Language.append_mem_mul (leaf amountName) (Language.append_mem_mul rest Language.nil_mem_one))

theorem validPayment_rejected : ∃ registry t body word,
    collectAllSchemas noDocuments noLoader 1 (parseSchema paymentSchema) [] = .ok (paymentFlat, []) ∧
      resolveSchema .stored noDocuments noLoader 1 (parseSchema paymentSchema) [] = .ok (registry, []) ∧
      paymentFlat.Defines paymentQName (visitComplexType paymentType) ∧ registry.lookup paymentQName = some t ∧
      readModel paymentType.children = some paymentModel ∧ word ∈ paymentModel.language Leaf.admits ∧
      Spells scanner body word ∧
      validateRequest .scanning body registry (some paymentQName) =
        senderFault "Schema validation failed: required element 'iban' is missing".toList := by
  obtain ⟨registry, t, resolves, found, required⟩ := paymentSchema_resolves
  refine ⟨registry, t, cardPayment, _, paymentFlat_collects, resolves, paymentFlat_defines, found,
    paymentType_model, cardPayment_valid, cardPayment_spells, ?_⟩
  simp only [validateRequest, Option.bind_some, found, required]
  decide +kernel

/-! A choice inside a sequence, none of whose alternatives is demanded. -/

def optionalParticle (name : String) : DomNode :=
  schemaNode "element" [attr "name" name, attr "minOccurs" "0"] []

def receiptType : DomNode :=
  schemaNode "complexType" [attr "name" "Receipt"]
    [schemaNode "sequence" []
      [elementParticle "amount", schemaNode "choice" [] [optionalParticle "card", optionalParticle "iban"]]]

def receiptSchema : DomNode := schemaNode "schema" [attr "targetNamespace" "urn:a"] [receiptType]

def receiptQName : QName := .new "urn:a".toList "Receipt".toList

def receiptFlat : FlatTypeMap := FlatTypeMap.empty.merge (parseSchema receiptSchema)

def atMostOnce : Occurs := ⟨0, some 1⟩

def receiptModel : Model Leaf :=
  ⟨.sequence, .once, .leaf (.named amountName) .once
    (.group .choice .once (.leaf (.named cardName) atMostOnce (.leaf (.named ibanName) atMostOnce .nil)) .nil)⟩

theorem receipt_valid_accepted : ∃ registry t,
    resolveSchema .stored noDocuments noLoader 1 (parseSchema receiptSchema) [] = .ok (registry, []) ∧
      registry.lookup receiptQName = some t ∧ collectRequiredElementNames t = ["amount".toList] ∧
      ∀ body word, word ∈ receiptModel.language Leaf.admits → Spells scanner body word →
        validateRequest .scanning body registry (some receiptQName) = .ok () := by
  have evaluated : ∃ resolved,
      resolveSchema .stored noDocuments noLoader 1 (parseSchema receiptSchema) [] = .ok resolved ∧
        ∃ t, resolved.1.lookup receiptQName = some t ∧
          resolved.2 = [] ∧ collectRequiredElementNames t = ["amount".toList] := by
    decide +kernel
  obtain ⟨⟨registry, loaded⟩, run, t, found, rfl, required⟩ := evaluated
  have collects : collectAllSchemas noDocuments noLoader 1 (parseSchema receiptSchema) [] =
      .ok (receiptFlat, []) := rfl
  have defines : receiptFlat.Defines receiptQName (visitComplexType receiptType) := .inl rfl
  have read : readModel receiptType.children = some receiptModel := rfl
  have forced : ∀ n, Demands receiptFlat receiptType.children n → receiptModel.forces (Leaf.forces n) = true := by
    intro n demanded
    have member := (required_of_definition collects run defines found read n).mpr ⟨(fun choice => by cases choice), demanded⟩
    rw [required] at member
    obtain rfl := List.mem_singleton.mp member
    rfl
  refine ⟨registry, t, run, found, required, ?_⟩
  exact (valid_accepted_iff Externals.scanning_lawful collects run defines found read).mpr (.inr forced)

end SoapServer.Dispatch
