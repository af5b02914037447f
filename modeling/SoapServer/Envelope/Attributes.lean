import SoapServer.Envelope.FragmentNames
import SoapServer.Markup.Pieces

/-! The attributes of the tags copied from an envelope. Values are written between double
quotes whatever they stood between, so a value with a double quote in it is cut.
-/

set_option autoImplicit false

namespace SoapServer.Envelope

open Markup

/-- The attributes of a tag with their decoded values. -/
def decodedAttributes (deref : Text → Text) (attributes : List Attribute) : List (Text × Text) :=
  attributes.map fun a => (a.key, decodeValue deref a.value)

/-- The text of a tag is a well-formed tag with the given name and just the given attributes. -/
def TagKept (deref : Text → Text) (body name : Text) (expected : Text × Text → Prop) : Prop :=
  ∃ tag, TagText body tag ∧ tag.name = name ∧
    ∀ pair, pair ∈ decodedAttributes deref tag.attributes ↔ expected pair

/-- The attributes of an extracted root: its own, and the declarations in scope of prefixes that
it does not declare. -/
def RootAttribute (deref : Text → Text) (bindings : Scope) (tag : Tag)
    (pair : Text × Text) : Prop :=
  pair ∈ decodedAttributes deref tag.attributes ∨
    ∃ p uri, bindings.lookup p = some uri ∧ p ∉ tag.prefixes ∧ pair = (bindingKey p, decodeValue deref uri)

/-- Every tag of a copy is kept: its root with the inherited declarations, the others as they are. -/
structure CopyKept (deref : Text → Text) (bindings : Scope) (el : Element) : Prop where
  root : TagKept deref (fragment bindings el).tag.writeBody el.tag.name (RootAttribute deref bindings el.tag)
  nested : ∀ kids, el.kids = some kids → kids.AllTags fun tag =>
    TagKept deref tag.writeBody tag.name (· ∈ decodedAttributes deref tag.attributes)

/-- What is extracted is copied tag by tag, and every tag is kept. -/
structure KeepsAttributes (deref : Text → Text) (m : Message) (parsed : ParsedEnvelope) : Prop where
  headers : parsed.headerChildren = m.headerParts.map fun el =>
    (fragment (m.bindings m.headerTag) el).write
  body : parsed.bodyElement = (fragment (m.bindings m.body) m.first).write
  tags : ∀ pair ∈ m.extracted, CopyKept deref (m.bindings pair.1) pair.2

/-! One tag. -/

variable {deref : Text → Text}

theorem eq_of_key {tag : Tag} (unique : tag.Unique) {a b : Attribute} (first : a ∈ tag.attributes)
    (second : b ∈ tag.attributes) (same : a.key = b.key) : a = b :=
  List.inj_on_of_nodup_map unique first second same

/-- A value that is cut decodes to something else. -/
theorem decodeValue_cut {a b : Attribute} {more : Text} (closed : Markup.ReferencesClosed a.value)
    (cut : a.value = b.value ++ '"' :: more) :
    decodeValue deref a.value ≠ decodeValue deref b.value := by
  intro same
  rw [cut, decodeValue_quote deref (cut ▸ closed)] at same
  have := congrArg List.length same
  simp at this

/-- A tag is kept under its own attributes just when its values hold no double quote. -/
theorem tagKept_iff {tag : Tag} (lexical : tag.Lexical) (unique : tag.Unique)
    (closed : tag.ReferencesClosed) :
    TagKept deref tag.writeBody tag.name (· ∈ decodedAttributes deref tag.attributes) ↔ tag.QuoteFree := by
  constructor
  · rintro ⟨read, text, _, same⟩
    rcases (tagText_written lexical text).2
        with ⟨_, quotes⟩ | ⟨before, a, b, after, after', more, own, cutOwn, key, cut⟩
    · exact quotes
    · have member : a ∈ tag.attributes := by rw [own]; simp
      have cutMember : b ∈ read.attributes := by rw [cutOwn]; simp
      obtain ⟨c, among, decoded⟩ := List.mem_map.mp ((same _).mp (List.mem_map.mpr ⟨b, cutMember, rfl⟩))
      obtain ⟨sameKey, sameValue⟩ := Prod.mk.inj decoded
      obtain rfl := eq_of_key unique among member (sameKey.trans key.symm)
      exact absurd sameValue (decodeValue_cut (closed c member) cut)
  · intro quotes
    exact ⟨tag, tagText_of_quoteFree lexical quotes unique, rfl, fun _ => Iff.rfl⟩

/-- A property of all tags of a forest that another decides. -/
theorem allTags_iff {P Q R : Tag → Prop} (decide : ∀ tag, R tag → (P tag ↔ Q tag)) {c : Content}
    (all : c.AllTags R) :
    c.AllTags P ↔ c.AllTags Q := by
  induction c with
  | nil => rfl
  | data d rest ih => exact ih all
  | empty tag rest ih => exact and_congr (decide tag all.1) (ih all.2)
  | element tag kids rest kidsIH restIH =>
    exact and_congr (decide tag all.1) (and_congr (kidsIH all.2.1) (restIH all.2.2))

theorem allTags_and {P Q : Tag → Prop} {c : Content} (first : c.AllTags P) (second : c.AllTags Q) :
    c.AllTags fun tag => P tag ∧ Q tag := by
  induction c with
  | nil => trivial
  | data d rest ih => exact ih first second
  | empty tag rest ih => exact ⟨⟨first.1, second.1⟩, ih first.2 second.2⟩
  | element tag kids rest kidsIH restIH =>
    exact ⟨⟨first.1, second.1⟩, kidsIH first.2.1 second.2.1, restIH first.2.2 second.2.2⟩

/-! The root. -/

theorem mem_fragment_attributes {bindings : Scope} {el : Element} {a : Attribute} :
    a ∈ (fragment bindings el).tag.attributes ↔
      (∃ binding ∈ inherited bindings el, a = ⟨bindingKey binding.1, binding.2⟩) ∨ a ∈ el.tag.attributes := by
  simp only [fragment, List.mem_append, bindingAttributes, List.mem_map, eq_comm]

theorem lookup_inherited {bindings : Scope} {el : Element} {p : Text}
    (absent : p ∉ el.tag.prefixes) :
    (inherited bindings el).lookup p = bindings.lookup p :=
  Associations.lookup_filter (fun q => q ∉ el.tag.prefixes) (by simpa using absent)

theorem find_bindingAttributes (bindings : Scope) (p : Text) :
    (bindingAttributes bindings).find? (fun a => a.key = bindingKey p) =
      (bindings.lookup p).map fun uri => ⟨bindingKey p, uri⟩ := by
  induction bindings with
  | nil => rfl
  | cons binding rest ih =>
    obtain ⟨q, uri⟩ := binding
    rw [bindingAttributes, List.map_cons, ← bindingAttributes]
    by_cases same : p = q
    · subst same
      simp
    · have different : bindingKey q ≠ bindingKey p :=
        fun keys => same (bindingKey_injective keys).symm
      simp [List.lookup_cons, beq_eq_false_iff_ne.mpr same, different, ih]

/-- The first attribute that declares an inherited prefix is the innermost declaration. -/
theorem lookup_of_first {bindings : Scope} {el : Element} {binding : Text × Text}
    (member : binding ∈ inherited bindings el)
    (first : (fragment bindings el).tag.attributes.find? (fun a => a.key = bindingKey binding.1) =
      some ⟨bindingKey binding.1, binding.2⟩) :
    binding.1 ∉ el.tag.prefixes ∧ bindings.lookup binding.1 = some binding.2 := by
  have absent : binding.1 ∉ el.tag.prefixes := of_decide_eq_true (List.mem_filter.mp member).2
  refine ⟨absent, ?_⟩
  rw [← lookup_inherited absent]
  obtain ⟨uri, known⟩ : ∃ uri, (inherited bindings el).lookup binding.1 = some uri :=
    Option.ne_none_iff_exists'.mp fun none =>
      Associations.lookup_eq_none_iff.mp none (List.mem_map.mpr ⟨binding, member, rfl⟩)
  rw [fragment, List.find?_append, find_bindingAttributes, known, Option.map_some, Option.some_or] at first
  rw [known, (Attribute.mk.inj (Option.some.inj first)).2]

theorem find_of_unique {tag : Tag} (unique : tag.Unique) {a : Attribute}
    (member : a ∈ tag.attributes) :
    tag.attributes.find? (fun b => b.key = a.key) = some a := by
  obtain ⟨b, found⟩ := Option.isSome_iff_exists.mp
    (List.find?_isSome (p := fun b : Attribute => b.key = a.key) |>.mpr ⟨a, member, by simp⟩)
  have same : b.key = a.key := by simpa using List.find?_some found
  rw [found, eq_of_key unique (List.mem_of_find?_eq_some found) member same]

/-- The root of a fragment has the attributes it should have, each once, just when its values hold
no double quote and it declares no prefix twice. -/
theorem rootKept_iff (deref : Text → Text) {bindings : Scope} {el : Element}
    (lexical : (fragment bindings el).tag.Lexical)
    (closed : (fragment bindings el).tag.ReferencesClosed) :
    TagKept deref (fragment bindings el).tag.writeBody el.tag.name (RootAttribute deref bindings el.tag) ↔
      (fragment bindings el).tag.QuoteFree ∧ (fragment bindings el).tag.Unique := by
  constructor
  · rintro ⟨read, text, _, same⟩
    rcases (tagText_written lexical text).2 with ⟨whole, quotes⟩ |
      ⟨before, a, b, after, after', more, own, cutOwn, key, cut⟩
    · exact ⟨quotes, by rw [Tag.Unique, whole]; exact text.unique⟩
    · exfalso
      have member : a ∈ (fragment bindings el).tag.attributes := by rw [own]; simp
      have cutMember : b ∈ read.attributes := by rw [cutOwn]; simp
      -- what is read declares no prefix twice, so nothing before the cut has the same key
      have fresh : ∀ c ∈ before, c.key ≠ a.key := by
        intro c among sameKey
        have apart := text.unique
        rw [Tag.Unique, cutOwn, List.map_append, List.map_cons] at apart
        exact (List.nodup_append.mp apart).2.2 c.key (List.mem_map.mpr ⟨c, among, rfl⟩) b.key (.head _)
          (sameKey.trans key)
      have first : (fragment bindings el).tag.attributes.find? (fun c => c.key = a.key) = some a := by
        have none : before.find? (fun c => c.key = a.key) = none :=
          List.find?_eq_none.mpr fun c among => by simpa using fresh c among
        rw [own, List.find?_append, none, Option.none_or]
        simp
      have expected : RootAttribute deref bindings el.tag (a.key, decodeValue deref a.value) := by
        rcases mem_fragment_attributes.mp member with ⟨binding, inherits, rfl⟩ | ownAttribute
        · obtain ⟨absent, known⟩ := lookup_of_first inherits first
          exact .inr ⟨binding.1, binding.2, known, absent, rfl⟩
        · exact .inl (List.mem_map.mpr ⟨a, ownAttribute, rfl⟩)
      obtain ⟨c, among, decoded⟩ := List.mem_map.mp ((same _).mpr expected)
      obtain ⟨sameKey, sameValue⟩ := Prod.mk.inj decoded
      obtain rfl := eq_of_key text.unique among cutMember (sameKey.trans key)
      exact decodeValue_cut (closed a member) cut sameValue.symm
  · rintro ⟨quotes, unique⟩
    refine ⟨_, tagText_of_quoteFree lexical quotes unique, rfl, fun pair => ?_⟩
    constructor
    · intro member
      obtain ⟨a, among, rfl⟩ := List.mem_map.mp member
      have first := find_of_unique unique among
      rcases mem_fragment_attributes.mp among with ⟨binding, inherits, rfl⟩ | ownAttribute
      · obtain ⟨absent, known⟩ := lookup_of_first inherits first
        exact .inr ⟨binding.1, binding.2, known, absent, rfl⟩
      · exact .inl (List.mem_map.mpr ⟨a, ownAttribute, rfl⟩)
    · rintro (own | ⟨p, uri, known, absent, rfl⟩)
      · obtain ⟨a, among, rfl⟩ := List.mem_map.mp own
        exact List.mem_map.mpr ⟨a, mem_fragment_attributes.mpr (.inr among), rfl⟩
      · have found := find_bindingAttributes (inherited bindings el) p
        rw [lookup_inherited absent, known] at found
        exact List.mem_map.mpr ⟨⟨bindingKey p, uri⟩,
          List.mem_append_left _ (List.mem_of_find?_eq_some found), rfl⟩

/-! The message. -/

theorem copyKept_iff {m : Message} (sound : m.document.Sound)
    (closed : m.document.AllTags Tag.ReferencesClosed) {pair : Tag × Element}
    (member : pair ∈ m.extracted) :
    CopyKept deref (m.bindings pair.1) pair.2 ↔
      (fragment (m.bindings pair.1) pair.2).AllTags Tag.QuoteFree ∧ Redeclared m.envelope pair.1 pair.2 := by
  have partLexical := m.extracted_allTags sound.lexical member
  have lexical := fragment_lexical sound member
  have partClosed := m.extracted_allTags closed member
  have rootClosed : (fragment (m.bindings pair.1) pair.2).tag.ReferencesClosed := by
    intro a among
    have plain := plain_of_sound sound
    rcases fragment_attribute (m.envelope_allTags plain) (m.extracted_allTags plain member).1 among
        with known | known | own
    · exact partClosed.1 a known
    · exact m.envelope_allTags closed a known
    · exact partClosed.2.1 a own
  have unique := (m.extracted_allTags sound.namespaces.unique member).2
  have nested {kids : Content} (given : pair.2.kids = some kids) :
      kids.AllTags (fun tag => TagKept deref tag.writeBody tag.name (· ∈ decodedAttributes deref tag.attributes)) ↔
        kids.AllTags Tag.QuoteFree := by
    exact allTags_iff (fun tag held => tagKept_iff held.1 held.2.1 held.2.2)
      (allTags_and (partLexical.2.2 kids given) (allTags_and (unique.2 kids given) (partClosed.2.2 kids given)))
  have root := rootKept_iff deref lexical.1 rootClosed
  rw [message_unique_iff sound member] at root
  have copied : (fragment (m.bindings pair.1) pair.2).kids = pair.2.kids.map Content.kept := rfl
  constructor
  · intro kept
    obtain ⟨quotes, redeclared⟩ := root.mp kept.root
    refine ⟨⟨quotes, fun kids found => ?_⟩, redeclared⟩
    obtain ⟨kids, given, rfl⟩ := Option.map_eq_some_iff.mp (copied ▸ found)
    exact (kept_allTags _ _).mpr ((nested given).mp (kept.nested kids given))
  · rintro ⟨quotes, redeclared⟩
    refine ⟨root.mpr ⟨quotes.1, redeclared⟩, fun kids given => (nested given).mpr ?_⟩
    exact (kept_allTags _ _).mp (quotes.2 kids.kept (by rw [copied, given]; rfl))

theorem keepsAttributes_iff {ext : Externals} (lawful : ext.xml.Lawful) (m : Message) {input : Text}
    (reads : ext.xml.Reads input m.document) (sound : m.document.Sound) :
    (∃ parsed, parseEnvelope ext input = .ok parsed ∧ KeepsAttributes deref m parsed) ↔
      ∀ pair ∈ m.extracted, CopyKept deref (m.bindings pair.1) pair.2 := by
  have parses := parseEnvelope_sound lawful m reads sound
  constructor
  · rintro ⟨parsed, _, keeps⟩
    exact keeps.tags
  · intro tags
    exact ⟨_, parses, rfl, rfl, tags⟩

/-- Every tag of every fragment of a message is kept, with its decoded attributes and the
declarations it inherits, exactly when no value that is written holds a double quote and no
prefix is declared on `Envelope` and on the part but not on the extracted element. -/
theorem fragments_keep_attributes_iff {ext : Externals} (lawful : ext.xml.Lawful)
    (deref : Text → Text) (m : Message) {input : Text} (reads : ext.xml.Reads input m.document)
    {doctypes : Text → Option Entities} (wellFormed : m.WellFormed doctypes) :
    (∃ parsed, parseEnvelope ext input = .ok parsed ∧ KeepsAttributes deref m parsed) ↔
      QuoteFree m ∧ ∀ pair ∈ m.extracted, Redeclared m.envelope pair.1 pair.2 := by
  have each (pair) (member : pair ∈ m.extracted) :=
    @copyKept_iff deref _ wellFormed.sound wellFormed.referencesClosed _ member
  rw [keepsAttributes_iff lawful m reads wellFormed.sound]
  constructor
  · intro kept
    exact ⟨fun pair member => ((each pair member).mp (kept pair member)).1,
      fun pair member => ((each pair member).mp (kept pair member)).2⟩
  · rintro ⟨quotes, redeclared⟩ pair member
    exact (each pair member).mpr ⟨quotes pair member, redeclared pair member⟩

/-- Every tag of every fragment of every message is kept. -/
def FragmentsKeepAttributes (ext : Externals) (doctypes : Text → Option Entities)
    (deref : Text → Text) : Prop :=
  ∀ (m : Message) (input : Text), ext.xml.Reads input m.document → m.WellFormed doctypes →
    ∃ parsed, parseEnvelope ext input = .ok parsed ∧ KeepsAttributes deref m parsed

theorem order_keeps_attributes :
    ∃ parsed, parseEnvelope .scanning order.document.write = .ok parsed ∧ KeepsAttributes id order parsed :=
  (fragments_keep_attributes_iff Externals.scanning_lawful id order order_reads order_wellFormed).mpr
    ⟨by decide +kernel, by decide +kernel⟩

/-- The value of `k` would, between double quotes, end early and be followed by another attribute. -/
def injectingTag : Tag := ⟨"a:Op".toList, [⟨"k".toList, "x\" y=\"z".toList⟩]⟩

def singleQuoted : Message where
  version := .soap12
  prolog := .nil
  envelope := envelopeTag
  kids := .element ⟨"s:Body".toList, []⟩ (.empty injectingTag .nil) .nil
  epilog := .nil
  header := none
  body := ⟨"s:Body".toList, []⟩
  bodyKids := .empty injectingTag .nil
  first := ⟨injectingTag, none⟩
  bare := Content.elements_nil
  named := envelopeTag_named
  headers := by decide +kernel
  bodies := by decide +kernel
  firstChild := rfl

/-- The message with the value between single quotes. -/
def singleQuotedText : Text :=
  '<' :: (envelopeTag.writeBody ++ "><s:Body><a:Op k='x\" y=\"z'/></s:Body></s:Envelope>".toList)

theorem singleQuoted_injects :
    ¬ FragmentsKeepAttributes .scanning noDoctypes id ∧
      ∃ parsed, parseEnvelope .scanning singleQuotedText = .ok parsed ∧
        parsed.bodyElement = "<a:Op xmlns:s=\"".toList ++ soap12Ns ++ "\" xmlns:a=\"urn:a\" k=\"x\" y=\"z\"/>".toList := by
  have reads : scanner.Reads singleQuotedText singleQuoted.document := by
    unfold Reader.Reads
    decide +kernel
  have wellFormed : singleQuoted.WellFormed noDoctypes :=
    wellFormedDocument_plain _ rfl (by decide +kernel) rfl (by decide +kernel) (by decide +kernel)
  have member : (singleQuoted.body, singleQuoted.first) ∈ singleQuoted.extracted :=
    by simp [Message.extracted]
  constructor
  · intro keeps
    obtain ⟨parsed, _, kept⟩ := keeps singleQuoted singleQuotedText reads wellFormed
    have quotes := ((copyKept_iff wellFormed.sound wellFormed.referencesClosed member).mp (kept.tags _ member)).1.1
    exact absurd quotes (by decide +kernel)
  · exact ⟨_, parseEnvelope_sound Externals.scanning_lawful singleQuoted reads wellFormed.sound,
      by decide +kernel⟩

end SoapServer.Envelope
