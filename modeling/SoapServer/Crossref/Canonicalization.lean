import SoapServer.Crossref.CanonicalTrees
import SoapServer.Envelope.Acceptance
import SoapServer.Envelope.Attributes
import SoapServer.PieceScanner

/-! Canonical prefixes as a whole: which documents keep their tree, settle after one run, and are
written as one when they differ in nothing but prefixes.
-/

set_option autoImplicit false

namespace SoapServer.Crossref

open Markup hiding localName
open SoapServer.Tree

/-- What stands behind the XML declaration. -/
def body : Content → Content
  | .data (.decl _) rest => rest
  | c => c

/-- A namespace-well-formed document of tags and character data alone, with its tree. -/
structure Document (deref : Text → Option Text) (c : Content) (f : DomForest) : Prop where
  tree : forestOf deref [] c = some f
  single : c.elements.length = 1
  misc : ∀ d ∈ c.topData, d.Misc
  chars : c.AllData IsCharacter
  lexical : c.AllData Data.Lexical
  normal : c.Normal

/-- A text that the reader reports as such a document, with or without an XML declaration. -/
structure Input (reader : RawReader) (deref : Text → Option Text) (xml : Text) (c : Content)
    (f : DomForest) : Prop where
  reports : ∃ events, Reports reader xml events c
  references : CharacterReferences deref
  document : Document deref (body c) f

/-- The output is well-formed and has the tree of the document. -/
def Preserved (reader : RawReader) (deref : Text → Option Text) (xml : Text)
    (f : DomForest) : Prop :=
  ∃ output events c' f', canonicalizePrefixes reader xml = .ok output ∧ output = events.flatMap RawEvent.source ∧
    Denotes events c' ∧ Document deref c' f' ∧ SameTree f f'

/-- A second run returns the output unchanged. -/
def Settled (reader : RawReader) (xml : Text) : Prop :=
  ∀ output, canonicalizePrefixes reader xml = .ok output → canonicalizePrefixes reader output = .ok output

/-- Two documents that differ in nothing but prefixes and declarations: their names stand for
the same, and everything else is written alike. -/
inductive PrefixVariant : Scope → Scope → Content → Content → Prop
  | nil {scope scope' : Scope} : PrefixVariant scope scope' .nil .nil
  | data {scope scope' : Scope} {d : Data} {c c' : Content} (more : PrefixVariant scope scope' c c') :
    PrefixVariant scope scope' (.data d c) (.data d c')
  | empty {scope scope' : Scope} {tag tag' : Tag} {c c' : Content}
    (name : elementName (scope.enter tag.attributes) tag.name = elementName (scope'.enter tag'.attributes) tag'.name)
    (attributes : expandedAttributes (scope.enter tag.attributes) tag.attributes =
      expandedAttributes (scope'.enter tag'.attributes) tag'.attributes)
    (more : PrefixVariant scope scope' c c') : PrefixVariant scope scope' (.empty tag c) (.empty tag' c')
  | element {scope scope' : Scope} {tag tag' : Tag} {kids kids' c c' : Content}
    (name : elementName (scope.enter tag.attributes) tag.name = elementName (scope'.enter tag'.attributes) tag'.name)
    (attributes : expandedAttributes (scope.enter tag.attributes) tag.attributes =
      expandedAttributes (scope'.enter tag'.attributes) tag'.attributes)
    (inner : PrefixVariant (scope.enter tag.attributes) (scope'.enter tag'.attributes) kids kids')
    (more : PrefixVariant scope scope' c c') : PrefixVariant scope scope' (.element tag kids c) (.element tag' kids' c')

/-- Each of two documents keeps its tree and settles, and prefixes make no difference between them. -/
structure Canonicalizes (reader : RawReader) (deref : Text → Option Text) (xml xml' : Text)
    (c c' : Content) (f f' : DomForest) : Prop where
  preserved : Preserved reader deref xml f
  settled : Settled reader xml
  preserved' : Preserved reader deref xml' f'
  settled' : Settled reader xml'
  confluent : PrefixVariant Scope.initial Scope.initial (body c) (body c') →
    canonicalizePrefixes reader xml = canonicalizePrefixes reader xml'

/-- A tag that canonical prefixes do justice: no value has to be escaped, the element is not in the
namespace of `xml`, and a declaration of `xml` is written letter by letter. -/
structure FitTag (scope : Scope) (tag : Tag) : Prop extends Accepted scope tag where
  plain : PlainValues tag

instance (scope : Scope) (tag : Tag) : Decidable (FitTag scope tag) :=
  decidable_of_iff ((XmlLiteral tag ∧ resolveElement (scope.enter tag.attributes) tag.name ≠ .bound xmlNamespace) ∧ PlainValues tag)
    ⟨fun h => ⟨⟨h.1.1, h.1.2⟩, h.2⟩, fun h => ⟨⟨h.literal, h.notXml⟩, h.plain⟩⟩

/-- The tags are fit, and no namespace in use holds a double quote where it is declared. -/
structure Fits (c : Content) : Prop where
  tags : c.AllScoped FitTag Scope.initial
  names : PlainNames c

instance (c : Content) : Decidable (Fits c) :=
  decidable_of_iff (c.AllScoped FitTag Scope.initial ∧ PlainNames c) ⟨fun h => ⟨h.1, h.2⟩,
    fun h => ⟨h.tags, h.names⟩⟩

/-! The document behind its declaration. -/

theorem allScoped_body {P : Scope → Tag → Prop} {scope : Scope} (c : Content) :
    (body c).AllScoped P scope ↔ c.AllScoped P scope := by
  unfold body
  split <;> rfl

theorem names_body (c : Content) (scope : Scope) : (body c).names scope = c.names scope := by
  unfold body
  split <;> rfl

theorem canonDocument_body (c : Content) : canonDocument (body c) = canonDocument c := by
  have prefixes : prefixesOf (body c) = prefixesOf c :=
    by rw [prefixesOf, prefixesOf, usedUris, usedUris, names_body]
  rw [canonDocument, canonDocument, prefixes]
  unfold body
  split <;> rfl

/-! What a tree says of the tags in scope. -/

variable {deref : Text → Option Text} {scope scope' : Scope} {c c' : Content} {f : DomForest}

theorem stands_of_forest (references : CharacterReferences deref) {inherited : Namespaces}
    (agrees : Agrees deref scope inherited) (run : forestOf deref inherited c = some f) :
    c.AllScoped (fun scope tag => ∃ e, Stands deref scope tag e) scope := by
  induction c generalizing scope inherited f with
  | nil => trivial
  | data d rest ih =>
    obtain ⟨after, restRun, _⟩ := forestOf_data run
    exact ih agrees restRun
  | empty tag rest ih =>
    obtain ⟨e, element, after, restRun, rfl⟩ := forestOf_empty.mp run
    exact ⟨⟨e, stands_of_element agrees references element⟩, ih agrees restRun⟩
  | element tag kids rest kidsIH restIH =>
    obtain ⟨e, element, children, kidsRun, after, restRun, rfl⟩ := forestOf_element.mp run
    have stands := stands_of_element agrees references element
    exact ⟨⟨e, stands⟩, kidsIH stands.agrees kidsRun, restIH agrees restRun⟩

theorem allScoped_of_allTags {P : Tag → Prop} {c : Content} (all : c.AllTags P) (scope : Scope) :
    c.AllScoped (fun _ => P) scope := by
  induction c generalizing scope with
  | nil => trivial
  | data d rest ih => exact ih all scope
  | empty tag rest ih => exact ⟨all.1, ih all.2 scope⟩
  | element tag kids rest kidsIH restIH => exact ⟨all.1, kidsIH all.2.1 _, restIH all.2.2 scope⟩

theorem Document.stands (document : Document deref c f) (references : CharacterReferences deref) :
    c.AllScoped (fun scope tag => ∃ e, Stands deref scope tag e) Scope.initial :=
  stands_of_forest references (agrees_initial deref) document.tree

theorem Document.sound (document : Document deref c f) (references : CharacterReferences deref) :
    c.AllScoped ScopedTag Scope.initial :=
  (document.stands references).mono fun _ _ stands => stands.elim fun _ stands =>
    stands.scopedTag references

theorem Document.canonical (document : Document deref c f) (references : CharacterReferences deref)
    (accepted : c.AllScoped Accepted Scope.initial) : Canonical c :=
  ⟨document.sound references, accepted, document.single⟩

theorem Document.decodedNames (document : Document deref c f)
    (references : CharacterReferences deref) (accepted : c.AllScoped Accepted Scope.initial) :
    DecodedNames deref (prefixesOf c) := by
  have declares : c.AllTags (Declares (DecodedName deref)) :=
    ((document.stands references).and accepted).allTags fun _ _ both =>
      both.1.elim fun _ stands => stands.declares references both.2.literal
  exact prefixesOf_hold declares

theorem Canonizes.topData {prefixes : PrefixMap} {isRoot : Bool} {outer : Scope}
    (canonizes : Canonizes prefixes isRoot scope outer c c') (chars : c.AllData IsCharacter) :
    c'.topData = c.topData := by
  induction canonizes with
  | nil => rfl
  | kept _ _ ih => exact congrArg (List.cons _) (ih chars.2)
  | dropped other _ _ => exact absurd chars.1 other
  | empty _ _ ih => exact ih chars
  | element _ _ _ _ ih => exact ih chars.2

/-- The canonical form of a fitting document is a document with its tree. -/
theorem Document.form (document : Document deref c f) (references : CharacterReferences deref)
    (fits : Fits c) :
    ∃ f', Document deref (canonDocument c) f' ∧ SameTree f f' := by
  have accepted : c.AllScoped Accepted Scope.initial := fits.tags.mono fun _ _ tag => tag.toAccepted
  have plain : c.AllTags PlainValues := fits.tags.allTags fun _ _ tag => tag.plain
  have canonical := document.canonical references accepted
  obtain ⟨f', tree, same⟩ := canonical.canonizes.tree (document.decodedNames references accepted) (prefixesOf_proper c)
    references document.chars plain (agrees_initial deref) (agrees_initial deref) document.tree
  refine ⟨f', ⟨tree, canonical.form.single, ?_, canonical.canonizes.allData document.chars,
    canonical.canonizes.allData document.lexical, canonical.canonizes.normal document.chars document.normal⟩, same⟩
  rw [canonical.canonizes.topData document.chars]
  exact document.misc

/-! One run, and the next. -/

variable {reader : RawReader} {xml xml' output : Text} {f' : DomForest}

theorem Input.runs_iff (input : Input reader deref xml c f) :
    canonicalizePrefixes reader xml = .ok output ↔
      (body c).AllScoped Accepted Scope.initial ∧ output = (canonDocument (body c)).write := by
  obtain ⟨events, reports⟩ := input.reports
  have sound : c.AllScoped ScopedTag Scope.initial :=
    (allScoped_body c).mp (input.document.sound input.references)
  rw [canonicalizePrefixes_eq_ok reports sound, allScoped_body, canonDocument_body]

theorem clean_of_lexical {d : Data} (lexical : d.Lexical) : d.Clean := by
  cases d with
  | text raw | generalRef name => exact lexical
  | cdata raw | comment raw => trivial
  | pi raw | decl raw | docType raw => exact lexical.elim

theorem denotes_written (canonical : Canonical c) (writable : c.Writable) : Denotes c.pieces c :=
  denotes_pieces (Envelope.allTags_and writable.tags (Envelope.allTags_and writable.quotes (canonical.sound.allTags fun _ _ tag => tag.unique)))
    (writable.data.mono fun _ => clean_of_lexical)

/-- Before the root there is white space, and no byte order mark. -/
theorem head_ne_mark (misc : ∀ d ∈ c.topData, d.Misc) (normal : c.Normal) :
    c.write.head? ≠ some byteOrderMark := by
  have markup (s : Text) : ('<' :: s).head? ≠ some byteOrderMark := head_ne_byteOrderMark rfl
  cases c with
  | nil => simp [Content.write]
  | data d rest =>
    have first := misc d (.head _)
    cases d with
    | text raw =>
      obtain ⟨x, raw, rfl⟩ := List.exists_cons_of_ne_nil normal.1
      have white := first x (.head _)
      simp only [Content.write, Data.write, List.cons_append, List.head?_cons, ne_eq,
        Option.some.injEq]
      rintro rfl
      cases white
    | generalRef name => exact first.elim
    | cdata raw | comment raw | pi raw | decl raw | docType raw => exact markup _
  | empty tag rest => exact markup _
  | element tag kids rest => exact markup _

/-- What is written plainly is reported as it was written. -/
theorem reports_written (law : reader.ReadsBack) (canonical : Canonical c) (writable : c.Writable)
    (normal : c.Normal) (misc : ∀ d ∈ c.topData, d.Misc) : Reports reader c.write c.pieces c where
  source := c.pieces_source.symm
  reads := law.written c writable normal (canonical.sound.allTags fun _ _ tag => tag.unique) (head_ne_mark misc normal)
  denotes := denotes_written canonical writable

/-- The second run on a document: its form in turn has a form, and is that form exactly when no
value has to be escaped. -/
theorem Document.second_run (law : reader.ReadsBack) (document : Document deref c f)
    (canonical : Canonical c) (names : PlainNames c) :
    canonicalizePrefixes reader (canonDocument c).write = .ok (canonDocument c).write ↔ c.AllTags PlainValues := by
  have writable := canonical.writable names document.lexical
  have names' : PlainNames (canonDocument c) := by
    rw [PlainNames, canonical.usedUris_canonDocument]
    exact names
  have misc : ∀ d ∈ (canonDocument c).topData, d.Misc := by
    rw [canonical.canonizes.topData document.chars]
    exact document.misc
  have reports := reports_written law canonical.form writable (canonical.canonizes.normal document.chars document.normal)
    misc
  have noTag : c.AllTags fun tag => ∀ a ∈ tag.attributes, '<' ∉ a.value :=
    canonical.sound.allTags fun _ _ tag a member => (tag.attributes a member).2
  rw [canonicalizePrefixes_eq_ok reports canonical.form.sound, canonical.twice,
    ← canonical.canonizes.rewriteValues_eq_iff (prefixesOf_proper c) noTag]
  constructor
  · rintro ⟨_, same⟩
    -- both forms are read back from the one text, and they have one shape
    have first := denotes_written canonical.form writable
    have second := denotes_written canonical.form.form (canonical.form.writable names' writable.data)
    rw [canonical.twice] at second
    have texts : (rewriteValues (canonDocument c)).pieces.flatMap RawEvent.source ++ [] =
        (canonDocument c).pieces.flatMap RawEvent.source ++ [] := by
      rw [Content.pieces_source, Content.pieces_source, same]
    exact (denotes_unique second first (rewriteValues_shape _) texts).1
  · intro same
    rw [same]
    exact ⟨canonical.form.accepted, rfl⟩

theorem PrefixVariant.names (variant : PrefixVariant scope scope' c c') :
    c.names scope = c'.names scope' := by
  induction variant with
  | nil => rfl
  | data _ ih => exact ih
  | empty name attributes _ ih =>
    rw [Content.names, Content.names, name, ← expandedAttributes_names, ← expandedAttributes_names,
      attributes, ih]
  | element name attributes _ _ innerIH moreIH =>
    rw [Content.names, Content.names, name, ← expandedAttributes_names, ← expandedAttributes_names,
      attributes, innerIH, moreIH]

theorem PrefixVariant.canonContent (variant : PrefixVariant scope scope' c c')
    (prefixes : PrefixMap) (isRoot : Bool) :
    canonContent prefixes isRoot scope c = canonContent prefixes isRoot scope' c' := by
  induction variant generalizing isRoot with
  | nil => rfl
  | @data _ _ d _ _ _ ih =>
    cases d with
    | text raw | cdata raw | generalRef name => exact congrArg (Content.data _) (ih isRoot)
    | comment raw | pi raw | decl raw | docType raw => exact ih isRoot
  | empty name attributes _ ih =>
    rw [Crossref.canonContent, Crossref.canonContent, canonicalTag, canonicalTag, name, attributes,
      ih]
  | element name attributes _ _ innerIH moreIH =>
    rw [Crossref.canonContent, Crossref.canonContent, canonicalTag, canonicalTag, name, attributes,
      innerIH, moreIH]

/-- Documents that differ in nothing but prefixes have one canonical form. -/
theorem PrefixVariant.canonDocument (variant : PrefixVariant Scope.initial Scope.initial c c') :
    canonDocument c = canonDocument c' := by
  have prefixes : prefixesOf c = prefixesOf c' :=
    by rw [prefixesOf, prefixesOf, usedUris, usedUris, variant.names]
  rw [Crossref.canonDocument, Crossref.canonDocument, prefixes]
  exact variant.canonContent _ true

theorem fits_iff :
    Fits c ↔ c.AllScoped Accepted Scope.initial ∧ c.AllTags PlainValues ∧ PlainNames c := by
  constructor
  · intro fits
    exact ⟨fits.tags.mono fun _ _ tag => tag.toAccepted, fits.tags.allTags fun _ _ tag => tag.plain,
      fits.names⟩
  · rintro ⟨accepted, plain, names⟩
    exact ⟨(accepted.and (allScoped_of_allTags plain _)).mono fun _ _ both => ⟨both.1, both.2⟩,
      names⟩

/-- A document that fits keeps its tree and settles. -/
theorem Input.preserved_settled (law : reader.ReadsBack) (input : Input reader deref xml c f)
    (fits : Fits (body c)) :
    Preserved reader deref xml f ∧ Settled reader xml := by
  obtain ⟨accepted, plain, names⟩ := fits_iff.mp fits
  have canonical := input.document.canonical input.references accepted
  constructor
  · obtain ⟨f', document, same⟩ := input.document.form input.references fits
    exact ⟨_, _, _, f', input.runs_iff.mpr ⟨accepted, rfl⟩, (Content.pieces_source _).symm,
      denotes_written canonical.form (canonical.writable names input.document.lexical), document, same⟩
  · intro output ran
    obtain ⟨_, rfl⟩ := input.runs_iff.mp ran
    exact (input.document.second_run law canonical names).mpr plain

/-- Where no namespace in use holds a double quote, nothing else does. -/
theorem Input.fits_of_settled (law : reader.ReadsBack) (input : Input reader deref xml c f)
    (names : PlainNames (body c)) (preserved : Preserved reader deref xml f)
    (settled : Settled reader xml) : Fits (body c) := by
  obtain ⟨output, _, _, _, ran, _⟩ := preserved
  obtain ⟨accepted, rfl⟩ := input.runs_iff.mp ran
  have canonical := input.document.canonical input.references accepted
  exact fits_iff.mpr ⟨accepted, (input.document.second_run law canonical names).mp (settled _ ran),
    names⟩

/-- Whatever the documents, canonical prefixes do what they are for. -/
def PrefixesImmaterial : Prop :=
  ∀ (reader : RawReader) (deref : Text → Option Text) (xml xml' : Text) (c c' : Content) (f f' : DomForest),
    reader.ReadsBack → Input reader deref xml c f → Input reader deref xml' c' f' →
      Canonicalizes reader deref xml xml' c c' f f'

theorem characterReferences_predefined : CharacterReferences predefinedEntity := by
  have all : ∀ entity ∈ predefinedEntities, IsName entity.1 ∧ entity.2.length = 1 := by decide
  exact fun name s found => all (name, s) (Associations.mem_of_lookup found)

theorem input_written (document : Document predefinedEntity c f) (own : body c = c)
    (tags : c.AllTags fun tag => tag.Lexical ∧ tag.QuoteFree ∧ tag.Unique) :
    Input pieceScanner predefinedEntity c.write c f where
  reports := by
    have writable : c.Writable :=
      ⟨tags.mono fun _ tag => tag.1, tags.mono fun _ tag => tag.2.1, document.lexical⟩
    exact ⟨c.pieces, c.pieces_source.symm, pieceScanner_readsBack.written c writable document.normal
      (tags.mono fun _ tag => tag.2.2) (head_ne_mark document.misc document.normal), denotes_pieces tags (document.lexical.mono fun _ => clean_of_lexical)⟩
  references := characterReferences_predefined
  document := own.symm ▸ document

/-- An attribute with a reference in its value. -/
def company : Content := .empty ⟨"r".toList, [⟨"a".toList, "x &amp; y".toList⟩]⟩ .nil

def companyTree : DomForest := .element ⟨none, "r".toList, [⟨none, "a".toList, "x & y".toList⟩], []⟩ .nil .nil

theorem company_document : Document predefinedEntity company companyTree :=
  ⟨by decide +kernel, rfl, (fun _ member => by cases member), trivial, trivial, trivial⟩

/-- One element, under a prefix or as the default. -/
def foo (name key : String) : Content :=
  .element ⟨name.toList, [⟨key.toList, "urn:u".toList⟩, ⟨"k".toList, "1".toList⟩]⟩ (.data (.text "hi".toList) .nil) .nil

def fooTree (pre : Option Text) : DomForest :=
  .element ⟨some "urn:u".toList, "Foo".toList, [⟨none, "k".toList, "1".toList⟩], [(pre, "urn:u".toList)]⟩
    (.text "hi".toList .nil) .nil

theorem foo_document (name key : String) (pre : Option Text)
    (tree : forestOf predefinedEntity [] (foo name key) = some (fooTree pre)) :
    Document predefinedEntity (foo name key) (fooTree pre) where
  tree := tree
  single := rfl
  misc := fun _ member => by cases member
  chars := ⟨⟨trivial, trivial⟩, trivial⟩
  lexical := ⟨⟨by decide, trivial⟩, trivial⟩
  normal := ⟨⟨by decide, (fun _ _ same => by cases same), trivial⟩, trivial⟩

end SoapServer.Crossref
