import SoapServer.Markup.Pieces

/-! Well-formed documents, by XML and by XML Namespaces.

The grammar of document type declarations is a parameter: it says which of them are
well-formed, and which entities such a declaration leaves for the document to use.
-/

set_option autoImplicit false

namespace Markup

/-! References. -/

/-- What a hexadecimal digit stands for, sixteen for another character. -/
def digitValue (c : Char) : Nat :=
  if c.isDigit then c.toNat - 48
  else if 97 ≤ c.toNat ∧ c.toNat ≤ 102 then c.toNat - 87
  else if 65 ≤ c.toNat ∧ c.toNat ≤ 70 then c.toNat - 55
  else 16

/-- Digits behind the ones already counted, in a base of at most sixteen. -/
def numeralFrom (base : Nat) : Nat → Text → Option Nat
  | acc, [] => some acc
  | acc, c :: s => if digitValue c < base then numeralFrom base (acc * base + digitValue c) s else none

/-- The number that digits stand for; there is at least one. -/
def numeral (base : Nat) (s : Text) : Option Nat := if s = [] then none else numeralFrom base 0 s

/-- The number of a character that can stand in a document. -/
def isXmlScalar (n : Nat) : Bool :=
  n = 0x9 || n = 0xA || n = 0xD || (0x20 ≤ n && n ≤ 0xD7FF) || (0xE000 ≤ n && n ≤ 0xFFFD) ||
    (0x10000 ≤ n && n ≤ 0x10FFFF)

/-- The entities that need no declaration. -/
def predefinedNames : List Text :=
  ["lt".toList, "gt".toList, "amp".toList, "apos".toList, "quot".toList]

/-- What may stand between the `&` and the `;` of a reference: a character by its number, or an
entity that is predefined or known. -/
def IsReference (known : Text → Prop) : Text → Prop
  | '#' :: 'x' :: digits => ∃ n ∈ numeral 16 digits, isXmlScalar n = true
  | '#' :: digits => ∃ n ∈ numeral 10 digits, isXmlScalar n = true
  | name => IsNcName name ∧ (name ∈ predefinedNames ∨ known name)

instance (known : Text → Prop) [DecidablePred known]
    (s : Text) : Decidable (IsReference known s) := by
  unfold IsReference
  split <;> infer_instance

/-- A text begins with the rest of a reference. -/
def BeginsReference (known : Text → Prop)
    (s : Text) : Prop := ∃ parts ∈ splitOnce ';' s, IsReference known parts.1

instance (known : Text → Prop) [DecidablePred known]
    (s : Text) : Decidable (BeginsReference known s) := by
  unfold BeginsReference
  infer_instance

/-! Tags and character data. -/

/-- The characters between the quotes of an attribute. -/
def ValueWellFormed (known : Text → Prop) : Text → Prop
  | [] => True
  | c :: s => isXmlChar c = true ∧ c ≠ '<' ∧ (c = '&' → BeginsReference known s) ∧ ValueWellFormed known s

instance decidableValueWellFormed (known : Text → Prop) [DecidablePred known] :
    (s : Text) → Decidable (ValueWellFormed known s)
  | [] => inferInstanceAs (Decidable True)
  | c :: s =>
    have := decidableValueWellFormed known s
    inferInstanceAs (Decidable (isXmlChar c = true ∧ c ≠ '<' ∧ (c = '&' → BeginsReference known s) ∧
      ValueWellFormed known s))

/-- The entities a document can refer to: in content, and in the values of attributes, where what
they stand for is restricted. -/
structure Entities where
  inContent : Text → Prop
  inValue : Text → Prop

def Entities.none : Entities := ⟨fun _ => False, fun _ => False⟩

instance : DecidablePred Entities.none.inContent := fun _ => inferInstanceAs (Decidable False)

instance : DecidablePred Entities.none.inValue := fun _ => inferInstanceAs (Decidable False)

def instructionClose : Text := ['?', '>']

/-- The name a processing instruction begins with. -/
def instructionTarget (raw : Text) : Text := raw.takeWhile fun c => !isWhitespace c

/-- What may stand between the tags of an element. -/
def Data.WellFormed (known : Text → Prop) : Data → Prop
  | .text raw =>
    (∀ c ∈ raw, isXmlChar c = true ∧ c ≠ '<' ∧ c ≠ '&') ∧ splitMark sectionClose raw = none
  | .cdata raw => (∀ c ∈ raw, isXmlChar c = true) ∧ splitMark sectionClose (raw ++ sectionClose) = some (raw, [])
  | .generalRef name => IsReference known name
  | .comment raw => (∀ c ∈ raw, isXmlChar c = true) ∧ splitMark ['-', '-'] (raw ++ ['-']) = none
  | .pi raw =>
    (∀ c ∈ raw, isXmlChar c = true) ∧ splitMark instructionClose (raw ++ instructionClose) = some (raw, []) ∧
      IsNcName (instructionTarget raw) ∧ (instructionTarget raw).map Char.toLower ≠ "xml".toList
  | .decl _ | .docType _ => False

instance (known : Text → Prop) [DecidablePred known]
    (d : Data) : Decidable (d.WellFormed known) := by
  unfold Data.WellFormed
  split <;> infer_instance

def Tag.ValuesWellFormed (known : Text → Prop) (tag : Tag) : Prop :=
  ∀ a ∈ tag.attributes, ValueWellFormed known a.value

instance (known : Text → Prop) [DecidablePred known]
    (tag : Tag) : Decidable (tag.ValuesWellFormed known) := by
  unfold Tag.ValuesWellFormed
  infer_instance

/-- A forest that can stand in a well-formed document. Character data is checked in the runs
that a reader sees. -/
structure Content.WellFormed (entities : Entities) (c : Content) : Prop where
  values : c.AllTags (Tag.ValuesWellFormed entities.inValue)
  data : c.coalesce.AllData (Data.WellFormed entities.inContent)
  namespaces : c.NamespaceWellFormed Scope.initial

instance (c : Content) : Decidable (c.WellFormed Entities.none) :=
  decidable_of_iff (c.AllTags (Tag.ValuesWellFormed Entities.none.inValue) ∧
      c.coalesce.AllData (Data.WellFormed Entities.none.inContent) ∧ c.NamespaceWellFormed Scope.initial)
    ⟨fun h => ⟨h.1, h.2.1, h.2.2⟩, fun h => ⟨h.values, h.data, h.namespaces⟩⟩

/-! What stands around the root. -/

/-- The data among the top-level items, in order. -/
def Content.topData : Content → List Data
  | .nil => []
  | .data d rest => d :: rest.topData
  | .empty _ rest | .element _ _ rest => rest.topData

/-- What may stand beside the root of a document, and beside a document type declaration. -/
def Data.Misc : Data → Prop
  | .text raw => Blank raw
  | .comment raw => (Data.comment raw).WellFormed fun _ => False
  | .pi raw => (Data.pi raw).WellFormed fun _ => False
  | .cdata _ | .generalRef _ | .decl _ | .docType _ => False

instance (d : Data) : Decidable d.Misc := by
  unfold Data.Misc
  split <;> first | infer_instance | exact inferInstanceAs (Decidable (∀ c ∈ _, _))

/-- The attributes of an XML declaration. -/
structure DeclarationAttributes (version : Attribute) (encoding standalone : Option Attribute) :
    Prop where
  version : version.key = "version".toList ∧
    ∃ minor, version.value = "1.".toList ++ minor ∧ minor ≠ [] ∧ ∀ c ∈ minor, c.isDigit = true
  encoding : ∀ a ∈ encoding, a.key = "encoding".toList ∧ (∃ c ∈ a.value.head?, c.isAlpha = true) ∧
    ∀ c ∈ a.value, c.isAlphanum = true ∨ c ∈ ['.', '_', '-']
  standalone : ∀ a ∈ standalone, a.key = "standalone".toList ∧ a.value ∈ ["yes".toList, "no".toList]

/-- The characters of an XML declaration. -/
def XmlDeclaration (raw : Text) : Prop :=
  ∃ list version encoding standalone, raw = "xml".toList ++ list ∧
    AttributeList list (version :: (encoding.toList ++ standalone.toList)) ∧
    DeclarationAttributes version encoding standalone

/-- What stands before the root, an XML declaration apart, and the entities it makes known. -/
inductive Prolog (doctypes : Text → Option Entities) : List Data → Entities → Prop
  | misc {items : List Data} (all : ∀ d ∈ items, d.Misc) : Prolog doctypes items Entities.none
  | docType {before after : List Data} {raw : Text} {entities : Entities} (first : ∀ d ∈ before, d.Misc)
    (declared : doctypes raw = some entities) (last : ∀ d ∈ after, d.Misc) :
    Prolog doctypes (before ++ .docType raw :: after) entities

/-- No document type declaration is well-formed. -/
def noDoctypes : Text → Option Entities := fun _ => none

/-- A well-formed document whose root has a start tag and an end tag. -/
structure WellFormedDocument (doctypes : Text → Option Entities) (prolog : Content) (root : Tag)
    (kids epilog : Content) : Prop where
  before : prolog.elements = []
  after : epilog.elements = []
  epilog : ∀ d ∈ epilog.topData, d.Misc
  body : ∃ entities, (Prolog doctypes prolog.topData entities ∨
      ∃ raw rest, prolog.topData = .decl raw :: rest ∧ XmlDeclaration raw ∧ Prolog doctypes rest entities) ∧
    (Content.element root kids .nil).WellFormed entities

/-- A document without declarations. -/
theorem wellFormedDocument_plain (doctypes : Text → Option Entities) {prolog : Content} {root : Tag}
    {kids epilog : Content} (before : prolog.elements = []) (first : ∀ d ∈ prolog.topData, d.Misc)
    (after : epilog.elements = []) (last : ∀ d ∈ epilog.topData, d.Misc)
    (content : (Content.element root kids .nil).WellFormed Entities.none) :
    WellFormedDocument doctypes prolog root kids epilog :=
  ⟨before, after, last, _, .inl (.misc first), content⟩

/-- The text of an event by the grammar: a document type declaration has any white space before
what the reader reports of it. -/
def RawEvent.Spells (piece : Text) : RawEvent → Prop
  | .data (.docType raw) =>
    ∃ space, space ≠ [] ∧ Blank space ∧ piece = "<!DOCTYPE".toList ++ (space ++ (raw ++ ['>']))
  | event => piece = event.source

/-- A text by the grammar: the pieces of its events one after the other, behind a byte order mark
or not. -/
def Spelled (s : Text) (c : Content) : Prop :=
  ∃ events pieces, Denotes events c ∧ List.Forall₂ RawEvent.Spells pieces events ∧
    (s = pieces.flatten ∨ s = byteOrderMark :: pieces.flatten)

/-- The plain written form is spelled by the grammar. -/
theorem spelled_written {c : Content}
    (tags : c.AllTags fun tag => tag.Lexical ∧ tag.QuoteFree ∧ tag.Unique)
    (data : c.AllData Data.Clean) : Spelled c.write c := by
  refine ⟨c.pieces, c.pieces.map RawEvent.source, denotes_pieces tags data, ?_, .inl ?_⟩
  · apply List.forall₂_map_left_iff.mpr
    apply List.forall₂_same.mpr
    intro event _
    unfold RawEvent.Spells
    split
    · exact ⟨[' '], by simp, by simp [Blank, isWhitespace], rfl⟩
    · rfl
  · rw [← c.pieces_source, List.flatMap]

/-! What the results about documents use of this. -/

theorem isNameChar_of_digitValue {c : Char} (digit : digitValue c < 16) : isNameChar c = true := by
  unfold digitValue at digit
  split at digit
  case isTrue decimal => simp [isNameChar, decimal]
  case isFalse =>
    split at digit
    case isTrue range => simp [isNameChar, isNameStart, startRanges]; omega
    case isFalse =>
      split at digit
      case isTrue range => simp [isNameChar, isNameStart, startRanges]; omega
      case isFalse => omega

theorem isNameChar_of_numeralFrom {base acc : Nat} {s : Text} {n : Nat} (small : base ≤ 16)
    (number : numeralFrom base acc s = some n) {c : Char} (member : c ∈ s) :
    isNameChar c = true := by
  induction s generalizing acc with
  | nil => cases member
  | cons d s ih =>
    rw [numeralFrom] at number
    split at number
    case isTrue digit =>
      rcases List.mem_cons.mp member with rfl | member
      · exact isNameChar_of_digitValue (by omega)
      · exact ih number member
    case isFalse => cases number

theorem isNameChar_of_numeral {base : Nat} {s : Text} {n : Nat} (small : base ≤ 16)
    (number : numeral base s = some n) {c : Char} (member : c ∈ s) : isNameChar c = true := by
  unfold numeral at number
  split at number
  case isTrue => cases number
  case isFalse => exact isNameChar_of_numeralFrom small number member

/-- A reference is made of characters of names, the number sign aside. -/
theorem IsReference.chars {known : Text → Prop} {s : Text} (reference : IsReference known s) :
    s ≠ [] ∧ ∀ c ∈ s, c = '#' ∨ isNameChar c = true := by
  unfold IsReference at reference
  split at reference
  next digits =>
    obtain ⟨n, number, _⟩ := reference
    refine ⟨by simp, fun c member => ?_⟩
    rcases List.mem_cons.mp member with rfl | member
    · exact .inl rfl
    rcases List.mem_cons.mp member with rfl | member
    · exact .inr (by decide)
    · exact .inr (isNameChar_of_numeral (by decide) number member)
  next digits _ =>
    obtain ⟨n, number, _⟩ := reference
    refine ⟨by simp, fun c member => ?_⟩
    rcases List.mem_cons.mp member with rfl | member
    · exact .inl rfl
    · exact .inr (isNameChar_of_numeral (by decide) number member)
  next name _ _ => exact ⟨reference.1.isName.1,
    fun c member => .inr (reference.1.isNameChar member)⟩

theorem IsReference.isName {known : Text → Prop} {s : Text} (reference : IsReference known s) :
    IsName s := by
  refine ⟨reference.chars.1, fun c member => ?_⟩
  by_contra delimits
  rcases reference.chars.2 c member with rfl | nameChar
  · exact delimits (by decide)
  · rw [isNameChar_of_isDelimiter (by simpa using delimits)] at nameChar
    cases nameChar

theorem IsReference.lexical {known : Text → Prop} {s : Text} (reference : IsReference known s) :
    (Data.generalRef s).Lexical := by
  have not_mem {d : Char} (mark : d ≠ '#' ∧ isNameChar d = false) : d ∉ s := by
    intro member
    rcases reference.chars.2 d member with same | nameChar
    · exact mark.1 same
    · rw [mark.2] at nameChar
      cases nameChar
  intro c member
  refine ⟨?_, ?_, ?_⟩
  all_goals
    rintro rfl
    exact not_mem (by decide) member

theorem ValueWellFormed.no_markup {known : Text → Prop} {s : Text}
    (wellFormed : ValueWellFormed known s) :
    '<' ∉ s := by
  induction s with
  | nil => simp
  | cons c s ih =>
    intro member
    rcases List.mem_cons.mp member with same | member
    · exact wellFormed.2.1 same.symm
    · exact ih wellFormed.2.2.2 member

theorem ValueWellFormed.referencesClosed {known : Text → Prop} {s : Text}
    (wellFormed : ValueWellFormed known s) :
    ReferencesClosed s := by
  induction s with
  | nil => trivial
  | cons c s ih =>
    refine ⟨fun ampersand => ?_, ih wellFormed.2.2.2⟩
    obtain ⟨⟨name, rest⟩, split, reference⟩ := wellFormed.2.2.1 ampersand
    exact ⟨name, rest, (splitOnce_eq_some split).1, reference.isName⟩

theorem Data.WellFormed.clean {known : Text → Prop} {d : Data} (wellFormed : d.WellFormed known) :
    d.Clean := by
  cases d with
  | text raw => exact fun c member => (wellFormed.1 c member).2
  | generalRef name => exact IsReference.lexical wellFormed
  | _ => trivial

theorem Data.Misc.clean {d : Data} (misc : d.Misc) : d.Clean := by
  cases d with
  | text raw =>
    intro c member
    have white := misc c member
    constructor <;> rintro rfl <;> cases white
  | generalRef name => exact misc.elim
  | _ => trivial

theorem Tag.NamespaceWellFormed.lexical {known : Text → Prop} {scope : Scope} {tag : Tag}
    (wellFormed : tag.NamespaceWellFormed scope) (values : tag.ValuesWellFormed known) :
    tag.Lexical :=
  ⟨wellFormed.name.isName, fun a member => ⟨(wellFormed.keys a member).isName, (values a member).no_markup⟩⟩

namespace Content

theorem allData_of_prependText {P : Data → Prop} (empty : P (.text []))
    (left : ∀ s t, P (.text (s ++ t)) → P (.text s) ∧ P (.text t)) {s : Text} {c : Content}
    (all : (prependText s c).AllData P) : P (.text s) ∧ c.AllData P := by
  unfold prependText at all
  split at all
  · exact ⟨(left _ _ all.1).1, (left _ _ all.1).2, all.2⟩
  · split at all
    · next nothing => exact ⟨nothing ▸ empty, all⟩
    · exact ⟨all.1, all.2⟩

/-- What holds of a run of character data, and of each of its parts, holds before runs are joined. -/
theorem allData_of_coalesce {P : Data → Prop} (empty : P (.text []))
    (left : ∀ s t, P (.text (s ++ t)) → P (.text s) ∧ P (.text t)) {c : Content}
    (all : c.coalesce.AllData P) :
    c.AllData P := by
  induction c with
  | nil => trivial
  | data d rest ih =>
    cases d with
    | text s =>
      obtain ⟨first, later⟩ := allData_of_prependText empty left all
      exact ⟨first, ih later⟩
    | _ => exact ⟨all.1, ih all.2⟩
  | empty tag rest ih => exact ih all
  | element tag kids rest kidsIH restIH => exact ⟨kidsIH all.1, restIH all.2⟩

theorem clean_of_coalesce {c : Content} (clean : c.coalesce.AllData Data.Clean) :
    c.AllData Data.Clean := by
  refine allData_of_coalesce (fun c member => by cases member) (fun s t joined => ?_) clean
  exact ⟨fun c member => joined c (List.mem_append_left _ member),
    fun c member => joined c (List.mem_append_right _ member)⟩

theorem NamespaceWellFormed.lexical {known : Text → Prop} {scope : Scope} {c : Content}
    (wellFormed : c.NamespaceWellFormed scope) (values : c.AllTags (Tag.ValuesWellFormed known)) :
    c.AllTags Tag.Lexical := by
  induction c generalizing scope with
  | nil => trivial
  | data d rest ih => exact ih wellFormed values
  | empty tag rest ih => exact ⟨wellFormed.1.lexical values.1, ih wellFormed.2 values.2⟩
  | element tag kids rest kidsIH restIH =>
    exact ⟨wellFormed.1.lexical values.1, kidsIH wellFormed.2.1 values.2.1,
      restIH wellFormed.2.2 values.2.2⟩

/-- Without elements there are tags to look at neither there nor before what follows. -/
theorem allTags_of_bare {P : Tag → Prop} {c : Content} (bare : c.elements = []) : c.AllTags P := by
  induction c with
  | nil => trivial
  | data d rest ih => exact ih bare
  | empty tag rest => cases bare
  | element tag kids rest => cases bare

theorem allData_of_bare {P : Data → Prop} {c : Content} (bare : c.elements = []) :
    c.AllData P ↔ ∀ d ∈ c.topData, P d := by
  induction c with
  | nil => simp [AllData, topData]
  | data d rest ih => simp [AllData, topData, ih bare]
  | empty tag rest => cases bare
  | element tag kids rest => cases bare

theorem namespaceWellFormed_append {scope : Scope} {a b : Content} :
    (a.append b).NamespaceWellFormed scope ↔ a.NamespaceWellFormed scope ∧ b.NamespaceWellFormed scope := by
  induction a with
  | nil => simp [append, Content.NamespaceWellFormed]
  | data d rest ih => exact ih
  | empty tag rest ih => simp [append, Content.NamespaceWellFormed, ih, and_assoc]
  | element tag kids rest _ ih => simp [append, Content.NamespaceWellFormed, ih, and_assoc]

theorem namespaceWellFormed_of_bare {scope : Scope} {c : Content} (bare : c.elements = []) :
    c.NamespaceWellFormed scope := by
  induction c with
  | nil => trivial
  | data d rest ih => exact ih bare
  | empty tag rest => cases bare
  | element tag kids rest => cases bare

/-- What the results about a document use of its being well-formed. -/
structure Sound (c : Content) : Prop where
  lexical : c.AllTags Tag.Lexical
  data : c.AllData Data.Clean
  namespaces : c.NamespaceWellFormed Scope.initial

instance (c : Content) : Decidable c.Sound :=
  decidable_of_iff (c.AllTags Tag.Lexical ∧ c.AllData Data.Clean ∧ c.NamespaceWellFormed Scope.initial)
    ⟨fun h => ⟨h.1, h.2.1, h.2.2⟩, fun h => ⟨h.lexical, h.data, h.namespaces⟩⟩

theorem WellFormed.sound {entities : Entities} {c : Content} (wellFormed : c.WellFormed entities) :
    c.Sound where
  lexical := wellFormed.namespaces.lexical wellFormed.values
  data := clean_of_coalesce (wellFormed.data.mono fun _ held => held.clean)
  namespaces := wellFormed.namespaces

end Content

theorem Prolog.clean {doctypes : Text → Option Entities} {items : List Data} {entities : Entities}
    (prolog : Prolog doctypes items entities) : ∀ d ∈ items, d.Clean := by
  cases prolog with
  | misc all => exact fun d member => (all d member).clean
  | docType first _ last =>
    intro d member
    rcases List.mem_append.mp member with member | member
    · exact (first d member).clean
    · rcases List.mem_cons.mp member with rfl | member
      · trivial
      · exact (last d member).clean

namespace WellFormedDocument

variable {doctypes : Text → Option Entities} {prolog kids epilog : Content} {root : Tag}

theorem prologClean (document : WellFormedDocument doctypes prolog root kids epilog) :
    ∀ d ∈ prolog.topData, d.Clean := by
  obtain ⟨entities, first | ⟨raw, rest, same, _, more⟩, _⟩ := document.body
  · exact first.clean
  · rw [same]
    intro d member
    rcases List.mem_cons.mp member with rfl | member
    · trivial
    · exact more.clean d member

theorem sound (document : WellFormedDocument doctypes prolog root kids epilog) :
    (prolog.append (.element root kids epilog)).Sound := by
  obtain ⟨entities, _, content⟩ := document.body
  obtain ⟨⟨rootLexical, kidsLexical, _⟩, ⟨kidsClean, _⟩, rootNames, kidsNames, _⟩ := content.sound
  constructor
  · apply Content.allTags_append.mpr
    exact ⟨Content.allTags_of_bare document.before, rootLexical, kidsLexical,
      Content.allTags_of_bare document.after⟩
  · apply Content.allData_append.mpr
    refine ⟨(Content.allData_of_bare document.before).mpr document.prologClean, kidsClean, ?_⟩
    exact (Content.allData_of_bare document.after).mpr fun d member =>
      (document.epilog d member).clean
  · apply Content.namespaceWellFormed_append.mpr
    exact ⟨Content.namespaceWellFormed_of_bare document.before, rootNames, kidsNames,
      Content.namespaceWellFormed_of_bare document.after⟩

/-- In a value every ampersand begins a reference. -/
theorem referencesClosed (document : WellFormedDocument doctypes prolog root kids epilog) :
    (prolog.append (.element root kids epilog)).AllTags Tag.ReferencesClosed := by
  obtain ⟨entities, _, content⟩ := document.body
  have closed (tag : Tag) (values : tag.ValuesWellFormed entities.inValue) : tag.ReferencesClosed :=
    fun a member => (values a member).referencesClosed
  apply Content.allTags_append.mpr
  exact ⟨Content.allTags_of_bare document.before, closed _ content.values.1,
    content.values.2.1.mono closed, Content.allTags_of_bare document.after⟩

end WellFormedDocument

end Markup
