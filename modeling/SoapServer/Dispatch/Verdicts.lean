import SoapServer.Dispatch.Validation

/-! What the check of a request decides: whether the names that a content model requires are
among those of the root's children. Nothing else of the body counts.
-/

set_option autoImplicit false

namespace SoapServer.Dispatch

open Markup
open Xsd

/-! The children of a body. -/

/-- The local names of the elements below an element. -/
def childNames (root : Element) : List Text :=
  match root.kids with
  | some kids => kids.elements.map fun el => localName el.tag.name
  | none => []

/-- Below the children nothing counts. -/
theorem childElementNames_deep (f : Content) {depth : Nat} (deep : 1 < depth) (names : List Text)
    (rest : List (Except Text Event)) :
    childElementNames depth names (stream f.trim.events ++ rest) = childElementNames depth names rest := by
  induction f generalizing depth rest with
  | nil => rfl
  | data d after ih =>
    have skipped (d : Data) : childElementNames depth names (stream (Content.data d after.trim).events ++ rest) =
        childElementNames depth names rest := ih deep rest
    cases d with
    | text s =>
      rw [Content.trim]
      split
      · exact ih deep rest
      · exact skipped _
    | cdata | generalRef | comment | pi | decl | docType => exact skipped _
  | empty tag after ih =>
    simp only [Content.trim, Content.events, stream_cons, List.cons_append, childElementNames]
    rw [if_neg (by omega), ih deep]
  | element tag kids after kidsIH restIH =>
    simp only [Content.trim, Content.events, stream_cons, stream_append, List.cons_append,
      List.append_assoc, childElementNames]
    rw [if_neg (by omega), kidsIH (by omega), childElementNames, if_neg (by omega),
      Nat.add_sub_cancel, restIH deep]

theorem childElementNames_children (f : Content) (names : List Text)
    (rest : List (Except Text Event)) :
    childElementNames 1 names (stream f.trim.events ++ rest) =
      childElementNames 1 ((f.elements.map fun el => localName el.tag.name).reverse ++ names) rest := by
  induction f generalizing names rest with
  | nil => rfl
  | data d after ih =>
    -- character data is skipped, also where trimming leaves some
    have skipped (d : Data) : childElementNames 1 names (stream (Content.data d after.trim).events ++ rest) =
        childElementNames 1 ((after.elements.map fun el => localName el.tag.name).reverse ++ names) rest :=
      ih names rest
    cases d with
    | text s =>
      rw [Content.trim]
      split
      · exact ih names rest
      · exact skipped _
    | cdata | generalRef | comment | pi | decl | docType => exact skipped _
  | empty tag after ih =>
    simp only [Content.trim, Content.events, stream_cons, List.cons_append, childElementNames,
      if_true]
    rw [ih]
    simp [Content.elements, Tag.read]
  | element tag kids after _ restIH =>
    simp only [Content.trim, Content.events, stream_cons, stream_append, List.cons_append,
      List.append_assoc, childElementNames]
    rw [if_pos trivial, childElementNames_deep kids (by omega), childElementNames,
      if_neg (by omega), restIH]
    simp [Content.elements, Tag.read]

theorem childElementNames_document (c : Content) (names : List Text) :
    childElementNames 0 names (stream c.trim.events) =
      .ok ((c.elements.flatMap childNames).reverse ++ names) := by
  induction c generalizing names with
  | nil => rfl
  | data d after ih =>
    have skipped (d : Data) : childElementNames 0 names (stream (Content.data d after.trim).events) =
        .ok ((after.elements.flatMap childNames).reverse ++ names) := ih names
    cases d with
    | text s =>
      rw [Content.trim]
      split
      · exact ih names
      · exact skipped _
    | cdata | generalRef | comment | pi | decl | docType => exact skipped _
  | empty tag after ih =>
    simp only [Content.trim, Content.events, stream_cons, childElementNames]
    rw [if_neg (by omega), ih]
    simp [Content.elements, childNames]
  | element tag kids after _ restIH =>
    simp only [Content.trim, Content.events, stream_cons, stream_append, childElementNames]
    rw [if_neg (by omega), childElementNames_children kids, childElementNames, if_neg (by omega),
      restIH]
    simp [Content.elements, childNames]

/-- A body of one element: every well-formed one, and whatever else the reader reports like it. -/
def OneRoot (reader : Reader) (body : Text) (root : Element) : Prop :=
  ∃ c, reader.Reads body c ∧ c.elements = [root]

theorem parseChildElementNames_document {ext : Externals} (lawful : ext.xml.Lawful) {body : Text}
    {root : Element} (document : OneRoot ext.xml body root) :
    parseChildElementNames ext body = .ok (childNames root).reverse := by
  obtain ⟨c, reads, single⟩ := document
  rw [parseChildElementNames, lawful.trims body c reads, childElementNames_document, single]
  simp

/-! The names that a content model requires. -/

/-- A name of an element that a sequence or an all group demands, behind any extensions and
restrictions. A choice demands none of its elements. -/
inductive Requires : ComplexContent → Text → Prop
  | sequence {els : List XsdElement} {el : XsdElement} {n : Text} (member : el ∈ els) (demanded : 0 < el.minOccurs)
      (named : el.name = some n) : Requires (.sequence els) n
  | all {els : List XsdElement} {el : XsdElement} {n : Text} (member : el ∈ els) (demanded : 0 < el.minOccurs)
      (named : el.name = some n) : Requires (.all els) n
  | extension {base : QName} {content : ComplexContent} {n : Text} (inner : Requires content n) :
      Requires (.complexExtension base content) n
  | restriction {base : QName} {content : ComplexContent} {n : Text} (inner : Requires content n) :
      Requires (.complexRestriction base content) n

theorem mem_demanded_iff {els : List XsdElement} {n : Text} :
    (n ∈ els.filterMap fun el => if el.minOccurs > 0 then el.name else none) ↔
      ∃ el ∈ els, 0 < el.minOccurs ∧ el.name = some n := by simp

theorem requires_iff {content : ComplexContent} {n : Text} :
    Requires content n ↔ n ∈ collectRequiredFromContent content := by
  constructor
  · intro requires
    induction requires with
    | sequence member demanded named | all member demanded named => exact mem_demanded_iff.mpr ⟨_, member, demanded, named⟩
    | extension _ ih | restriction _ ih => exact ih
  · intro collected
    induction content using collectRequiredFromContent.induct with
    | case1 els =>
      obtain ⟨el, member, demanded, named⟩ := mem_demanded_iff.mp collected
      exact .sequence member demanded named
    | case2 els =>
      obtain ⟨el, member, demanded, named⟩ := mem_demanded_iff.mp collected
      exact .all member demanded named
    | case3 | case4 | case5 => cases collected
    | case6 base content ih => exact .extension (ih collected)
    | case7 base content ih => exact .restriction (ih collected)

/-! The check. -/

/-- The outcome of the check, from the names of the children alone: the first required name
that is not among them is reported. -/
def verdict (required present : List Text) : Outcome Unit :=
  match required.find? fun n => n ∉ present with
  | some n => senderFault ("Schema validation failed: required element '".toList ++ n ++ "' is missing".toList)
  | none => .ok ()

theorem verdict_eq_ok {required present : List Text} :
    verdict required present = .ok () ↔ required ⊆ present := by
  unfold verdict
  split
  next n missing =>
    refine iff_of_false (by simp [senderFault]) fun all => ?_
    have absent := List.find?_some missing
    exact of_decide_eq_true absent (all (List.mem_of_find?_eq_some missing))
  next found =>
    refine iff_of_true rfl fun n member => ?_
    simpa using List.find?_eq_none.mp found n member

theorem verdict_congr {required present present' : List Text}
    (same : ∀ n, n ∈ present ↔ n ∈ present') :
    verdict required present = verdict required present' := by
  simp only [verdict, same]

variable {ext : Externals} {body : Text} {root : Element} {registry : TypeRegistry} {q : QName}
    {ct : ComplexType}

/-- What the check of a well-formed body comes to. -/
theorem validateRequest_document (lawful : ext.xml.Lawful) (document : OneRoot ext.xml body root)
    {t : XsdType} (found : registry.lookup q = some t) :
    validateRequest ext body registry (some q) = verdict (collectRequiredElementNames t) (childNames root) := by
  simp only [validateRequest, Option.bind_some, found]
  by_cases nothing : collectRequiredElementNames t = []
  · rw [if_pos nothing, nothing]
    rfl
  · rw [if_neg nothing, parseChildElementNames_document lawful document]
    exact verdict_congr fun n => List.mem_reverse

/-- A body is accepted exactly if every required name is the local name of a child of the
root; only the set of these names counts, and more of them never do harm. -/
theorem validate_request_exact (lawful : ext.xml.Lawful)
    (found : registry.lookup q = some (.complex ct)) (document : OneRoot ext.xml body root) :
    (validateRequest ext body registry (some q) = .ok () ↔ ∀ n, Requires ct.content n → n ∈ childNames root) ∧
      (∀ body' root', OneRoot ext.xml body' root' → (∀ n, n ∈ childNames root' ↔ n ∈ childNames root) →
        validateRequest ext body' registry (some q) = validateRequest ext body registry (some q)) ∧
      ∀ body' root', OneRoot ext.xml body' root' → childNames root ⊆ childNames root' →
        validateRequest ext body registry (some q) = .ok () → validateRequest ext body' registry (some q) = .ok () := by
  have here := validateRequest_document lawful document found
  refine ⟨?_, fun body' root' document' same => ?_, fun body' root' document' more accepted => ?_⟩
  · rw [here, verdict_eq_ok]
    exact forall_congr' fun n => imp_congr_left requires_iff.symm
  · rw [here, validateRequest_document lawful document' found]
    exact verdict_congr same
  · rw [here, verdict_eq_ok] at accepted
    rw [validateRequest_document lawful document' found, verdict_eq_ok]
    exact fun n required => more (accepted required)

/-! A required name below the children, and beside them under a prefix. -/

def labelContent : ComplexContent :=
  .complexExtension (.local []) (.sequence [⟨some "label".toList, none, none, 1, .bounded 1, false, none, none, none⟩])

def labelType : ComplexType := ⟨none, labelContent, []⟩

def labelRegistry : TypeRegistry := (∅ : TypeRegistry).insert (.local "Label".toList) (.complex labelType)

theorem labelRegistry_lookup :
    labelRegistry.lookup (.local "Label".toList) = some (.complex labelType) := rfl

def labelBody : Text := "<r><x>some <label>text</label></x><n:label xmlns:n='urn:n'/></r>".toList

def labelRoot : Element :=
  ⟨⟨"r".toList, []⟩, some
    (.element ⟨"x".toList, []⟩
      (.data (.text "some ".toList) (.element ⟨"label".toList, []⟩ (.data (.text "text".toList) .nil) .nil))
      (.empty ⟨"n:label".toList, [⟨"xmlns:n".toList, "urn:n".toList⟩]⟩ .nil))⟩

theorem labelBody_oneRoot : OneRoot scanner labelBody labelRoot :=
  ⟨labelRoot.alone, by unfold Reader.Reads; decide +kernel, rfl⟩

theorem labelBody_exact :
    (validateRequest .scanning labelBody labelRegistry (some (.local "Label".toList)) = .ok () ↔
        ∀ n, Requires labelType.content n → n ∈ childNames labelRoot) ∧
      (∀ body' root', OneRoot scanner body' root' → (∀ n, n ∈ childNames root' ↔ n ∈ childNames labelRoot) →
        validateRequest .scanning body' labelRegistry (some (.local "Label".toList)) =
          validateRequest .scanning labelBody labelRegistry (some (.local "Label".toList))) ∧
      ∀ body' root', OneRoot scanner body' root' → childNames labelRoot ⊆ childNames root' →
        validateRequest .scanning labelBody labelRegistry (some (.local "Label".toList)) = .ok () →
        validateRequest .scanning body' labelRegistry (some (.local "Label".toList)) = .ok () :=
  validate_request_exact Externals.scanning_lawful labelRegistry_lookup labelBody_oneRoot

end SoapServer.Dispatch
