import SoapServer.Escaping
import SoapServer.TreeScanner

/-! The values of a tag's attributes as a parser gives them, where one of them is replaced. -/

set_option autoImplicit false

namespace SoapServer

open Markup

/-- The attribute with a new value, if it has the key. -/
def setValue (key raw : Text) (a : Attribute) : Attribute := if a.key = key then ⟨key, raw⟩ else a

end SoapServer

namespace Markup

def Tag.setValue (key raw : Text)
    (tag : Tag) : Tag := ⟨tag.name, tag.attributes.map (SoapServer.setValue key raw)⟩

end Markup

namespace SoapServer

open Markup

/-- The same for an element: an attribute of that name without a namespace. -/
def DomAttribute.setValue (name value : Text) (a : DomAttribute) : DomAttribute :=
  if a.ns = none ∧ a.name = name then { a with value } else a

def DomElement.setValue (name value : Text) (e : DomElement) : DomElement :=
  { e with attributes := e.attributes.map (·.setValue name value) }

namespace Tree

variable {deref : Text → Option Text} {inherited : Namespaces}

/-! Values cut at a quote. -/

/-- Every ampersand is followed by a semicolon. -/
def Closed : Text → Prop
  | [] => True
  | c :: s => (c = '&' → ';' ∈ s) ∧ Closed s

theorem closed_of_known {s : Text} (known : referencesKnown deref s = true) : Closed s := by
  induction s with
  | nil => trivial
  | cons c s ih =>
    rw [referencesKnown, Bool.and_eq_true] at known
    refine ⟨fun opens => ?_, ih known.2⟩
    rw [if_pos opens] at known
    by_contra absent
    rw [splitOnce_none ';' s absent] at known
    cases known.1

theorem mem_normalizeLines_iff {s : Text} {c : Char} (solid : c ≠ '\r' ∧ c ≠ '\n') :
    c ∈ normalizeLines s ↔ c ∈ s := by
  induction s using normalizeLines.induct with
  | case1 s ih => simp [normalizeLines, ih, solid]
  | case2 s _ ih => simp [normalizeLines, ih, solid]
  | case3 c s _ _ ih => simp [normalizeLines, ih]
  | case4 => rfl

theorem Closed.normalizeLines {s : Text} (closed : Closed s) : Closed (normalizeLines s) := by
  induction s using Tree.normalizeLines.induct with
  | case1 s ih => exact ⟨(fun opens => by cases opens), ih closed.2.2⟩
  | case2 s other ih =>
    rw [Tree.normalizeLines.eq_2 s other]
    exact ⟨(fun opens => by cases opens), ih closed.2⟩
  | case3 c s first second ih =>
    rw [Tree.normalizeLines.eq_3 c s first second]
    exact ⟨fun opens => (mem_normalizeLines_iff (by decide)).mpr (closed.1 opens), ih closed.2⟩
  | case4 => trivial

theorem Closed.map {s : Text} {f : Char → Char} (closed : Closed s)
    (opens : ∀ c, f c = '&' → c = '&') (closes : f ';' = ';') : Closed (s.map f) := by
  induction s with
  | nil => trivial
  | cons c s ih =>
    refine ⟨fun same => ?_, ih closed.2⟩
    rw [← closes]
    exact List.mem_map_of_mem (closed.1 (opens c same))

/-- Decoding goes on anew behind a text that closes its references. -/
theorem decodeFrom_append (deref : Text → Text) {s : Text} (closed : Closed s) (rest : Text)
    (pending : Option Text) (ends : pending ≠ none → ';' ∈ s) :
    decodeFrom deref pending (s ++ rest) = decodeFrom deref pending s ++ decodeFrom deref none rest := by
  induction s generalizing pending with
  | nil =>
    cases pending with
    | none => rfl
    | some name => cases ends (by simp)
  | cons c s ih =>
    cases pending with
    | none =>
      by_cases opens : c = '&'
      · simp only [List.cons_append, decodeFrom, if_pos opens]
        exact ih closed.2 _ fun _ => closed.1 opens
      · simp only [List.cons_append, decodeFrom, if_neg opens]
        rw [ih closed.2 none (by simp)]
    | some name =>
      by_cases last : c = ';'
      · simp only [List.cons_append, decodeFrom, if_pos last]
        rw [ih closed.2 none (by simp), List.append_assoc]
      · simp only [List.cons_append, decodeFrom, if_neg last]
        refine ih closed.2 _ fun _ => ?_
        exact (List.mem_cons.mp (ends (by simp))).resolve_left (Ne.symm last)

theorem normalizeLines_append_quote (s more : Text) :
    normalizeLines (s ++ '"' :: more) = normalizeLines s ++ '"' :: normalizeLines more := by
  induction s using normalizeLines.induct with
  | case1 s ih => simp [normalizeLines, ih]
  | case2 s other ih =>
    rw [normalizeLines.eq_2 s other, List.cons_append, List.cons_append, ← ih]
    refine normalizeLines.eq_2 _ fun t same => ?_
    cases s with
    | nil => cases same
    | cons d s =>
      obtain ⟨rfl, _⟩ := List.cons.inj same
      exact other s rfl
  | case3 c s first second ih =>
    rw [normalizeLines.eq_3 c s first second, List.cons_append, List.cons_append, ← ih]
    refine normalizeLines.eq_3 _ _ (fun t same rest => ?_) fun same => second same
    cases s with
    | nil => cases rest
    | cons d s => exact second same
  | case4 => simp [normalizeLines]

/-- The value before a quote is read as part of the whole value. -/
theorem attributeValue_cut {s : Text} (known : referencesKnown deref s = true) (more : Text) :
    attributeValue deref (s ++ '"' :: more) = attributeValue deref s ++ '"' :: attributeValue deref more := by
  have closed := ((closed_of_known known).normalizeLines).map (f := fun c => if c = '\t' ∨ c = '\n' then ' ' else c)
    (fun c same => by
      by_contra other
      split at same
      · cases same
      · exact other same) rfl
  rw [attributeValue, normalizeLines_append_quote, List.map_append, decodeValue,
    decodeFrom_append _ closed _ none (by simp)]
  rfl

theorem attributeValue_ne_cut {a b : Attribute} {more : Text}
    (known : referencesKnown deref b.value = true) (cut : a.value = b.value ++ '"' :: more) :
    attributeValue deref a.value ≠ attributeValue deref b.value := by
  rw [cut, attributeValue_cut known]
  intro same
  have := congrArg List.length same
  simp at this

/-! Escaped values. -/

/-- The predefined entities stand for their characters. -/
def Predefined (deref : Text → Option Text) : Prop := ∀ c name, referenceName c = some name → deref name = some [c]

theorem predefinedEntity_predefined : Predefined predefinedEntity := by
  intro c name given
  unfold referenceName at given
  split at given
  all_goals first | (cases given; done) | (obtain rfl := Option.some.inj given; decide)

theorem referenceName_plain (c : Char) (name : Text) (given : referenceName c = some name) :
    name ∈ ["lt".toList, "gt".toList, "amp".toList, "apos".toList, "quot".toList] ∧ '&' ∉ name ∧ ';' ∉ name := by
  unfold referenceName at given
  split at given
  all_goals first | (cases given; done) | (obtain rfl := Option.some.inj given; decide)

theorem decodeFrom_name (deref : Text → Text) {name : Text} (open_ : ';' ∉ name)
    (begun rest : Text) :
    decodeFrom deref (some begun) (name ++ ';' :: rest) = deref (begun ++ name) ++ decodeFrom deref none rest := by
  induction name generalizing begun with
  | nil => simp [decodeFrom]
  | cons c name ih =>
    have different : c ≠ ';' := fun same => open_ (same ▸ .head _)
    rw [List.cons_append, decodeFrom, if_neg different, ih fun member => open_ (.tail _ member)]
    simp

/-- An escaped text is decoded to itself. -/
theorem decodeFrom_escaped (predefined : Predefined deref) (s : Text) :
    decodeFrom (fun name => (deref name).getD []) none (s.flatMap escapeChar) = s := by
  induction s with
  | nil => rfl
  | cons c s ih =>
    rw [List.flatMap_cons, escapeChar_eq]
    cases given : referenceName c with
    | some name =>
      have plain := (referenceName_plain c name given).2.2
      simp only [List.cons_append, List.append_assoc, decodeFrom, if_true]
      rw [List.nil_append, decodeFrom_name _ plain, ih, List.nil_append, predefined c name given]
      rfl
    | none =>
      have different := (unreferenced_clean given).2
      simp only [List.singleton_append, decodeFrom, if_neg different, ih]

theorem referencesKnown_append {p : Text} (plain : '&' ∉ p) (s : Text) :
    referencesKnown deref (p ++ s) = referencesKnown deref s := by
  induction p with
  | nil => rfl
  | cons c p ih =>
    have different : c ≠ '&' := fun same => plain (same ▸ .head _)
    rw [List.cons_append, referencesKnown, if_neg different, Bool.true_and,
      ih fun member => plain (.tail _ member)]

theorem referencesKnown_escaped (predefined : Predefined deref) (s : Text) :
    referencesKnown deref (s.flatMap escapeChar) = true := by
  induction s with
  | nil => rfl
  | cons c s ih =>
    rw [List.flatMap_cons, escapeChar_eq]
    cases given : referenceName c with
    | some name =>
      obtain ⟨_, noReference, plain⟩ := referenceName_plain c name given
      have rest : referencesKnown deref (name ++ ';' :: s.flatMap escapeChar) = true := by
        rw [referencesKnown_append noReference]
        exact ih
      simp [referencesKnown, splitOnce_append ';' name _ plain, predefined c name given, rest]
    | none =>
      have different := (unreferenced_clean given).2
      rw [List.singleton_append, referencesKnown, if_neg different, Bool.true_and, ih]

/-- A raw value that a parser reads as the given one, and that can stand between double quotes. -/
structure ReadsAs (deref : Text → Option Text) (raw value : Text) : Prop where
  noTag : '<' ∉ raw
  noQuote : '"' ∉ raw
  references : referencesKnown deref raw = true
  reads : attributeValue deref raw = value
  chars : ∀ c ∈ value, isXmlChar c = true

/-- Characters of an attribute value that a parser leaves as they are. -/
def isValueChar (c : Char) : Bool := isXmlChar c && c != '\t' && c != '\n' && c != '\r'

theorem mem_escaped {s : Text} {c : Char} (member : c ∈ s.flatMap escapeChar) :
    c ∈ s ∧ referenceName c = none ∨ c ∈ "<>&'\"".toList.flatMap escapeChar := by
  obtain ⟨d, among, inside⟩ := List.mem_flatMap.mp member
  rw [escapeChar_eq] at inside
  cases given : referenceName d with
  | none =>
    rw [given] at inside
    obtain rfl := List.mem_singleton.mp inside
    exact .inl ⟨among, given⟩
  | some name =>
    refine .inr (List.mem_flatMap.mpr ⟨d, ?_, by rwa [escapeChar_eq]⟩)
    unfold referenceName at given
    split at given
    all_goals first | (cases given; done) | decide

theorem readsAs_escaped (predefined : Predefined deref) {s : Text}
    (chars : ∀ c ∈ s, isValueChar c = true) :
    ReadsAs deref (s.flatMap escapeChar) s := by
  have absent {c : Char} (escapes : (referenceName c).isSome ∨ isValueChar c = false)
      (other : c ∉ "<>&'\"".toList.flatMap escapeChar) : c ∉ s.flatMap escapeChar := by
    intro member
    rcases mem_escaped member with ⟨among, plain⟩ | reference
    · rcases escapes with escapes | blank
      · rw [plain] at escapes
        cases escapes
      · rw [chars c among] at blank
        cases blank
    · exact other reference
  -- no blank but the space is in an escaped text, so nothing is normalized
  have lines : normalizeLines (s.flatMap escapeChar) = s.flatMap escapeChar :=
    normalizeLines_of_literal (absent (.inr rfl) (by decide))
  have blanks : (s.flatMap escapeChar).map (fun c => if c = '\t' ∨ c = '\n' then ' ' else c) = s.flatMap escapeChar := by
    conv_rhs => rw [← List.map_id (s.flatMap escapeChar)]
    refine List.map_congr_left fun c member => if_neg ?_
    rintro (rfl | rfl)
    · exact absent (.inr rfl) (by decide) member
    · exact absent (.inr rfl) (by decide) member
  refine ⟨absent (.inl rfl) (by decide), absent (.inl rfl) (by decide),
    referencesKnown_escaped predefined s, ?_, ?_⟩
  · rw [attributeValue, lines, blanks, decodeValue, decodeFrom_escaped predefined]
  · intro c member
    have allowed := chars c member
    simp only [isValueChar, Bool.and_eq_true] at allowed
    exact allowed.1.1.1

/-! A tag with a new value. -/

/-- The key of an attribute without a prefix that declares nothing. -/
structure PlainKey (key : Text) : Prop where
  noColon : ':' ∉ key
  notXmlns : key ≠ "xmlns".toList

theorem setValue_key (key raw : Text) (a : Attribute) : (setValue key raw a).key = a.key := by
  unfold setValue
  split
  next same => exact same.symm
  next => rfl

theorem declares_of_key {a b : Attribute} (same : a.key = b.key) : a.declares = b.declares := by
  unfold Attribute.declares
  rw [same]

theorem PlainKey.declares {key : Text} (plain : PlainKey key) {a : Attribute} (same : a.key = key) :
    a.declares = none := by
  unfold Attribute.declares
  rw [same, if_neg plain.notXmlns]
  by_contra some
  obtain ⟨rest, match_⟩ := Option.ne_none_iff_exists'.mp some
  rw [stripPrefix_eq_some] at match_
  exact plain.noColon (match_ ▸ List.mem_append_left _ (by decide))

variable {key raw value : Text}

theorem declaredBy_setValue (plain : PlainKey key) (a : Attribute) :
    declaredBy deref (setValue key raw a) = declaredBy deref a := by
  by_cases same : a.key = key
  · rw [declaredBy, declaredBy, declares_of_key (setValue_key key raw a), plain.declares same]
  · rw [setValue, if_neg same]

theorem ownNamespaces_setValue (plain : PlainKey key) (tag : Tag) :
    ownNamespaces deref (tag.setValue key raw) = ownNamespaces deref tag := by
  rw [ownNamespaces, Tag.setValue, List.filterMap_map, ownNamespaces]
  exact List.filterMap_congr fun a _ => declaredBy_setValue plain a

theorem expandName_eq_plain {namespaces : Namespaces} {name found : Text}
    (run : expandName namespaces none name = some (none, found)) : found = name := by
  unfold expandName at run
  split at run
  · obtain ⟨uri, _, same⟩ := Option.map_eq_some_iff.mp run
    cases same
  · cases run
    rfl

theorem expandName_plain (namespaces : Namespaces) (plain : PlainKey key) :
    expandName namespaces none key = some (none, key) := by
  rw [expandName, splitOnce_none ':' key plain.noColon]

theorem attributeOf_setValue (plain : PlainKey key) (reads : ReadsAs deref raw value)
    (namespaces : Namespaces) (a : Attribute) :
    attributeOf deref namespaces (setValue key raw a) = (attributeOf deref namespaces a).map (·.setValue key value) := by
  by_cases same : a.key = key
  · rw [setValue, if_pos same, attributeOf, attributeOf, same, expandName_plain namespaces plain,
      reads.reads]
    simp [DomAttribute.setValue]
  · rw [setValue, if_neg same]
    cases found : attributeOf deref namespaces a with
    | none => rfl
    | some attr =>
      obtain ⟨⟨ns, name⟩, named, rfl⟩ := Option.map_eq_some_iff.mp found
      have other : ¬ (ns = none ∧ name = key) := by
        rintro ⟨rfl, rfl⟩
        exact same (expandName_eq_plain named).symm
      rw [Option.map_some, DomAttribute.setValue, if_neg other]

theorem mapM_attributeOf_setValue (plain : PlainKey key) (reads : ReadsAs deref raw value)
    {namespaces : Namespaces} {attributes : List Attribute} {found : List DomAttribute}
    (run : attributes.mapM (attributeOf deref namespaces) = some found) :
    (attributes.map (setValue key raw)).mapM (attributeOf deref namespaces) = some (found.map (·.setValue key value)) := by
  induction attributes generalizing found with
  | nil =>
    cases run
    rfl
  | cons a rest ih =>
    simp only [List.mapM_cons, bind, Option.bind_eq_some_iff, pure, Option.some.injEq] at run
    obtain ⟨first, here, others, run, rfl⟩ := run
    rw [List.map_cons, List.mapM_cons, attributeOf_setValue plain reads, here, ih run]
    rfl

theorem properAttribute_setValue (plain : PlainKey key) (reads : ReadsAs deref raw value)
    {a : Attribute} (proper : ProperAttribute deref a) :
    ProperAttribute deref (setValue key raw a) := by
  by_cases same : a.key = key
  · have absent := plain.declares same
    rw [setValue, if_pos same]
    refine ⟨same ▸ proper.key, reads.noTag, reads.references, fun c inside => ?_,
      fun declares => ?_⟩
    · rw [reads.reads] at inside
      exact reads.chars c inside
    · rw [declares_of_key (b := a) same.symm, absent] at declares
      cases declares
  · rw [setValue, if_neg same]
    exact proper

theorem unique_setValue {tag : Tag} (unique : tag.Unique) : (tag.setValue key raw).Unique := by
  have keys : (tag.setValue key raw).attributes.map (·.key) = tag.attributes.map (·.key) := by
    rw [Tag.setValue, List.map_map]
    exact List.map_congr_left fun a _ => setValue_key key raw a
  rw [Tag.Unique, keys]
  exact unique

theorem properTag_setValue (plain : PlainKey key) (reads : ReadsAs deref raw value) {tag : Tag}
    (proper : ProperTag deref tag) : ProperTag deref (tag.setValue key raw) where
  name := proper.name
  unique := unique_setValue proper.unique
  attributes := by
    intro a member
    obtain ⟨b, among, rfl⟩ := List.mem_map.mp member
    exact properAttribute_setValue plain reads (proper.attributes b among)
  own := by
    rw [ownNamespaces_setValue plain]
    exact proper.own
  declarations := by
    rw [ownNamespaces_setValue plain]
    exact proper.declarations

theorem setValue_names (name value : Text) (attributes : List DomAttribute) :
    (attributes.map (·.setValue name value)).map (fun a => (a.ns, a.name)) = attributes.map fun a => (a.ns, a.name) := by
  rw [List.map_map]
  refine List.map_congr_left fun a _ => ?_
  rw [Function.comp_apply, DomAttribute.setValue]
  split <;> rfl

/-- The element of a tag with a new value is the element with the value that is read. -/
theorem elementOf_setValue (plain : PlainKey key) (reads : ReadsAs deref raw value) {tag : Tag}
    {e : DomElement} (run : elementOf deref inherited tag = some e) :
    elementOf deref inherited (tag.setValue key raw) = some (e.setValue key value) := by
  obtain ⟨proper, distinct, namespaces, named, _⟩ := elementOf_eq_some run
  have attributes := mapM_attributeOf_setValue plain reads (elementOf_attributes run)
  have kept : ((tag.setValue key raw).attributes.filter fun a => a.declares = none) =
      (tag.attributes.filter fun a => a.declares = none).map (setValue key raw) := by
    rw [Tag.setValue, List.filter_map]
    congr 1
    refine List.filter_congr fun a _ => ?_
    rw [Function.comp_apply, declares_of_key (setValue_key key raw a)]
  have names : expandName e.namespaces (defaultNamespace e.namespaces) (tag.setValue key raw).name =
      some (e.ns, e.name) := named
  have apart : DistinctAttributes (e.attributes.map (·.setValue key value)) := by
    unfold DistinctAttributes
    rw [setValue_names]
    exact distinct
  simp only [elementOf, ownNamespaces_setValue plain, ← namespaces, names, kept, attributes,
    Option.bind_eq_bind,
    Option.bind_some, if_pos (And.intro (properTag_setValue plain reads proper) apart)]
  rfl

/-- A new value is the old one where the element has it. -/
theorem setValue_eq_self {e : DomElement} {name value : Text} (same : e.setValue name value = e)
    {a : DomAttribute} (member : a ∈ e.attributes) (noNs : a.ns = none) (named : a.name = name) :
    a.value = value := by
  have fixed : e.attributes.map (·.setValue name value) = e.attributes.map id := by
    rw [List.map_id]
    exact congrArg DomElement.attributes same
  have own := List.map_inj_left.mp fixed a member
  rw [DomAttribute.setValue, if_pos ⟨noNs, named⟩] at own
  exact (congrArg DomAttribute.value own).symm

theorem setValue_setValue (e : DomElement) (name first second : Text) :
    (e.setValue name first).setValue name second = e.setValue name second := by
  simp only [DomElement.setValue, List.map_map, DomElement.mk.injEq, true_and, and_true]
  refine List.map_congr_left fun a _ => ?_
  by_cases named : a.ns = none ∧ a.name = name
  · simp [DomAttribute.setValue, named]
  · simp [DomAttribute.setValue, if_neg named]

/-- Tags that differ first in a value that is cut have different elements. -/
theorem elementOf_ne_cut {tag cut : Tag} {e : DomElement} {before after after' : List Attribute}
    {a b : Attribute} {more : Text} (own : tag.attributes = before ++ a :: after)
    (other : cut.attributes = before ++ b :: after') (sameKey : a.key = b.key)
    (value : a.value = b.value ++ '"' :: more) (plain : PlainKey key) (notKey : a.key ≠ key)
    (run : elementOf deref inherited tag = some (e.setValue key raw)) :
    elementOf deref inherited cut ≠ some e := by
  intro runCut
  obtain ⟨proper, _, namespaces, _, _⟩ := elementOf_eq_some run
  obtain ⟨properCut, _, namespacesCut, _, _⟩ := elementOf_eq_some runCut
  have known : referencesKnown deref b.value = true :=
    (properCut.attributes b (by rw [other]; simp)).references
  have differs := attributeValue_ne_cut known value
  cases declares : a.declares with
  | some p =>
    have declaresCut : b.declares = some p := (declares_of_key sameKey).symm.trans declares
    by_cases isXml : p = "xml".toList
    · -- that prefix has one namespace only, without a quote in it
      have fixed := (proper.attributes a (by rw [own]; simp)).xml (isXml ▸ declares)
      have fixedCut := (properCut.attributes b (by rw [other]; simp)).xml (isXml ▸ declaresCut)
      exact differs (fixed.trans fixedCut.symm)
    · have declared (c : Attribute) (same : c.declares = some p) :
          declaredBy deref c = some (if p = [] then none else some p, attributeValue deref c.value) := by
        rw [declaredBy, same]
        exact if_neg isXml
      -- the declarations before the two are the same, so these stand at one position of the scope
      have both : inScope inherited (ownNamespaces deref tag) = inScope inherited (ownNamespaces deref cut) :=
        namespaces.symm.trans namespacesCut
      rw [inScope, inScope, ownNamespaces, ownNamespaces, own, other, List.filterMap_append,
        List.filterMap_append,
        List.filterMap_cons, List.filterMap_cons, declared a declares, declared b declaresCut] at both
      simp only [List.append_assoc, List.cons_append, List.append_cancel_left_eq, List.cons.injEq, Prod.mk.injEq] at both
      exact differs both.1.2
  | none =>
    have declaresCut : b.declares = none := (declares_of_key sameKey).symm.trans declares
    have attributes := elementOf_attributes run
    have attributesCut := elementOf_attributes runCut
    rw [own, List.filter_append, List.filter_cons_of_pos (by simpa using declares), List.mapM_append] at attributes
    rw [other, List.filter_append, List.filter_cons_of_pos (by simpa using declaresCut), List.mapM_append] at attributesCut
    simp only [List.mapM_cons, bind, Option.bind_eq_some_iff, pure, Option.some.injEq] at attributes attributesCut
    obtain ⟨front, readFront, _, ⟨first, readFirst, rest, _, rfl⟩, all⟩ := attributes
    obtain ⟨front', readFront', _, ⟨first', readFirst', rest', _, rfl⟩, allCut⟩ := attributesCut
    obtain rfl : front = front' := Option.some.inj (readFront.symm.trans readFront')
    obtain ⟨⟨ns, name⟩, named, rfl⟩ := Option.map_eq_some_iff.mp readFirst
    obtain ⟨⟨ns', name'⟩, named', rfl⟩ := Option.map_eq_some_iff.mp readFirst'
    -- the cut attribute is not the one whose value is set
    have notNamed : ¬ (ns' = none ∧ name' = key) := by
      rintro ⟨rfl, rfl⟩
      exact notKey (sameKey.trans (expandName_eq_plain named').symm)
    -- so it stands at the same position of the element that was read from the tag
    have positions : front ++ ⟨ns, name, attributeValue deref a.value⟩ :: rest =
        front.map (·.setValue key raw) ++
          (DomAttribute.mk ns' name' (attributeValue deref b.value)).setValue key raw ::
            rest'.map (·.setValue key raw) := by
      rw [all]
      simp only [DomElement.setValue, ← allCut, List.map_append, List.map_cons]
    have split := List.append_inj positions (by simp)
    rw [DomAttribute.setValue, if_neg notNamed] at split
    exact differs (congrArg DomAttribute.value (List.cons.inj split.2).1)

end Tree

end SoapServer
