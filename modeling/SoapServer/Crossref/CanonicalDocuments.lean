import SoapServer.Crossref.CanonicalNames

/-! Documents in canonical form: they are documents with the same names, and in turn have a
canonical form, with the same prefixes.
-/

set_option autoImplicit false

namespace SoapServer.Crossref

open Markup hiding localName

variable {prefixes : PrefixMap} {scope outer : Scope} {tag : Tag} {isRoot : Bool} {c c' : Content}

/-- A document and its canonical form: what is around the one, and around the other. -/
inductive Canonizes (prefixes : PrefixMap) : Bool → Scope → Scope → Content → Content → Prop
  | nil {isRoot : Bool} {scope outer : Scope} : Canonizes prefixes isRoot scope outer .nil .nil
  | kept {isRoot : Bool} {scope outer : Scope} {d : Data} {c c' : Content} (char : IsCharacter d)
    (more : Canonizes prefixes isRoot scope outer c c') :
    Canonizes prefixes isRoot scope outer (.data d c) (.data d c')
  | dropped {isRoot : Bool} {scope outer : Scope} {d : Data} {c c' : Content} (other : ¬ IsCharacter d)
    (more : Canonizes prefixes isRoot scope outer c c') : Canonizes prefixes isRoot scope outer (.data d c) c'
  | empty {isRoot : Bool} {scope : Scope} {tag : Tag} {c c' : Content} (nameable : NameableTag prefixes scope tag)
    (more : Canonizes prefixes false scope (outerScope prefixes isRoot) c c') :
    Canonizes prefixes isRoot scope (outerScope prefixes isRoot) (.empty tag c)
      (.empty (canonicalTag prefixes isRoot (scope.enter tag.attributes) tag) c')
  | element {isRoot : Bool} {scope : Scope} {tag : Tag} {kids kids' c c' : Content} (nameable : NameableTag prefixes scope tag)
    (inner : Canonizes prefixes false (scope.enter tag.attributes) (rootScope prefixes) kids kids')
    (more : Canonizes prefixes false scope (outerScope prefixes isRoot) c c') :
    Canonizes prefixes isRoot scope (outerScope prefixes isRoot) (.element tag kids c)
      (.element (canonicalTag prefixes isRoot (scope.enter tag.attributes) tag) kids' c')

/-- The canonical form is written for one root, or inside of it. -/
def Placed (prefixes : PrefixMap) (isRoot : Bool) (outer : Scope) (c : Content) : Prop :=
  c.elements ≠ [] → outer = outerScope prefixes isRoot ∧ (isRoot = true → c.elements.length = 1)

theorem Placed.after {rest : Content} {el : Element} (placed : Placed prefixes isRoot outer c)
    (split : c.elements = el :: rest.elements) :
    outer = outerScope prefixes isRoot ∧ Placed prefixes false outer rest := by
  obtain ⟨here, single⟩ := placed (by rw [split]; exact List.cons_ne_nil _ _)
  refine ⟨here, fun more => ?_⟩
  cases isRoot with
  | false => exact ⟨here, fun impossible => by cases impossible⟩
  | true =>
    have one := single rfl
    rw [split, List.length_cons] at one
    exact absurd (List.length_eq_zero_iff.mp (Nat.succ.inj one)) more

theorem canonizes_canonContent (nameable : c.AllScoped (NameableTag prefixes) scope)
    (placed : Placed prefixes isRoot outer c) :
    Canonizes prefixes isRoot scope outer c (canonContent prefixes isRoot scope c) := by
  induction c generalizing isRoot scope outer with
  | nil => exact .nil
  | data d rest ih =>
    have more := @ih scope outer isRoot nameable placed
    cases d with
    | text raw | cdata raw | generalRef name => exact .kept trivial more
    | comment raw | pi raw | decl raw | docType raw => exact .dropped id more
  | empty tag rest ih =>
    obtain ⟨rfl, after⟩ := placed.after rfl
    exact .empty nameable.1 (ih nameable.2 after)
  | element tag kids rest kidsIH restIH =>
    obtain ⟨rfl, after⟩ := placed.after rfl
    exact .element nameable.1 (kidsIH nameable.2.1 fun _ => ⟨rfl, fun impossible => by cases impossible⟩)
      (restIH nameable.2.2 after)

/-! What a canonical form keeps. -/

theorem NameableTag.enter (nameable : NameableTag prefixes scope tag) (proper : ProperMap prefixes)
    (isRoot : Bool) :
    (outerScope prefixes isRoot).enter (canonicalTag prefixes isRoot (scope.enter tag.attributes) tag).attributes =
      rootScope prefixes :=
  enter_expandedTag proper nameable.attributes isRoot

theorem mem_tagUris_canonicalTag (nameable : NameableTag prefixes scope tag)
    (proper : ProperMap prefixes) (isRoot : Bool) {uri : Text} :
    uri ∈ tagUris (rootScope prefixes) (canonicalTag prefixes isRoot (scope.enter tag.attributes) tag) ↔
      uri ∈ tagUris (scope.enter tag.attributes) tag := by
  have name : elementName (rootScope prefixes) (canonicalTag prefixes isRoot (scope.enter tag.attributes) tag).name = _ :=
    nameable.element.elementName_eq proper
  have names : (attributeNames (rootScope prefixes) (canonicalTag prefixes isRoot (scope.enter tag.attributes) tag).attributes).Perm
      (attributeNames (scope.enter tag.attributes) tag.attributes) := by
    rw [← expandedAttributes_names (scope.enter tag.attributes)]
    exact attributeNames_expandedTag proper nameable.attributes isRoot
  rw [tagUris, tagUris, List.mem_append, List.mem_append, name,
    (names.flatMap_right nameUris).mem_iff]

theorem Canonizes.mem_namesUris (canonizes : Canonizes prefixes isRoot scope outer c c')
    (proper : ProperMap prefixes) {uri : Text} :
    uri ∈ namesUris (c'.names outer) ↔ uri ∈ namesUris (c.names scope) := by
  induction canonizes with
  | nil => exact Iff.rfl
  | kept _ _ ih => exact ih
  | dropped _ _ ih => exact ih
  | empty nameable _ ih =>
    rw [Content.names, Content.names, nameable.enter proper, mem_namesUris_element,
      mem_namesUris_element]
    exact or_congr (mem_tagUris_canonicalTag nameable proper _) (or_congr Iff.rfl ih)
  | element nameable _ _ innerIH moreIH =>
    rw [Content.names, Content.names, nameable.enter proper, mem_namesUris_element,
      mem_namesUris_element]
    exact or_congr (mem_tagUris_canonicalTag nameable proper _) (or_congr innerIH moreIH)

/-- A property of the canonical tags holds throughout the form. -/
theorem Canonizes.allScoped {P : Scope → Tag → Prop}
    (canonizes : Canonizes prefixes isRoot scope outer c c') (proper : ProperMap prefixes)
    (each : ∀ (isRoot : Bool) (scope : Scope) (tag : Tag), NameableTag prefixes scope tag →
      P (outerScope prefixes isRoot) (canonicalTag prefixes isRoot (scope.enter tag.attributes) tag)) :
    c'.AllScoped P outer := by
  induction canonizes with
  | nil => trivial
  | kept _ _ ih | dropped _ _ ih => exact ih
  | empty nameable _ ih => exact ⟨each _ _ _ nameable, ih⟩
  | element nameable _ _ innerIH moreIH =>
    refine ⟨each _ _ _ nameable, ?_, moreIH⟩
    rw [nameable.enter proper]
    exact innerIH

theorem Canonizes.allTags {P : Tag → Prop} (canonizes : Canonizes prefixes isRoot scope outer c c')
    (proper : ProperMap prefixes)
    (each : ∀ (isRoot : Bool) (scope : Scope) (tag : Tag), NameableTag prefixes scope tag →
      P (canonicalTag prefixes isRoot (scope.enter tag.attributes) tag)) :
    c'.AllTags P := by
  have all : c'.AllScoped (fun _ => P) outer := canonizes.allScoped proper each
  exact Content.AllScoped.allTags (P := fun _ => P) (fun _ _ held => held) all

theorem scopedTag_canonicalTag (prefixed : Prefixed prefixes) (isRoot : Bool)
    (nameable : NameableTag prefixes scope tag) :
    ScopedTag (outerScope prefixes isRoot) (canonicalTag prefixes isRoot (scope.enter tag.attributes) tag) :=
  scopedTag_expandedTag prefixed nameable.element nameable.attributes nameable.distinct

theorem accepted_canonicalTag (proper : ProperMap prefixes) (isRoot : Bool)
    (nameable : NameableTag prefixes scope tag) :
    Accepted (outerScope prefixes isRoot) (canonicalTag prefixes isRoot (scope.enter tag.attributes) tag) :=
  accepted_expandedTag proper nameable.element nameable.notXml nameable.attributes

/-! The canonical form of the form. -/

def rewriteTag (tag : Tag) : Tag :=
  ⟨tag.name, tag.attributes.map fun a => if a.declares.isSome then a else writtenAttribute a⟩

/-- The values of a document escaped once more. -/
def rewriteValues : Content → Content
  | .nil => .nil
  | .data d rest => .data d (rewriteValues rest)
  | .empty tag rest => .empty (rewriteTag tag) (rewriteValues rest)
  | .element tag kids rest => .element (rewriteTag tag) (rewriteValues kids) (rewriteValues rest)

theorem rewriteTag_canonicalTag (nameable : NameableTag prefixes scope tag)
    (proper : ProperMap prefixes) (isRoot : Bool) :
    rewriteTag (canonicalTag prefixes isRoot (scope.enter tag.attributes) tag) =
      canonicalTag prefixes isRoot (rootScope prefixes) (canonicalTag prefixes isRoot (scope.enter tag.attributes) tag) := by
  have twice := canonicalTag_twice proper nameable.element nameable.attributes isRoot
  have decls : (if isRoot then rootDeclarations prefixes else []).map
      (fun a => if a.declares.isSome then a else writtenAttribute a) = if isRoot then rootDeclarations prefixes else [] := by
    refine (List.map_congr_left fun a member => ?_).trans (List.map_id _)
    cases isRoot with
    | false => cases member
    | true =>
      obtain ⟨p, declared⟩ := rootDeclaration_declares member
      rw [declared]
      rfl
  have own : ((canonAttributes prefixes (expandedAttributes (scope.enter tag.attributes) tag.attributes)).map
      writtenAttribute).map (fun a => if a.declares.isSome then a else writtenAttribute a) =
        ((canonAttributes prefixes (expandedAttributes (scope.enter tag.attributes) tag.attributes)).map
          writtenAttribute).map writtenAttribute := by
    refine List.map_congr_left fun a member => ?_
    rw [written_undeclared proper nameable.attributes member]
    rfl
  rw [canonicalTag, twice, rewriteTag]
  simp only [expandedTag, List.map_append, decls, own]

theorem Canonizes.twice (canonizes : Canonizes prefixes isRoot scope outer c c')
    (proper : ProperMap prefixes) :
    canonContent prefixes isRoot outer c' = rewriteValues c' := by
  induction canonizes with
  | nil => rfl
  | @kept isRoot scope outer d c c' char _ ih =>
    cases d with
    | text raw | cdata raw | generalRef name => exact congrArg (Content.data _) ih
    | comment raw | pi raw | decl raw | docType raw => exact char.elim
  | dropped _ _ ih => exact ih
  | empty nameable _ ih =>
    rw [canonContent, rewriteValues, nameable.enter proper, rewriteTag_canonicalTag nameable proper,
      ih]
  | element nameable _ _ innerIH moreIH =>
    rw [canonContent, rewriteValues, nameable.enter proper, rewriteTag_canonicalTag nameable proper,
      innerIH, moreIH]

/-- The values of a tag that stand between double quotes as they are. -/
def PlainValues (tag : Tag) : Prop := ∀ a ∈ tag.attributes, a.declares = none → '&' ∉ a.value ∧ '"' ∉ a.value

instance (tag : Tag) : Decidable (PlainValues tag) := by unfold PlainValues; infer_instance

theorem rewriteTag_eq_self_iff : rewriteTag tag = tag ↔ ∀ a ∈ tag.attributes, a.declares = none → writeAttrValue a.value = a.value := by
  have each (a : Attribute) : (if a.declares.isSome then a else writtenAttribute a) = a ↔
      (a.declares = none → writeAttrValue a.value = a.value) := by
    cases declared : a.declares with
    | some p => simp
    | none =>
      simp only [Option.isSome_none, Bool.false_eq_true, if_false, forall_const, writtenAttribute]
      exact ⟨fun same => congrArg Attribute.value same, fun same => by rw [same]⟩
  obtain ⟨name, attributes⟩ := tag
  rw [rewriteTag, Tag.mk.injEq]
  simp only [true_and]
  constructor
  · intro same a member
    exact (each a).mp (List.map_inj_left.mp (same.trans (List.map_id attributes).symm) a member)
  · intro all
    exact (List.map_congr_left fun a member => (each a).mpr (all a member)).trans (List.map_id _)

theorem rewriteTag_canonicalTag_iff (nameable : NameableTag prefixes scope tag)
    (proper : ProperMap prefixes) (isRoot : Bool) (noTag : ∀ a ∈ tag.attributes, '<' ∉ a.value) :
    rewriteTag (canonicalTag prefixes isRoot (scope.enter tag.attributes) tag) =
      canonicalTag prefixes isRoot (scope.enter tag.attributes) tag ↔ PlainValues tag := by
  rw [rewriteTag_eq_self_iff]
  constructor
  · intro settled a member undeclared
    have among : (attributeName (scope.enter tag.attributes) a.key, a.value) ∈
        expandedAttributes (scope.enter tag.attributes) tag.attributes :=
      mem_expandedAttributes.mpr ⟨a, member, undeclared, rfl⟩
    have written : (⟨canonName prefixes (attributeName (scope.enter tag.attributes) a.key), writeAttrValue a.value⟩ : Attribute) ∈
        (canonicalTag prefixes isRoot (scope.enter tag.attributes) tag).attributes :=
      List.mem_append_right _ (List.mem_map.mpr ⟨_, mem_canonAttributes.mpr ⟨_, among, rfl⟩, rfl⟩)
    exact (writeAttrValue_twice_iff (noTag a member)).mp
      (settled _ written ((nameable.attributes _ among).declares proper _))
  · intro plain b member undeclared
    rcases mem_expandedTag member with ⟨d, _, rfl⟩ | ⟨x, among, rfl⟩
    · cases (declares_prefixed d.2 d.1).symm.trans undeclared
    · obtain ⟨a, raw, declared, rfl⟩ := mem_expandedAttributes.mp among
      exact (writeAttrValue_twice_iff (noTag a raw)).mpr (plain a raw declared)

/-- A second run keeps the form exactly when no value of the document is changed by escaping. -/
theorem Canonizes.rewriteValues_eq_iff (canonizes : Canonizes prefixes isRoot scope outer c c')
    (proper : ProperMap prefixes)
    (noTag : c.AllTags fun tag => ∀ a ∈ tag.attributes, '<' ∉ a.value) :
    rewriteValues c' = c' ↔ c.AllTags PlainValues := by
  induction canonizes with
  | nil => exact iff_of_true rfl trivial
  | kept _ _ ih => rw [rewriteValues, Content.data.injEq, eq_self, true_and, ih noTag]; rfl
  | dropped _ _ ih => exact ih noTag
  | empty nameable _ ih =>
    rw [rewriteValues, Content.empty.injEq, rewriteTag_canonicalTag_iff nameable proper _ noTag.1,
      ih noTag.2]
    rfl
  | element nameable _ _ innerIH moreIH =>
    rw [rewriteValues, Content.element.injEq, rewriteTag_canonicalTag_iff nameable proper _ noTag.1,
      innerIH noTag.2.1, moreIH noTag.2.2]
    rfl

theorem rewriteValues_shape (c : Content) : (rewriteValues c).shape = c.shape := by
  induction c with
  | nil => rfl
  | data d rest ih => exact congrArg (Content.data d) ih
  | empty tag rest ih => exact congrArg (Content.empty _) ih
  | element tag kids rest kidsIH restIH => exact congrArg₂ (Content.element _) kidsIH restIH

/-! The form in its text. -/

theorem canonicalTag_writable (prefixed : Prefixed prefixes) (quotes : ∀ d ∈ prefixes, '"' ∉ d.1)
    (isRoot : Bool) (nameable : NameableTag prefixes scope tag) :
    (canonicalTag prefixes isRoot (scope.enter tag.attributes) tag).Lexical ∧
      (canonicalTag prefixes isRoot (scope.enter tag.attributes) tag).QuoteFree ∧
      (canonicalTag prefixes isRoot (scope.enter tag.attributes) tag).Unique := by
  have sound := scopedTag_canonicalTag prefixed isRoot nameable
  refine ⟨⟨sound.name.isName, fun a member => ?_⟩, ?_, sound.unique⟩
  · exact ⟨(sound.attributes a member).1.isName, (sound.attributes a member).2⟩
  · intro a member
    rcases mem_expandedTag member with ⟨d, among, rfl⟩ | ⟨b, _, rfl⟩
    · exact quotes d among
    · exact (writeAttrValue_clean b.2).1

theorem Canonizes.allData {P : Data → Prop} (canonizes : Canonizes prefixes isRoot scope outer c c')
    (all : c.AllData P) :
    c'.AllData P := by
  induction canonizes with
  | nil => trivial
  | kept _ _ ih => exact ⟨all.1, ih all.2⟩
  | dropped _ _ ih => exact ih all.2
  | empty _ _ ih => exact ih all
  | element _ _ _ innerIH moreIH => exact ⟨innerIH all.1, moreIH all.2⟩

theorem Canonizes.normal (canonizes : Canonizes prefixes isRoot scope outer c c')
    (chars : c.AllData IsCharacter) (normal : c.Normal) : c'.Normal := by
  have starts {isRoot : Bool} {scope outer : Scope} {c rest : Content} {t : Text}
      (canonizes : Canonizes prefixes isRoot scope outer c (.data (.text t) rest)) (chars : c.AllData IsCharacter) :
      ∃ r, c = .data (.text t) r := by
    cases canonizes with
    | kept => exact ⟨_, rfl⟩
    | dropped other => exact absurd chars.1 other
  induction canonizes with
  | nil => trivial
  | @kept isRoot scope outer d c c' _ more ih =>
    cases d with
    | text raw =>
      refine ⟨normal.1, fun t r same => ?_, ih chars.2 normal.2.2⟩
      subst same
      obtain ⟨r, rfl⟩ := starts more chars.2
      exact normal.2.1 t r rfl
    | cdata raw | generalRef name | comment raw | pi raw | decl raw | docType raw => exact ih chars.2 normal
  | dropped other _ _ => exact absurd chars.1 other
  | empty _ _ ih => exact ih chars normal
  | element _ _ _ innerIH moreIH => exact ⟨innerIH chars.1 normal.1, moreIH chars.2 normal.2⟩

theorem Canonizes.elements_length (canonizes : Canonizes prefixes isRoot scope outer c c') :
    c'.elements.length = c.elements.length := by
  induction canonizes with
  | nil => rfl
  | kept _ _ ih | dropped _ _ ih => exact ih
  | empty _ _ ih => exact congrArg Nat.succ ih
  | element _ _ _ _ ih => exact congrArg Nat.succ ih

/-! The whole form, and the form of the form. -/

/-- The prefixes are for what the document declares. -/
theorem prefixesOf_hold {P : Text → Prop} (declares : c.AllTags (Declares P)) :
    ∀ d ∈ prefixesOf c, P d.1 := by
  intro d member
  have among : d.1 ∈ (prefixesOf c).map Prod.fst := List.mem_map_of_mem member
  rw [prefixesOf, uriToPrefix_fst] at among
  exact namesUris_hold (properScope_initial P) declares d.1 (mem_usedUris.mp among)

theorem nameable_content (sound : c.AllScoped ScopedTag scope)
    (accepted : c.AllScoped Accepted scope) (proper : ProperScope NamespaceName scope)
    (covers : Covers prefixes (namesUris (c.names scope))) :
    c.AllScoped (NameableTag prefixes) scope := by
  induction c generalizing scope with
  | nil => trivial
  | data d rest ih => exact ih sound accepted proper covers
  | empty tag rest ih =>
    have own : Covers prefixes (tagUris (scope.enter tag.attributes) tag) :=
      fun uri used => covers uri (mem_namesUris_element.mpr (.inl used))
    exact ⟨nameableTag_of_accepted sound.1 proper accepted.1 own,
      ih sound.2 accepted.2 proper fun uri used =>
        covers uri (mem_namesUris_element.mpr (.inr (.inr used)))⟩
  | element tag kids rest kidsIH restIH =>
    have own : Covers prefixes (tagUris (scope.enter tag.attributes) tag) :=
      fun uri used => covers uri (mem_namesUris_element.mpr (.inl used))
    refine ⟨nameableTag_of_accepted sound.1 proper accepted.1 own, ?_, ?_⟩
    · exact kidsIH sound.2.1 accepted.2.1 (proper.enter (sound.1.declares accepted.1.literal))
        fun uri used => covers uri (mem_namesUris_element.mpr (.inr (.inl used)))
    · exact restIH sound.2.2 accepted.2.2 proper fun uri used =>
        covers uri (mem_namesUris_element.mpr (.inr (.inr used)))

/-- An accepted document with one root. -/
structure Canonical (c : Content) : Prop where
  sound : c.AllScoped ScopedTag Scope.initial
  accepted : c.AllScoped Accepted Scope.initial
  single : c.elements.length = 1

theorem Canonical.declares (canonical : Canonical c) : c.AllTags (Declares NamespaceName) :=
  (canonical.sound.and canonical.accepted).allTags fun _ _ both => both.1.declares both.2.literal

theorem Canonical.prefixed (canonical : Canonical c) : Prefixed (prefixesOf c) :=
  ⟨prefixesOf_proper c, prefixesOf_hold canonical.declares⟩

theorem Canonical.canonizes (canonical : Canonical c) :
    Canonizes (prefixesOf c) true Scope.initial Scope.initial c (canonDocument c) :=
  canonizes_canonContent (nameable_content canonical.sound canonical.accepted (properScope_initial _) (prefixesOf_covers c))
    fun _ => ⟨rfl, fun _ => canonical.single⟩

theorem Canonical.usedUris_canonDocument (canonical : Canonical c) :
    usedUris (canonDocument c) = usedUris c := by
  refine (usedUris_ascending _).ext (usedUris_ascending _) fun uri => ?_
  rw [mem_usedUris, mem_usedUris]
  exact canonical.canonizes.mem_namesUris (prefixesOf_proper c)

/-- The form has the namespaces of the document, and so its prefixes. -/
theorem Canonical.prefixesOf_canonDocument (canonical : Canonical c) :
    prefixesOf (canonDocument c) = prefixesOf c := by
  rw [prefixesOf, canonical.usedUris_canonDocument]
  rfl

theorem Canonical.form (canonical : Canonical c) : Canonical (canonDocument c) where
  sound := canonical.canonizes.allScoped (prefixesOf_proper c) fun isRoot _ _ nameable =>
    scopedTag_canonicalTag canonical.prefixed isRoot nameable
  accepted := canonical.canonizes.allScoped (prefixesOf_proper c) fun isRoot _ _ nameable =>
    accepted_canonicalTag (prefixesOf_proper c) isRoot nameable
  single := canonical.canonizes.elements_length.trans canonical.single

theorem Canonical.twice (canonical : Canonical c) :
    canonDocument (canonDocument c) = rewriteValues (canonDocument c) := by
  have twice := canonical.canonizes.twice (prefixesOf_proper c)
  rwa [← canonical.prefixesOf_canonDocument] at twice

/-- No namespace in use holds a double quote, as it is written. -/
def PlainNames (c : Content) : Prop := ∀ uri ∈ usedUris c, '"' ∉ uri

instance (c : Content) : Decidable (PlainNames c) := by unfold PlainNames; infer_instance

theorem prefixesOf_noQuote (names : PlainNames c) : ∀ d ∈ prefixesOf c, '"' ∉ d.1 := by
  intro d member
  have among : d.1 ∈ (prefixesOf c).map Prod.fst := List.mem_map_of_mem member
  rw [prefixesOf, uriToPrefix_fst] at among
  exact names d.1 among

theorem Canonical.writable (canonical : Canonical c) (names : PlainNames c)
    (lexical : c.AllData Data.Lexical) : (canonDocument c).Writable where
  tags := canonical.canonizes.allTags (prefixesOf_proper c) fun isRoot _ _ nameable =>
    (canonicalTag_writable canonical.prefixed (prefixesOf_noQuote names) isRoot nameable).1
  quotes := canonical.canonizes.allTags (prefixesOf_proper c) fun isRoot _ _ nameable =>
    (canonicalTag_writable canonical.prefixed (prefixesOf_noQuote names) isRoot nameable).2.1
  data := canonical.canonizes.allData lexical

end SoapServer.Crossref
