import SoapServer.Library.Descent
import SoapServer.Wsdl.SchemaBlocks
import SoapServer.Xsd.ContentModel
import SoapServer.Xsd.Flattening

/-! References to model groups, which the parser drops: what a group stands for once the
references in it are followed, and where in a content model it is missing.
-/

set_option autoImplicit false

namespace SoapServer.Xsd

open Markup (Text)
open Maps Loops Descent

/-! Group definitions, as the documents have them. -/

def declaresGroup (targetNamespace : Option Text) (q : QName) (child : DomNode) : Bool :=
  child.element.xs = .group ∧
    (child.element.attribute "name".toList).map (qualifyName · targetNamespace) = some q

/-- The definition of a group; a later one replaces an earlier one. -/
def groupDeclared (documents : List DomNode) (q : QName) : Option DomNode :=
  documents.reverse.findSome? fun document =>
    document.children.elements.reverse.find?
      (declaresGroup (document.element.attribute "targetNamespace".toList) q)

/-- The particles of a group definition: those of the last compositor among its children. -/
def groupBody (node : DomNode) : DomForest :=
  node.children.elements.foldl (fun body child => if child.element.xs.groupKind.isSome then child.children else body) .nil

/-- The group that a node refers to. -/
def groupRef (e : DomElement) : Option QName :=
  if e.xs = .group then (e.attribute "ref".toList).map (resolveQname · e) else none

/-- Particles in which every reference to a group is replaced by the group's own. -/
inductive Inlined (documents : List DomNode) : DomForest → List XsdElement → Prop
  | nil : Inlined documents .nil []
  | text {s : Text} {rest : DomForest} {out : List XsdElement} (after : Inlined documents rest out) :
      Inlined documents (.text s rest) out
  | other {rest : DomForest} {out : List XsdElement} (after : Inlined documents rest out) :
      Inlined documents (.other rest) out
  | particle {e : DomElement} {children rest : DomForest} {el : XsdElement} {out : List XsdElement}
      (particle : particleOf ⟨e, children⟩ = some el) (after : Inlined documents rest out) :
      Inlined documents (.element e children rest) (el :: out)
  | nested {e : DomElement} {children rest : DomForest} {inner out : List XsdElement}
      (group : e.xs.groupKind.isSome) (inside : Inlined documents children inner) (after : Inlined documents rest out) :
      Inlined documents (.element e children rest) (inner ++ out)
  | reference {e : DomElement} {children rest : DomForest} {q : QName} {node : DomNode} {inner out : List XsdElement}
      (refers : groupRef e = some q) (declared : groupDeclared documents q = some node)
      (inside : Inlined documents (groupBody node) inner) (after : Inlined documents rest out) :
      Inlined documents (.element e children rest) (inner ++ out)
  | undeclared {e : DomElement} {children rest : DomForest} {q : QName} {out : List XsdElement}
      (refers : groupRef e = some q) (absent : groupDeclared documents q = none) (after : Inlined documents rest out) :
      Inlined documents (.element e children rest) out
  | skipped {e : DomElement} {children rest : DomForest} {out : List XsdElement}
      (noParticle : particleOf ⟨e, children⟩ = none) (noGroup : e.xs.groupKind = none) (noReference : groupRef e = none)
      (after : Inlined documents rest out) : Inlined documents (.element e children rest) out

/-! Where a content model refers to a group. -/

/-- A reference to a group among some particles, with the particles that the parser reads
before and after it. -/
inductive GroupRefAt (q : QName) : DomForest → List XsdElement → List XsdElement → Prop
  | here {e : DomElement} {children rest : DomForest} (refers : groupRef e = some q) :
      GroupRefAt q (.element e children rest) [] (visitParticleChildren rest)
  | inside {e : DomElement} {children rest : DomForest} {before after : List XsdElement}
      (group : e.xs.groupKind.isSome) (at_ : GroupRefAt q children before after) :
      GroupRefAt q (.element e children rest) before (after ++ visitParticleChildren rest)
  | later {e : DomElement} {children rest : DomForest} {before after : List XsdElement}
      (at_ : GroupRefAt q rest before after) :
      GroupRefAt q (.element e children rest) (visitParticleChildren (.element e children .nil) ++ before) after
  | text {s : Text} {rest : DomForest} {before after : List XsdElement} (at_ : GroupRefAt q rest before after) :
      GroupRefAt q (.text s rest) before after
  | other {rest : DomForest} {before after : List XsdElement} (at_ : GroupRefAt q rest before after) :
      GroupRefAt q (.other rest) before after

/-- A content that is the reference itself, or a compositor with the reference in it. -/
inductive ContentRefAt (q : QName) (children : DomForest) : List XsdElement → List XsdElement → Prop
  | direct {node : DomNode} (single : contentNodes children = [node]) (refers : groupRef node.element = some q) :
      ContentRefAt q children [] []
  | within {node : DomNode} {before after : List XsdElement} (single : contentNodes children = [node])
      (group : node.element.xs.groupKind.isSome) (at_ : GroupRefAt q node.children before after) :
      ContentRefAt q children before after

def XsName.isDerivation : XsName → Bool
  | .extension | .restriction => true
  | _ => false

/-- The content of a complex type, or of the extension or restriction that it is. -/
inductive TypeRefAt (q : QName) (children : DomForest) : List XsdElement → List XsdElement → Prop
  | plain {before after : List XsdElement} (at_ : ContentRefAt q children before after) :
      TypeRefAt q children before after
  | derived {node derivation : DomNode} {before after : List XsdElement} (single : contentNodes children = [node])
      (complex : node.element.xs = .complexContent)
      (only : node.children.elements.filter (·.element.xs.isDerivation) = [derivation])
      (base : (derivation.element.attribute "base".toList).isSome)
      (at_ : ContentRefAt q derivation.children before after) : TypeRefAt q children before after

/-! The parser passes over the reference. -/

theorem visitParticleChildren_cons (e : DomElement) (children rest : DomForest) :
    visitParticleChildren (.element e children rest) =
      visitParticleChildren (.element e children .nil) ++ visitParticleChildren rest := by
  simp only [visitParticleChildren, List.append_nil]

theorem groupRef_eq_some {e : DomElement} {q : QName} (refers : groupRef e = some q) :
    e.xs = .group := by
  unfold groupRef at refers
  split at refers
  next group => exact group
  next => cases refers

theorem GroupRefAt.particles {q : QName} {forest : DomForest} {before after : List XsdElement}
    (at_ : GroupRefAt q forest before after) : visitParticleChildren forest = before ++ after := by
  induction at_ with
  | here refers =>
    rw [visitParticleChildren, groupRef_eq_some refers, List.nil_append]
  | @inside e children rest before after group _ ih =>
    rw [visitParticleChildren, ← List.append_assoc, ← ih]
    cases kind : e.xs <;> first | rfl | (rw [kind] at group; cases group)
  | later _ ih => rw [visitParticleChildren_cons, ih, List.append_assoc]
  | text _ ih | other _ ih => exact ih

/-- One content node of a type; a reference to a group changes nothing. -/
def contentStep (content : ComplexContent) (node : DomNode) : ComplexContent :=
  match node.element.xs with
  | .sequence => .sequence (visitParticleChildren node.children)
  | .all => .all (visitParticleChildren node.children)
  | .choice => .choice (visitParticleChildren node.children)
  | .complexContent => visitComplexContent node.children
  | .simpleContent => visitSimpleContent node.children
  | _ => content

/-- One content node of an extension. -/
def extensionStep (content : ComplexContent) (node : DomNode) : ComplexContent :=
  match node.element.xs with
  | .sequence => .sequence (visitParticleChildren node.children)
  | .all => .all (visitParticleChildren node.children)
  | .choice => .choice (visitParticleChildren node.children)
  | _ => content

theorem contentNodes_cons (e : DomElement) (children rest : DomForest) :
    contentNodes (.element e children rest) =
      if e.xs.isContent then ⟨e, children⟩ :: contentNodes rest else contentNodes rest := by
  by_cases isContent : e.xs.isContent <;> simp [contentNodes, DomForest.elements, isContent]

theorem typeContent_eq_foldl (content : ComplexContent) (children : DomForest) :
    typeContent content children = (contentNodes children).foldl contentStep content := by
  induction children generalizing content with
  | nil => rfl
  | text s rest ih => exact ih content
  | other rest ih => exact ih content
  | element e inner rest _ ih =>
    rw [typeContent, ih, contentNodes_cons]
    cases kind : e.xs <;> simp [XsName.isContent, contentStep, kind]

theorem extensionContent_eq_foldl (content : ComplexContent) (children : DomForest) :
    extensionContent content children = (contentNodes children).foldl extensionStep content := by
  induction children generalizing content with
  | nil => rfl
  | text s rest ih => exact ih content
  | other rest ih => exact ih content
  | element e inner rest _ ih =>
    rw [extensionContent, ih, contentNodes_cons]
    cases kind : e.xs <;> simp [XsName.isContent, extensionStep, kind]

theorem visitComplexRestrictionContent_single {children : DomForest} {node : DomNode}
    (single : contentNodes children = [node]) :
    visitComplexRestrictionContent children = extensionStep .empty node := by
  have nothing {rest : DomForest} (none : contentNodes rest = []) : visitComplexRestrictionContent rest = .empty := by
    induction rest with
    | nil => rfl
    | text s rest ih => exact ih none
    | other rest ih => exact ih none
    | element e inner rest _ ih =>
      rw [contentNodes_cons] at none
      rw [visitComplexRestrictionContent]
      cases kind : e.xs <;> simp [XsName.isContent, kind] at none ⊢ <;> exact ih none
  induction children with
  | nil => cases single
  | text s rest ih => exact ih single
  | other rest ih => exact ih single
  | element e inner rest _ ih =>
    rw [contentNodes_cons] at single
    rw [visitComplexRestrictionContent]
    cases kind : e.xs <;> simp [XsName.isContent, kind] at single ⊢ <;>
      first
        | exact ih single
        | (obtain ⟨rfl, none⟩ := single; simp [extensionStep, kind, nothing none])

/-- What `visit_complex_content` makes of the only derivation. -/
theorem visitComplexContent_single {children : DomForest} {derivation : DomNode}
    (only : children.elements.filter (·.element.xs.isDerivation) = [derivation])
    (base : (derivation.element.attribute "base".toList).isSome) :
    (∃ q, visitComplexContent children = .complexExtension q (extensionContent .empty derivation.children)) ∨
      ∃ q, visitComplexContent children =
        .complexRestriction q (visitComplexRestrictionContent derivation.children) := by
  induction children with
  | nil => cases only
  | text s rest ih => exact ih only
  | other rest ih => exact ih only
  | element e inner rest _ ih =>
    rw [DomForest.elements, List.filter_cons] at only
    by_cases derives : e.xs.isDerivation
    · rw [if_pos derives] at only
      obtain ⟨rfl, _⟩ := List.cons_eq_cons.mp only
      obtain ⟨value, base⟩ := Option.isSome_iff_exists.mp base
      dsimp only at base
      rw [visitComplexContent]
      cases kind : e.xs <;> rw [kind] at derives <;> cases derives
      · exact .inl ⟨_, rfl⟩
      · exact .inr ⟨_, by simp only [base]; rfl⟩
    · rw [if_neg derives] at only
      -- what derives nothing is passed over
      have skip : visitComplexContent (.element e inner rest) = visitComplexContent rest := by
        rw [visitComplexContent]
        cases kind : e.xs <;> simp [XsName.isDerivation, kind] at derives ⊢
      rw [skip]
      exact ih only

/-- Where a content is a reference or holds one, the parser reads what is before and after it. -/
theorem ContentRefAt.particles {q : QName} {children : DomForest} {before after : List XsdElement}
    (at_ : ContentRefAt q children before after) :
    ∃ node, contentNodes children = [node] ∧ (contentStep .empty node).particles = before ++ after ∧
      (extensionStep .empty node).particles = before ++ after := by
  cases at_ with
  | @direct node single refers =>
    have kind := groupRef_eq_some refers
    exact ⟨node, single, by simp [contentStep, kind, ComplexContent.particles],
      by simp [extensionStep, kind, ComplexContent.particles]⟩
  | @within node _ _ single group at_ =>
    refine ⟨node, single, ?_⟩
    rw [← at_.particles]
    cases kind : node.element.xs <;> rw [kind] at group <;> first
      | (cases group; done)
      | exact ⟨by simp [contentStep, kind, ComplexContent.particles],
          by simp [extensionStep, kind, ComplexContent.particles]⟩

theorem TypeRefAt.particles {q : QName} {children : DomForest} {before after : List XsdElement}
    (at_ : TypeRefAt q children before after) :
    (typeContent .empty children).particles = before ++ after := by
  cases at_ with
  | plain at_ =>
    obtain ⟨node, single, particles, _⟩ := at_.particles
    rw [typeContent_eq_foldl, single]
    exact particles
  | derived single complex only base at_ =>
    obtain ⟨inner, singleInner, _, particles⟩ := at_.particles
    rw [typeContent_eq_foldl, single, List.foldl_cons, List.foldl_nil, contentStep, complex]
    rcases visitComplexContent_single only base with ⟨q, content⟩ | ⟨q, content⟩
    · simp only [content, ComplexContent.particles, extensionContent_eq_foldl, singleInner]
      exact particles
    · simp only [content, ComplexContent.particles,
        visitComplexRestrictionContent_single singleInner]
      exact particles

/-! Acyclic groups can be inlined. -/

/-- The groups that some particles refer to. -/
def groupRefsIn : DomForest → List QName
  | .nil => []
  | .text _ rest | .other rest => groupRefsIn rest
  | .element e children rest =>
    (if e.xs.groupKind.isSome then groupRefsIn children else (groupRef e).toList) ++ groupRefsIn rest

/-- The declared groups that a group refers to. -/
def groupRefsOf (documents : List DomNode) (q : QName) : List QName :=
  match groupDeclared documents q with
  | some node => (groupRefsIn (groupBody node)).filter fun q => (groupDeclared documents q).isSome
  | none => []

/-- No group refers to itself, directly or through others. -/
def GroupsAcyclic (documents : List DomNode) : Prop :=
  ∀ q, ¬ Relation.TransGen (Step (groupRefsOf documents)) q q

variable {documents : List DomNode}

theorem exists_inlined_of {forest : DomForest}
    (each : ∀ q ∈ groupRefsIn forest, ∀ node, groupDeclared documents q = some node →
      ∃ out, Inlined documents (groupBody node) out) : ∃ out, Inlined documents forest out := by
  induction forest with
  | nil => exact ⟨[], .nil⟩
  | text s rest ih => exact (ih each).imp fun _ => .text
  | other rest ih => exact (ih each).imp fun _ => .other
  | element e children rest childrenIH restIH =>
    rw [groupRefsIn] at each
    obtain ⟨out, after⟩ := restIH fun q member => each q (List.mem_append_right _ member)
    -- a nested group, a particle, a reference to a group, or nothing of these
    cases group : e.xs.groupKind with
    | some kind =>
      rw [group] at each
      obtain ⟨inner, inside⟩ := childrenIH fun q member => each q (List.mem_append_left _ member)
      exact ⟨_, .nested (by rw [group]; rfl) inside after⟩
    | none =>
      rw [group] at each
      cases particle : particleOf ⟨e, children⟩ with
      | some el => exact ⟨_, .particle particle after⟩
      | none =>
        cases refers : groupRef e with
        | none => exact ⟨out, .skipped particle group refers after⟩
        | some q =>
          cases declared : groupDeclared documents q with
          | none => exact ⟨out, .undeclared refers declared after⟩
          | some node =>
            obtain ⟨inner, inside⟩ := each q (List.mem_append_left _ (by simp [refers])) node declared
            exact ⟨_, .reference refers declared inside after⟩

/-- All names that groups are declared under. -/
def groupNames (documents : List DomNode) : List QName :=
  documents.flatMap fun document => document.children.elements.filterMap fun child =>
    (child.element.attribute "name".toList).map
      (qualifyName · (document.element.attribute "targetNamespace".toList))

theorem mem_groupNames {q : QName} (declared : (groupDeclared documents q).isSome) :
    q ∈ groupNames documents := by
  obtain ⟨node, declared⟩ := Option.isSome_iff_exists.mp declared
  obtain ⟨document, member, found⟩ := List.exists_of_findSome?_eq_some declared
  have child := List.mem_of_find?_eq_some found
  have named := List.find?_some found
  simp only [declaresGroup, decide_eq_true_eq] at named
  exact List.mem_flatMap.mpr ⟨document, List.mem_reverse.mp member,
    List.mem_filterMap.mpr ⟨node, List.mem_reverse.mp child, named.2⟩⟩

theorem exists_inlined (acyclic : GroupsAcyclic documents) (forest : DomForest) :
    ∃ out, Inlined documents forest out := by
  have closed (q r : QName) (step : Step (groupRefsOf documents) q r) : r ∈ groupNames documents := by
    unfold Step groupRefsOf at step
    split at step
    next => exact mem_groupNames (List.mem_filter.mp step).2
    next => cases step
  refine exists_inlined_of fun q member node declared => ?_
  clear member
  have ends : Acc (fun r q => Step (groupRefsOf documents) q r) q :=
    ((endsWithin_iff (mem_groupNames (by rw [declared]; rfl)) closed).mpr
      fun ⟨r, _, cycle⟩ => acyclic r cycle).acc
  induction ends generalizing node with
  | intro q _ ih =>
    refine exists_inlined_of fun r member inner found => ih r ?_ inner found
    rw [Step, groupRefsOf, declared]
    exact List.mem_filter.mpr ⟨member, by rw [found]; rfl⟩

/-! The flat map has these groups. -/

theorem groupContent_elements (node : DomNode) :
    (groupContent node.children).elements = visitParticleChildren (groupBody node) := by
  unfold groupContent groupBody
  suffices ∀ (children : List DomNode) (content : GroupContent) (body : DomForest),
      content.elements = visitParticleChildren body →
      (children.foldl (fun content child =>
        match child.element.xs with
        | .sequence => .sequence (visitParticleChildren child.children)
        | .all => .all (visitParticleChildren child.children)
        | .choice => .choice (visitParticleChildren child.children)
        | _ => content) content).elements =
      visitParticleChildren (children.foldl (fun body child =>
        if child.element.xs.groupKind.isSome then child.children else body) body) from
    this node.children.elements (.sequence []) .nil rfl
  intro children
  induction children with
  | nil => exact fun _ _ same => same
  | cons child rest ih =>
    intro content body same
    refine ih _ _ ?_
    cases kind : child.element.xs <;> simp only [kind] <;> first | exact same | rfl

theorem visit_targetNamespace (schema : RawSchema) (child : DomNode) :
    (schema.visit child).targetNamespace = schema.targetNamespace := by
  cases kind : child.element.xs <;> cases named : child.element.attribute "name".toList <;>
    simp only [RawSchema.visit, kind, named, Option.map_none, Option.map_some] <;> (repeat' split) <;> rfl

theorem visit_groups (schema : RawSchema) (child : DomNode) (q : QName) :
    (schema.visit child).groups.lookup q =
      if declaresGroup schema.targetNamespace q child then visitGroupDef child else schema.groups.lookup q := by
  by_cases group : child.element.xs = .group
  · cases named : child.element.attribute "name".toList with
    | none => simp only [RawSchema.visit, declaresGroup, group, named, Option.map_none]; simp
    | some name =>
      simp only [RawSchema.visit, declaresGroup, visitGroupDef, group, named, Option.map_some,
        true_and, Option.some.injEq, decide_eq_true_eq]
      by_cases here : qualifyName name schema.targetNamespace = q
      · rw [if_pos here, ← here, AList.lookup_insert]
      · rw [if_neg here, AList.lookup_insert_ne (Ne.symm here)]
  · have no : declaresGroup schema.targetNamespace q child = false := by simp [declaresGroup, group]
    rw [no, if_neg Bool.false_ne_true]
    cases kind : child.element.xs <;> first
      | exact absurd kind group
      | (cases named : child.element.attribute "name".toList <;>
          simp only [RawSchema.visit, kind, named, Option.map_none, Option.map_some] <;> (repeat' split) <;> rfl)

theorem parseSchema_groups (document : DomNode) (q : QName) :
    (parseSchema document).groups.lookup q =
    (document.children.elements.reverse.find?
      (declaresGroup (document.element.attribute "targetNamespace".toList) q)).bind visitGroupDef := by
  suffices ∀ (children : List DomNode) (schema : RawSchema),
      (children.foldl RawSchema.visit schema).groups.lookup q =
        ((children.reverse.find? (declaresGroup schema.targetNamespace q)).map visitGroupDef).getD
          (schema.groups.lookup q) by
    rw [parseSchema, this]
    cases found : document.children.elements.reverse.find?
      (declaresGroup (document.element.attribute "targetNamespace".toList) q) with
    | none => simp only [RawSchema.initial, found]; rfl
    | some child => simp only [RawSchema.initial, found]; rfl
  intro children
  induction children with
  | nil => exact fun _ => rfl
  | cons child rest ih =>
    intro schema
    rw [List.foldl_cons, ih, visit_targetNamespace, visit_groups, List.reverse_cons,
      List.find?_append]
    cases rest.reverse.find? (declaresGroup schema.targetNamespace q) with
    | some later => rfl
    | none =>
      rw [Option.none_or, List.find?_singleton]
      split <;> rfl

theorem visitGroupDef_of_declares {targetNamespace : Option Text} {q : QName} {child : DomNode}
    (declares : declaresGroup targetNamespace q child = true) : (visitGroupDef child).isSome := by
  simp only [declaresGroup, decide_eq_true_eq] at declares
  obtain ⟨name, named, _⟩ := Option.map_eq_some_iff.mp declares.2
  rw [visitGroupDef, named]
  rfl

/-- The groups of the flat map are the declared ones. -/
theorem ofDocuments_groups (documents : List DomNode) (q : QName) :
    (FlatTypeMap.ofDocuments (documents.map parseSchema)).groups.lookup q =
      (groupDeclared documents q).bind visitGroupDef := by
  refine Kind.groups.lookup_ofDocuments.trans ?_
  rw [groupDeclared, ← List.map_reverse]
  induction documents.reverse with
  | nil => rfl
  | cons document rest ih =>
    rw [List.map_cons, List.findSome?_cons, List.findSome?_cons, ih]
    simp only [Kind.groups, parseSchema_groups]
    cases found : document.children.elements.reverse.find?
      (declaresGroup (document.element.attribute "targetNamespace".toList) q) with
    | none => rfl
    | some node =>
      obtain ⟨group, defined⟩ := Option.isSome_iff_exists.mp (visitGroupDef_of_declares (List.find?_some found))
      simp only [Option.bind_some, defined]

/-- A declared group is there for the resolver to expand. -/
theorem declared_group_elements {q : QName} {node : DomNode}
    (declared : groupDeclared documents q = some node) :
    ((FlatTypeMap.ofDocuments (documents.map parseSchema)).groups.lookup q).map (·.content.elements) =
      some (visitParticleChildren (groupBody node)) := by
  obtain ⟨document, _, found⟩ := List.exists_of_findSome?_eq_some declared
  obtain ⟨group, defined⟩ := Option.isSome_iff_exists.mp (visitGroupDef_of_declares (List.find?_some found))
  obtain ⟨name, _, same⟩ := Option.map_eq_some_iff.mp defined
  rw [ofDocuments_groups, declared, Option.bind_some, defined, Option.map_some, ← same,
    groupContent_elements]

end SoapServer.Xsd
