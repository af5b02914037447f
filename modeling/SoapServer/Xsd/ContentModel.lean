import SoapServer.Library.ContentModels
import SoapServer.Markup.Namespaces
import SoapServer.Xsd.Entries
import SoapServer.Xsd.Visibility

/-! The content model that a complex type definition means in the schema language, and the
names that the flattening of the definition demands. -/

set_option autoImplicit false

namespace SoapServer.Xsd

open Markup (Text IsNcName trimWhitespace localName)
open ContentModels
open Maps Loops

/-! The content model, read from the definition. -/

/-- A name without a prefix, which is what the check of a request compares. -/
structure NcName where
  text : Text
  proper : IsNcName text

def ncName (s : Text) : Option NcName := if proper : IsNcName s then some ⟨s, proper⟩ else none

inductive Leaf where
  | named (name : NcName)
  | wildcard

/-- The elements of a body that a leaf allows, by local name. -/
def Leaf.admits : Leaf → NcName → Prop
  | .named name, other => other = name
  | .wildcard, _ => True

def Leaf.forces (n : Text) : Leaf → Bool
  | .named name => name.text = n
  | .wildcard => false

theorem Leaf.forces_iff (n : Text) (leaf : Leaf) :
    (∀ other, leaf.admits other → other.text = n) ↔ leaf.forces n = true := by
  cases leaf with
  | named name => simp [admits, forces]
  | wildcard =>
    -- two names show that a wildcard forces neither
    refine iff_of_false (fun all => ?_) Bool.false_ne_true
    have a := all ⟨"a".toList, by decide⟩ trivial
    have b := all ⟨"b".toList, by decide⟩ trivial
    exact absurd (a.trans b.symm) (by decide)

def decimal (digits : Text) : Option Nat :=
  if digits ≠ [] ∧ digits.all Char.isDigit then
    some (digits.foldl (fun n c => 10 * n + (c.toNat - '0'.toNat)) 0)
  else none

/-- A nonNegativeInteger, whose surrounding whitespace does not count. -/
def nonNegativeInteger (v : Text) : Option Nat :=
  match trimWhitespace v with
  | '+' :: digits => decimal digits
  | '-' :: digits => (decimal digits).filter (· = 0)
  | digits => decimal digits

def readOccurs (e : DomElement) : Option Occurs := do
  let min ←
    match e.attribute "minOccurs".toList with
    | some v => nonNegativeInteger v
    | none => some 1
  let max ←
    match e.attribute "maxOccurs".toList with
    | some v =>
      if trimWhitespace v = "unbounded".toList then some none else (nonNegativeInteger v).map some
    | none => some (some 1)
  some ⟨min, max⟩

/-- The name of the elements that an element particle allows: its own or that it refers to. -/
def readName (e : DomElement) : Option NcName :=
  match e.attribute "ref".toList with
  | some v => ncName (localName (trimWhitespace v))
  | none => (e.attribute "name".toList).bind fun v => ncName (trimWhitespace v)

def XsName.groupKind : XsName → Option GroupKind
  | .sequence => some .sequence
  | .choice => some .choice
  | .all => some .all
  | _ => none

/-- A wildcard whose list of namespaces is empty. -/
def admitsNothing (e : DomElement) : Bool := ((e.attribute "namespace".toList).map trimWhitespace) = some []

/-- The particles among the children of a group, when they are all elements, wildcards and
groups with proper names and bounds. -/
def readParticles : DomForest → Option (Particles Leaf)
  | .nil => some .nil
  | .text _ rest | .other rest => readParticles rest
  | .element e children rest => do
    let rest ← readParticles rest
    match e.xs, e.xs.groupKind with
    | .element, _ => some (.leaf (.named (← readName e)) (← readOccurs e) rest)
    | .any, _ =>
      let occurs ← readOccurs e
      some (if admitsNothing e then .group .choice occurs .nil rest else .leaf .wildcard occurs rest)
    | .other, _ => some rest
    | _, some kind => some (.group kind (← readOccurs e) (← readParticles children) rest)
    | _, none => none

/-- Whether a child of a complex type makes up its content. -/
def XsName.isContent : XsName → Bool
  | .sequence | .choice | .all | .group | .complexContent | .simpleContent => true
  | _ => false

def contentNodes (children : DomForest) : List DomNode := children.elements.filter (·.element.xs.isContent)

/-- The content model of a complex type that is built from elements, wildcards and groups. -/
def readModel (children : DomForest) : Option (Model Leaf) :=
  match contentNodes children with
  | [] => some ⟨.sequence, .once, .nil⟩
  | [node] => do some ⟨← node.element.xs.groupKind, ← readOccurs node.element, ← readParticles node.children⟩
  | _ => none

/-! The same children, as the visitors take them. -/

/-- An element or a wildcard among the children of a group or, however deep, in its groups. -/
inductive Within : DomForest → DomNode → Prop
  | child {siblings : DomForest} {node : DomNode} (member : node ∈ siblings.elements) : Within siblings node
  | nested {siblings : DomForest} {node inner : DomNode} (member : node ∈ siblings.elements)
      (group : node.element.xs.groupKind.isSome) (deeper : Within node.children inner) : Within siblings inner

/-- The particle of a node. -/
def particleOf (node : DomNode) : Option XsdElement :=
  match node.element.xs with
  | .element => some (visitElement node)
  | .any => some (visitAny node.element)
  | _ => none

theorem within_cons {e : DomElement} {children rest : DomForest} {node : DomNode} :
    Within (.element e children rest) node ↔
      node = ⟨e, children⟩ ∨ e.xs.groupKind.isSome ∧ Within children node ∨ Within rest node := by
  constructor
  · intro within
    cases within with
    | child member =>
      rcases List.mem_cons.mp member with same | member
      · exact .inl same
      · exact .inr (.inr (.child member))
    | nested member group deeper =>
      rcases List.mem_cons.mp member with rfl | member
      · exact .inr (.inl ⟨group, deeper⟩)
      · exact .inr (.inr (.nested member group deeper))
  · rintro (rfl | ⟨group, within⟩ | within)
    · exact .child (.head _)
    · exact .nested (.head _) group within
    · cases within with
      | child member => exact .child (.tail _ member)
      | nested member group deeper => exact .nested (.tail _ member) group deeper

theorem within_congr {siblings others : DomForest} (same : siblings.elements = others.elements)
    {node : DomNode} : Within siblings node ↔ Within others node := by
  constructor
  · intro within
    cases within with
    | child member => exact .child (same ▸ member)
    | nested member group deeper => exact .nested (same ▸ member) group deeper
  · intro within
    cases within with
    | child member => exact .child (same.symm ▸ member)
    | nested member group deeper => exact .nested (same.symm ▸ member) group deeper

/-- The flattened particles of a group are those of the nodes within it. -/
theorem mem_visitParticleChildren {siblings : DomForest} {el : XsdElement} :
    el ∈ visitParticleChildren siblings ↔ ∃ node, Within siblings node ∧ particleOf node = some el := by
  induction siblings with
  | nil =>
    simp only [visitParticleChildren, List.not_mem_nil, false_iff, not_exists, not_and]
    intro node within
    cases within with
    | child member => cases member
    | nested member => cases member
  | text s rest ih =>
    rw [visitParticleChildren, ih]
    exact exists_congr fun node => and_congr_left' (within_congr (by rfl))
  | other rest ih =>
    rw [visitParticleChildren, ih]
    exact exists_congr fun node => and_congr_left' (within_congr (by rfl))
  | element e children rest kidsIH restIH =>
    rw [visitParticleChildren, List.mem_append, restIH]
    simp only [within_cons, or_and_right, exists_or, exists_eq_left]
    rw [← or_assoc]
    refine or_congr ?_ Iff.rfl
    cases kind : e.xs <;> simp [particleOf, kind, XsName.groupKind, visitElement, kidsIH, eq_comm]

/-- What `visit_sequence`, `visit_all` and `visit_choice` make of the flattened particles. -/
def groupContentOf : GroupKind → List XsdElement → ComplexContent
  | .sequence => .sequence
  | .choice => .choice
  | .all => .all

theorem typeContent_of_nodes {children : DomForest} (content : ComplexContent) :
    (contentNodes children = [] → typeContent content children = content) ∧
    ∀ node kind, contentNodes children = [node] → node.element.xs.groupKind = some kind →
      typeContent content children = groupContentOf kind (visitParticleChildren node.children) := by
  induction children generalizing content with
  | nil => exact ⟨fun _ => rfl, fun _ _ single => by cases single⟩
  | text s rest ih => exact ih content
  | other rest ih => exact ih content
  | element e inner rest _ ih =>
    by_cases isContent : e.xs.isContent
    · have nodes : contentNodes (.element e inner rest) = ⟨e, inner⟩ :: contentNodes rest := by
        simp [contentNodes, DomForest.elements, isContent]
      rw [nodes]
      refine ⟨fun empty => (by cases empty), fun node kind single group => ?_⟩
      obtain ⟨rfl, others⟩ := List.cons_eq_cons.mp single
      rw [typeContent, (ih _).1 others]
      dsimp only at group
      cases name : e.xs <;> rw [name] at group <;> cases group <;> rfl
    · have nodes : contentNodes (.element e inner rest) = contentNodes rest := by
        simp [contentNodes, DomForest.elements, isContent]
      have kept : typeContent content (.element e inner rest) = typeContent content rest := by
        rw [typeContent]
        cases name : e.xs <;> simp_all [XsName.isContent]
      rw [nodes, kept]
      exact ih content

/-! The demands. -/

/-- An element stands for itself, for the element it refers to, or for nothing. -/
def FlatTypeMap.standsFor (flat : FlatTypeMap) (el : XsdElement) : Option XsdElement :=
  match el.reference with
  | none => some el
  | some q =>
    match flat.referent q with
    | some (.inr globalEl) => some globalEl
    | some (.inl _) | none => none

variable {flat : FlatTypeMap}

/-- What stands, in the end, for some of the elements: references are followed over groups. -/
def Stands (flat : FlatTypeMap) (els : List XsdElement) (out : XsdElement) : Prop :=
  ∃ particle, Particle flat els particle ∧ flat.standsFor particle = some out

theorem not_stands_nil {out : XsdElement} : ¬ Stands flat [] out := by
  rintro ⟨particle, among, _⟩
  cases among with
  | self member => cases member
  | inside member => cases member

theorem stands_cons {first out : XsdElement} {rest : List XsdElement} :
    Stands flat (first :: rest) out ↔ flat.standsFor first = some out ∨
      (∃ q group, first.reference = some q ∧ flat.referent q = some (.inl group) ∧
        Stands flat group.content.elements out) ∨ Stands flat rest out := by
  constructor
  · rintro ⟨particle, among, stands⟩
    rcases particle_cons among with rfl | ⟨q, group, refers, found, deeper⟩ | later
    · exact .inl stands
    · exact .inr (.inl ⟨q, group, refers, found, particle, deeper, stands⟩)
    · exact .inr (.inr ⟨particle, later, stands⟩)
  · rintro (stands | ⟨q, group, refers, found, particle, deeper, stands⟩ | ⟨particle, later, stands⟩)
    · exact ⟨first, .self (.head _), stands⟩
    · exact ⟨particle, .inside (.head _) refers found deeper, stands⟩
    · exact ⟨particle, later.tail, stands⟩

theorem stands_iff_exists {els : List XsdElement} {out : XsdElement} :
    Stands flat els out ↔ ∃ el ∈ els, Stands flat [el] out := by
  induction els with
  | nil => simp [not_stands_nil]
  | cons first rest ih =>
    rw [stands_cons, ih, List.exists_mem_cons_iff, @stands_cons flat first out []]
    simp only [not_stands_nil, or_false, or_assoc]

/-- The expansion of some particles holds what stands for them. -/
theorem Expands.mem_iff {els out : List XsdElement} (expands : Expands flat els out)
    {el : XsdElement} :
    el ∈ out ↔ Stands flat els el := by
  induction expands with
  | nil => simp [not_stands_nil]
  | own plain after ih =>
    rw [List.mem_cons, ih, stands_cons]
    simp [FlatTypeMap.standsFor, plain, eq_comm]
  | group refers found inside after insideIH afterIH =>
    rw [List.mem_append, insideIH, afterIH, stands_cons]
    simp [FlatTypeMap.standsFor, refers, found]
  | element refers found after ih =>
    rw [List.mem_cons, ih, stands_cons]
    simp [FlatTypeMap.standsFor, refers, found, eq_comm]
  | missing refers absent after ih =>
    rw [ih, stands_cons]
    simp [FlatTypeMap.standsFor, refers, absent]

/-- A name that a type definition demands of every request: that of an element or wildcard
somewhere in its group, or of what stands for it, that has to occur if it is taken alone. -/
def Demands (flat : FlatTypeMap) (children : DomForest) (n : Text) : Prop :=
  ∃ top ∈ contentNodes children, ∃ node el out, Within top.children node ∧ particleOf node = some el ∧
    Stands flat [el] out ∧ 0 < out.minOccurs ∧ out.name = some n

end SoapServer.Xsd
