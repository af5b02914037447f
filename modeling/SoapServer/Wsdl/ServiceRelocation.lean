import SoapServer.TreeScanner
import SoapServer.Wsdl.ServicePorts

/-! The definitions in the WSDL that is served for one service: those of the document, with
the new address at the ports of the service. -/

set_option autoImplicit false

namespace SoapServer.Wsdl

open Markup
open SoapServer.Tree (Namespaces elementOf forestOf forestOf_data forestOf_empty forestOf_element documentTree ReadsAs Predefined isValueChar)

/-! What the definitions should be. -/

/-- A port has the new address if it had one. -/
def relocatedPort (u : Text) (node : DomNode) (p : Port) : Port :=
  if ∃ child ∈ childrenNamed node address, (child.element.attribute location).isSome then { p with address := u } else p

def relocatedService (u : Text) (node : DomNode) : Parsed Service := do
  let svc ← parseService node
  .ok { svc with ports := List.zipWith (relocatedPort u) (childrenNamed node port) svc.ports }

/-- One child of the root: the services of the name are relocated, all else is read as it is. -/
def WsdlDefinition.visitRelocated (u serviceName : Text) (definition : WsdlDefinition)
    (child : DomNode) :
    Parsed WsdlDefinition :=
  if IsService serviceName child.element then do
    let svc ← relocatedService u child
    .ok { definition with services := definition.services.insert svc.name svc }
  else definition.visit child

/-- The same services but that of the name, which is read from a child of the root and has the
new address at its ports. -/
structure ServicesRelocated (u serviceName : Text) (nodes : List DomNode)
    (services services' : Maps.HashMap Text Service) : Prop where
  others : ∀ name, name ≠ serviceName → services'.lookup name = services.lookup name
  absent : services.lookup serviceName = none → services'.lookup serviceName = none
  own : ∀ svc, services.lookup serviceName = some svc → ∃ node ∈ nodes, IsService serviceName node.element ∧
    parseService node = .ok svc ∧ services'.lookup serviceName =
      some { svc with ports := List.zipWith (relocatedPort u) (childrenNamed node port) svc.ports }

/-- The same definition but for the ports of the service. -/
def Relocated (u serviceName : Text) (root : DomNode) (d d' : WsdlDefinition) : Prop :=
  ∃ services, d' = { d with services } ∧ ServicesRelocated u serviceName root.children.elements d.services services

/-! Trees of the forests that are written. -/

variable {deref : Text → Option Text} {u raw serviceName : Text} {inherited : Namespaces}
    {c : Content}

/-- An address with the new location, any other element as it is. -/
def rebuilt (u : Text)
    (e : DomElement) : DomElement := if e.name = address then e.setValue location u else e

theorem elementOf_rebuildTag (reads : ReadsAs deref raw u) {tag : Tag} {e : DomElement}
    (run : elementOf deref inherited tag = some e) :
    elementOf deref inherited (rebuildTag raw tag) = some (rebuilt u e) := by
  unfold rebuildTag rebuilt
  rw [Tree.elementOf_localName run]
  split
  · exact Tree.elementOf_setValue location_plain reads run
  · exact run

theorem rebuilt_name (u : Text) (e : DomElement) : (rebuilt u e).name = e.name := by
  unfold rebuilt
  split <;> rfl

theorem rebuilt_namespaces (u : Text) (e : DomElement) :
    (rebuilt u e).namespaces = e.namespaces := by
  unfold rebuilt
  split <;> rfl

/-- Two nodes of which one has an address rebuilt. -/
def NodeRebuilt (u : Text) (n n' : DomNode) : Prop := n'.element = rebuilt u n.element

theorem forestOf_rebuild (reads : ReadsAs deref raw u) {f : DomForest}
    (run : forestOf deref inherited c = some f) :
    ∃ f', forestOf deref inherited (rebuild raw c) = some f' ∧ List.Forall₂ (NodeRebuilt u) f.elements f'.elements := by
  induction c generalizing inherited f with
  | nil =>
    cases run
    exact ⟨.nil, rfl, .nil⟩
  | data d rest ih =>
    obtain ⟨after, restRun, elements, others⟩ := forestOf_data run
    obtain ⟨after', restRun', same⟩ := ih restRun
    obtain ⟨f', run', elements'⟩ := others _ _ restRun'
    exact ⟨f', run', by rwa [elements, elements']⟩
  | empty tag rest ih =>
    obtain ⟨e, element, after, restRun, rfl⟩ := forestOf_empty.mp run
    obtain ⟨after', restRun', same⟩ := ih restRun
    exact ⟨_, forestOf_empty.mpr ⟨_, elementOf_rebuildTag reads element, after', restRun', rfl⟩,
      .cons rfl same⟩
  | element tag kids rest kidsIH restIH =>
    obtain ⟨e, element, children, kidsRun, after, restRun, rfl⟩ := forestOf_element.mp run
    obtain ⟨children', kidsRun', _⟩ := kidsIH kidsRun
    obtain ⟨after', restRun', same⟩ := restIH restRun
    rw [← rebuilt_namespaces u e] at kidsRun'
    exact ⟨_, forestOf_element.mpr ⟨_, elementOf_rebuildTag reads element, children', kidsRun', after', restRun', rfl⟩,
      .cons rfl same⟩

/-- Two children of the service: a port keeps its element, and its addresses are rebuilt. -/
structure ChildServed (u : Text) (n n' : DomNode) : Prop where
  name : n'.element.name = n.element.name
  port : n.element.name = port → n'.element = n.element ∧
    List.Forall₂ (NodeRebuilt u) n.children.elements n'.children.elements

theorem ChildServed.of_other {n n' : DomNode} (name : n'.element.name = n.element.name)
    (other : n.element.name ≠ Wsdl.port) : ChildServed u n n' :=
  ⟨name, fun called => absurd called other⟩

theorem forestOf_serveChildren (reads : ReadsAs deref raw u) (open_ : Bool) {f : DomForest}
    (run : forestOf deref inherited c = some f) :
    ∃ f', forestOf deref inherited (serveChildren raw open_ c) = some f' ∧
      List.Forall₂ (ChildServed u) f.elements f'.elements := by
  induction c generalizing open_ f with
  | nil =>
    cases run
    exact ⟨.nil, rfl, .nil⟩
  | data d rest ih =>
    obtain ⟨after, restRun, elements, others⟩ := forestOf_data run
    obtain ⟨after', restRun', same⟩ := ih open_ restRun
    obtain ⟨f', run', elements'⟩ := others _ _ restRun'
    exact ⟨f', run', by rwa [elements, elements']⟩
  | empty tag rest ih =>
    obtain ⟨e, element, after, restRun, rfl⟩ := forestOf_empty.mp run
    have called := Tree.elementOf_localName element
    rw [serveChildren, called]
    split
    -- an empty port is kept and leaves the port open
    next isPort =>
      obtain ⟨after', restRun', same⟩ := ih true restRun
      exact ⟨_, forestOf_empty.mpr ⟨e, element, after', restRun', rfl⟩,
        .cons ⟨rfl, fun _ => ⟨rfl, .nil⟩⟩ same⟩
    -- another element is rebuilt only behind an empty port
    next other =>
      obtain ⟨after', restRun', same⟩ := ih open_ restRun
      cases open_ with
      | false => exact ⟨_, forestOf_empty.mpr ⟨e, element, after', restRun', rfl⟩, .cons (.of_other rfl other) same⟩
      | true =>
        exact ⟨_, forestOf_empty.mpr ⟨_, elementOf_rebuildTag reads element, after', restRun', rfl⟩,
          .cons (.of_other (rebuilt_name u e) other) same⟩
  | element tag kids rest _ ih =>
    obtain ⟨e, element, children, kidsRun, after, restRun, rfl⟩ := forestOf_element.mp run
    obtain ⟨children', kidsRun', inner⟩ := forestOf_rebuild reads kidsRun
    obtain ⟨after', restRun', same⟩ := ih false restRun
    have called := Tree.elementOf_localName element
    rw [serveChildren, called]
    split
    -- a port is kept, and the elements inside of it are rebuilt
    next isPort =>
      exact ⟨_, forestOf_element.mpr ⟨e, element, children', kidsRun', after', restRun', rfl⟩,
        .cons ⟨rfl, fun _ => ⟨rfl, inner⟩⟩ same⟩
    next other =>
      cases open_ with
      | false =>
        exact ⟨_, forestOf_element.mpr ⟨e, element, children, kidsRun, after', restRun', rfl⟩,
          .cons (.of_other rfl other) same⟩
      | true =>
        rw [← rebuilt_namespaces u e] at kidsRun'
        exact ⟨_, forestOf_element.mpr ⟨_, elementOf_rebuildTag reads element, children', kidsRun', after', restRun', rfl⟩,
          .cons (.of_other (rebuilt_name u e) other) same⟩

/-- Two children of the root: the service has its ports relocated, and all else is the same. -/
structure SectionServed (u serviceName : Text) (n n' : DomNode) : Prop where
  service : IsService serviceName n.element → n'.element = n.element ∧
    List.Forall₂ (ChildServed u) n.children.elements n'.children.elements
  other : ¬ IsService serviceName n.element → n' = n

theorem forestOf_serveSections (reads : ReadsAs deref raw u) {names : List Text}
    (fit : SectionsFit deref serviceName names inherited c) {f : DomForest}
    (run : forestOf deref inherited c = some f) :
    ∃ f', forestOf deref inherited (serveSections raw serviceName c) = some f' ∧
      List.Forall₂ (SectionServed u serviceName) f.elements f'.elements := by
  induction c generalizing f with
  | nil =>
    cases run
    exact ⟨.nil, rfl, .nil⟩
  | data d rest ih =>
    obtain ⟨after, restRun, elements, others⟩ := forestOf_data run
    obtain ⟨after', restRun', same⟩ := ih fit restRun
    obtain ⟨f', run', elements'⟩ := others _ _ restRun'
    exact ⟨f', run', by rwa [elements, elements']⟩
  | empty tag rest ih =>
    obtain ⟨e, element, after, restRun, rfl⟩ := forestOf_empty.mp run
    obtain ⟨after', restRun', same⟩ := ih fit.2 restRun
    have served : SectionServed u serviceName ⟨e, .nil⟩ ⟨e, .nil⟩ :=
      ⟨fun _ => ⟨rfl, .nil⟩, fun _ => rfl⟩
    exact ⟨_, forestOf_empty.mpr ⟨e, element, after', restRun', rfl⟩, .cons served same⟩
  | element tag kids rest _ ih =>
    obtain ⟨e, element, children, kidsRun, after, restRun, rfl⟩ := forestOf_element.mp run
    obtain ⟨isNamed, _, later⟩ := fit
    obtain ⟨after', restRun', same⟩ := ih later restRun
    rw [serveSections]
    -- the name in the source picks the element that the parser takes for the service
    by_cases named : NamedService serviceName tag
    · obtain ⟨children', kidsRun', inner⟩ := forestOf_serveChildren reads false kidsRun
      have isService := (isNamed e element).mpr named
      have served : SectionServed u serviceName ⟨e, children⟩ ⟨e, children'⟩ :=
        ⟨fun _ => ⟨rfl, inner⟩, fun other => absurd isService other⟩
      rw [if_pos named]
      exact ⟨_, forestOf_element.mpr ⟨e, element, children', kidsRun', after', restRun', rfl⟩,
        .cons served same⟩
    · have other : ¬ IsService serviceName e :=
        fun isService => named ((isNamed e element).mp isService)
      have served : SectionServed u serviceName ⟨e, children⟩ ⟨e, children⟩ :=
        ⟨fun isService => absurd isService other, fun _ => rfl⟩
      rw [if_neg named]
      exact ⟨_, forestOf_element.mpr ⟨e, element, children, kidsRun, after', restRun', rfl⟩,
        .cons served same⟩

/-! Parsing the tree that is served. -/

theorem attribute_setValue (e : DomElement) (name value : Text) :
    (e.setValue name value).attribute name = (e.attribute name).map fun _ => value := by
  unfold DomElement.attribute DomElement.setValue
  induction e.attributes with
  | nil => rfl
  | cons a rest ih =>
    by_cases named : a.ns = none ∧ a.name = name
    · simp [DomAttribute.setValue, named]
    · rw [List.map_cons, DomAttribute.setValue, if_neg named,
        List.find?_cons_of_neg (by simpa using named),
        List.find?_cons_of_neg (by simpa using named)]
      exact ih

theorem addresses_rebuilt {nodes nodes' : List DomNode}
    (served : List.Forall₂ (NodeRebuilt u) nodes nodes') :
    ((nodes'.filter fun n => n.element.name = address).findSome? fun n => n.element.attribute location) =
      ((nodes.filter fun n => n.element.name = address).findSome? fun n => n.element.attribute location).map
        fun _ => u := by
  induction served with
  | nil => rfl
  | @cons n n' nodes nodes' same _ ih =>
    have name : n'.element.name = n.element.name := by rw [same, rebuilt_name]
    by_cases called : n.element.name = address
    · have value : n'.element.attribute location = (n.element.attribute location).map fun _ => u := by
        rw [same, rebuilt, if_pos called, attribute_setValue]
      rw [List.filter_cons_of_pos (by simpa using name.trans called),
        List.filter_cons_of_pos (by simpa using called),
        List.findSome?_cons, List.findSome?_cons, value]
      cases n.element.attribute location with
      | none => exact ih
      | some v => rfl
    · rw [List.filter_cons_of_neg (by simpa [name] using called),
        List.filter_cons_of_neg (by simpa using called)]
      exact ih

theorem parsePort_rebuilt {n n' : DomNode} (element : n'.element = n.element)
    (served : List.Forall₂ (NodeRebuilt u) n.children.elements n'.children.elements) :
    parsePort n' = (parsePort n).map (relocatedPort u n) := by
  have addresses : ((childrenNamed n' "address".toList).findSome? fun child => child.element.attribute "location".toList) =
      ((childrenNamed n "address".toList).findSome? fun child => child.element.attribute "location".toList).map
        fun _ => u := addresses_rebuilt served
  unfold parsePort
  rw [element, addresses]
  cases requiredAttribute n.element "name".toList "port/@name".toList with
  | error e => rfl
  | ok name =>
    cases requiredAttribute n.element "binding".toList "port/@binding".toList with
    | error e => rfl
    | ok bindingStr =>
      simp only [bind, Except.bind]
      cases resolveQnameStr bindingStr n.element with
      | error e => rfl
      | ok binding =>
        rw [Except.map, relocatedPort]
        cases found : (childrenNamed n "address".toList).findSome? fun child => child.element.attribute "location".toList with
        | none =>
          have absent : ¬ ∃ child ∈ childrenNamed n address, (child.element.attribute location).isSome := by
            rintro ⟨child, member, some⟩
            have none_ : child.element.attribute location = none :=
              List.findSome?_eq_none_iff.mp found child member
            rw [none_] at some
            cases some
          rw [if_neg absent]
          rfl
        | some v =>
          obtain ⟨child, member, given⟩ := List.exists_of_findSome?_eq_some found
          have present : ∃ child ∈ childrenNamed n address, (child.element.attribute location).isSome :=
            ⟨child, member, Option.isSome_of_eq_some given⟩
          rw [if_pos present]
          rfl

/-- The ports of the service. -/
theorem mapM_parsePort {nodes nodes' : List DomNode}
    (served : List.Forall₂ (ChildServed u) nodes nodes') :
    (nodes'.filter fun n => n.element.name = port).mapM parsePort =
      ((nodes.filter fun n => n.element.name = port).mapM parsePort).map
        (List.zipWith (relocatedPort u) (nodes.filter fun n => n.element.name = port)) := by
  induction served with
  | nil => rfl
  | @cons n n' nodes nodes' same _ ih =>
    by_cases called : n.element.name = port
    · obtain ⟨element, inner⟩ := same.port called
      rw [List.filter_cons_of_pos (by simpa [same.name] using called),
        List.filter_cons_of_pos (by simpa using called),
        List.mapM_cons, List.mapM_cons, parsePort_rebuilt element inner, ih]
      cases parsePort n with
      | error e => rfl
      | ok p =>
        simp only [Except.map, bind, Except.bind]
        cases (nodes.filter fun n => n.element.name = port).mapM parsePort <;> rfl
    · rw [List.filter_cons_of_neg (by simpa [same.name] using called),
        List.filter_cons_of_neg (by simpa using called)]
      exact ih

theorem parseService_served {n n' : DomNode} (element : n'.element = n.element)
    (served : List.Forall₂ (ChildServed u) n.children.elements n'.children.elements) :
    parseService n' = relocatedService u n := by
  have ports : (childrenNamed n' "port".toList).mapM parsePort = ((childrenNamed n "port".toList).mapM parsePort).map
      (List.zipWith (relocatedPort u) (childrenNamed n port)) := mapM_parsePort served
  rw [relocatedService, parseService, parseService, element, ports]
  cases requiredAttribute n.element "name".toList "service/@name".toList with
  | error e => rfl
  | ok name =>
    simp only [bind, Except.bind]
    cases (childrenNamed n "port".toList).mapM parsePort <;> rfl

theorem visit_service {definition : WsdlDefinition} {child : DomNode}
    (isService : IsService serviceName child.element) :
    definition.visit child = (do
      let svc ← parseService child
      .ok { definition with services := definition.services.insert svc.name svc }) := by
  have other (name : Text) (different : service ≠ name) : child.element.name ≠ name := isService.2.1 ▸ different
  rw [WsdlDefinition.visit, if_neg (not_not.mpr isService.1), if_neg (other _ (by decide)),
    if_neg (other _ (by decide)),
    if_neg (other _ (by decide)), if_neg (other _ (by decide)), if_neg (other _ (by decide)),
    if_pos (show child.element.name = "service".toList from isService.2.1)]

theorem visit_served {definition : WsdlDefinition} {n n' : DomNode}
    (served : SectionServed u serviceName n n') :
    definition.visit n' = definition.visitRelocated u serviceName n := by
  unfold WsdlDefinition.visitRelocated
  by_cases isService : IsService serviceName n.element
  · obtain ⟨element, inner⟩ := served.service isService
    rw [if_pos isService, visit_service (element ▸ isService), parseService_served element inner]
  · rw [if_neg isService, served.other isService]

theorem foldlM_served {nodes nodes' : List DomNode}
    (served : List.Forall₂ (SectionServed u serviceName) nodes nodes')
    (definition : WsdlDefinition) :
    nodes'.foldlM WsdlDefinition.visit definition =
      nodes.foldlM (WsdlDefinition.visitRelocated u serviceName) definition := by
  induction served generalizing definition with
  | nil => rfl
  | cons same _ ih =>
    rw [List.foldlM_cons, List.foldlM_cons, visit_served same]
    exact congrArg _ (funext ih)

theorem parseService_name {node : DomNode} {svc : Service} (parsed : parseService node = .ok svc) :
    node.element.attribute "name".toList = some svc.name := by
  obtain ⟨name, required, parsed⟩ := Loops.bind_eq_ok.mp parsed
  obtain ⟨ports, _, read⟩ := Loops.bind_eq_ok.mp parsed
  cases read
  unfold requiredAttribute at required
  split at required
  next given => rw [given, ← Except.ok.inj required]
  next => cases required

theorem ServicesRelocated.insert_other {nodes : List DomNode}
    {services services' : Maps.HashMap Text Service}
    (same : ServicesRelocated u serviceName nodes services services') {svc : Service}
    (other : svc.name ≠ serviceName) :
    ServicesRelocated u serviceName nodes (services.insert svc.name svc) (services'.insert svc.name svc) := by
  refine ⟨fun name different => ?_, ?_, ?_⟩
  · by_cases here : name = svc.name
    · rw [here, AList.lookup_insert, AList.lookup_insert]
    · rw [AList.lookup_insert_ne here, AList.lookup_insert_ne here, same.others name different]
  · rw [AList.lookup_insert_ne other.symm, AList.lookup_insert_ne other.symm]
    exact same.absent
  · rw [AList.lookup_insert_ne other.symm, AList.lookup_insert_ne other.symm]
    exact same.own

theorem ServicesRelocated.insert_own {nodes : List DomNode}
    {services services' : Maps.HashMap Text Service}
    (same : ServicesRelocated u serviceName nodes services services') {node : DomNode}
    (member : node ∈ nodes) (isService : IsService serviceName node.element) {svc : Service}
    (parsed : parseService node = .ok svc) :
    ServicesRelocated u serviceName nodes (services.insert serviceName svc) (services'.insert serviceName
      { svc with ports := List.zipWith (relocatedPort u) (childrenNamed node port) svc.ports }) := by
  refine ⟨fun name different => ?_, fun absent => ?_, fun found given => ?_⟩
  · rw [AList.lookup_insert_ne different, AList.lookup_insert_ne different, same.others name different]
  · rw [AList.lookup_insert] at absent
    cases absent
  · rw [AList.lookup_insert] at given
    cases given
    exact ⟨node, member, isService, parsed, AList.lookup_insert _⟩

theorem visit_relocated {nodes : List DomNode} {n : DomNode} (member : n ∈ nodes)
    {d d₁ : WsdlDefinition} {services : Maps.HashMap Text Service}
    (same : ServicesRelocated u serviceName nodes d.services services) (run : d.visit n = .ok d₁) :
    ∃ services₁, WsdlDefinition.visitRelocated u serviceName { d with services } n =
        .ok { d₁ with services := services₁ } ∧
      ServicesRelocated u serviceName nodes d₁.services services₁ := by
  unfold WsdlDefinition.visitRelocated
  by_cases isService : IsService serviceName n.element
  · rw [visit_service isService] at run
    obtain ⟨svc, parsed, read⟩ := Loops.bind_eq_ok.mp run
    cases read
    -- the service is stored under the name that it was chosen by
    have name : svc.name = serviceName :=
      Option.some.inj ((parseService_name parsed).symm.trans isService.2.2)
    rw [if_pos isService, relocatedService, parsed]
    subst name
    exact ⟨_, rfl, same.insert_own member isService parsed⟩
  · rw [if_neg isService]
    unfold WsdlDefinition.visit at run ⊢
    simp only at run ⊢
    split_ifs at run ⊢ with foreign import_ types message portType binding isNamed
    · cases run
      exact ⟨services, rfl, same⟩
    · cases run
      exact ⟨services, rfl, same⟩
    · cases run
      exact ⟨services, rfl, same⟩
    · obtain ⟨msg, parsed, read⟩ := Loops.bind_eq_ok.mp run
      cases read
      exact ⟨services, by rw [parsed]; rfl, same⟩
    · obtain ⟨pt, parsed, read⟩ := Loops.bind_eq_ok.mp run
      cases read
      exact ⟨services, by rw [parsed]; rfl, same⟩
    · obtain ⟨b, parsed, read⟩ := Loops.bind_eq_ok.mp run
      cases read
      exact ⟨services, by rw [parsed]; rfl, same⟩
    · obtain ⟨svc, parsed, read⟩ := Loops.bind_eq_ok.mp run
      cases read
      -- another service has another name, and keeps its own place
      have other : svc.name ≠ serviceName := fun name =>
        isService ⟨not_not.mp foreign, isNamed, name ▸ parseService_name parsed⟩
      exact ⟨services.insert svc.name svc, by rw [parsed]; rfl, same.insert_other other⟩
    · cases run
      exact ⟨services, rfl, same⟩

theorem foldlM_relocated {all nodes : List DomNode} (among : ∀ n ∈ nodes, n ∈ all)
    {d d₁ : WsdlDefinition} {services : Maps.HashMap Text Service}
    (same : ServicesRelocated u serviceName all d.services services)
    (run : nodes.foldlM WsdlDefinition.visit d = .ok d₁) :
    ∃ services₁, nodes.foldlM (WsdlDefinition.visitRelocated u serviceName) { d with services } =
        .ok { d₁ with services := services₁ } ∧
      ServicesRelocated u serviceName all d₁.services services₁ := by
  induction nodes generalizing d services with
  | nil =>
    cases run
    exact ⟨services, rfl, same⟩
  | cons n rest ih =>
    obtain ⟨mid, first, later⟩ := Loops.foldlM_cons_eq_ok.mp run
    obtain ⟨services', step, same⟩ := visit_relocated (among n (.head _)) same first
    obtain ⟨services₁, steps, same⟩ := ih (fun m member => among m (.tail _ member)) same later
    exact ⟨services₁, Loops.foldlM_cons_eq_ok.mpr ⟨_, step, steps⟩, same⟩

/-! The whole document. -/

theorem rebuild_shape (raw : Text) (c : Content) : (rebuild raw c).shape = c.shape := by
  induction c with
  | nil => rfl
  | data d rest ih => rw [rebuild, Content.shape, Content.shape, ih]
  | empty tag rest ih => rw [rebuild, Content.shape, Content.shape, ih]
  | element tag kids rest kidsIH restIH => rw [rebuild, Content.shape, Content.shape, kidsIH, restIH]

theorem serveChildren_shape (raw : Text) (open_ : Bool) (c : Content) :
    (serveChildren raw open_ c).shape = c.shape := by
  induction c generalizing open_ with
  | nil => rfl
  | data d rest ih => rw [serveChildren, Content.shape, Content.shape, ih]
  | empty tag rest ih =>
    rw [serveChildren]
    split <;> rw [Content.shape, Content.shape, ih]
  | element tag kids rest _ ih =>
    rw [serveChildren]
    split_ifs
    · rw [Content.shape, Content.shape, rebuild_shape, ih]
    · rw [Content.shape, Content.shape, rebuild_shape, ih]
    · rw [Content.shape, Content.shape, ih]

theorem serveSections_shape (raw serviceName : Text) (c : Content) :
    (serveSections raw serviceName c).shape = c.shape := by
  induction c with
  | nil => rfl
  | data d rest ih => rw [serveSections, Content.shape, Content.shape, ih]
  | empty tag rest ih => rw [serveSections, Content.shape, Content.shape, ih]
  | element tag kids rest _ ih =>
    rw [serveSections, Content.shape, Content.shape, ih]
    split
    · rw [serveChildren_shape]
    · rfl

theorem serveDocument_shape (raw serviceName : Text) (c : Content) :
    (serveDocument raw serviceName c).shape = c.shape := by
  induction c with
  | nil => rfl
  | data d rest ih => rw [serveDocument, Content.shape, Content.shape, ih]
  | empty tag rest _ => rfl
  | element tag kids rest _ _ => rw [serveDocument, Content.shape, Content.shape, serveSections_shape]

theorem serveDocument_elements {tag : Tag} {kids : Content}
    (root : c.elements = [⟨tag, some kids⟩]) :
    (serveDocument raw serviceName c).elements = [⟨tag, some (serveSections raw serviceName kids)⟩] := by
  induction c with
  | nil => cases root
  | data d rest ih => exact ih root
  | empty tag rest _ => cases (List.cons.inj root).1
  | element own inner rest _ _ =>
    obtain ⟨same, bare⟩ := List.cons.inj root
    cases same
    exact congrArg _ bare

/-- A WSDL document: its text as a reader reports it, and its tree. -/
structure WsdlText (deref : Text → Option Text) (reader : RawReader) (bytes : Text)
    (events : List RawEvent) (c : Content) (root : Element) (node : DomNode) : Prop where
  text : bytes = events.flatMap RawEvent.source
  reads : reader bytes = stream events
  denotes : Denotes events c
  single : c.elements = [root]
  tree : documentTree deref root = some node

/-- The tree parser reads a text as XML has it: of the forest of this shape that the text
stands for, it returns the tree. -/
def ParsesText (deref : Text → Option Text) (parseXml : TreeParser) (c : Content)
    (text : Text) : Prop :=
  ∀ events' c' root' node', Denotes events' c' → c'.shape = c.shape → events'.flatMap RawEvent.source = text →
    c'.elements = [root'] → documentTree deref root' = some node' → parseXml text = .ok node'

/-- The service and its ports are told apart from all else by their names as they are written. -/
def ServiceFits (deref : Text → Option Text) (serviceName : Text) (root : Element) : Prop :=
  ∀ kids, root.kids = some kids → ∀ e, elementOf deref [] root.tag = some e →
    SectionsFit deref serviceName (servicePortNames serviceName kids) e.namespaces kids

theorem documentTree_element {tag : Tag} {kids : Content} {node : DomNode} :
    documentTree deref ⟨tag, some kids⟩ = some node ↔
      elementOf deref [] tag = some node.element ∧ forestOf deref node.element.namespaces kids = some node.children := by
  unfold documentTree
  have alone : (Element.mk tag (some kids)).alone = .element tag kids .nil := rfl
  rw [alone]
  constructor
  · intro tree
    split at tree
    next run =>
      obtain ⟨e, element, children, kidsRun, after, _, same⟩ := forestOf_element.mp run
      cases same
      cases tree
      exact ⟨element, kidsRun⟩
    next => cases tree
  · rintro ⟨element, kidsRun⟩
    rw [forestOf_element.mpr ⟨_, element, _, kidsRun, .nil, rfl, rfl⟩]

theorem documentTree_bare {tag : Tag} {node : DomNode}
    (tree : documentTree deref ⟨tag, none⟩ = some node) :
    node.children.elements = [] := by
  unfold documentTree at tree
  have alone : (Element.mk tag none).alone = .empty tag .nil := rfl
  rw [alone] at tree
  split at tree
  next run =>
    obtain ⟨e, _, after, _, same⟩ := forestOf_empty.mp run
    cases same
    cases tree
    rfl
  next => cases tree

theorem parseWsdl_eq_ok {parseXml : TreeParser} {bytes : Text} {node : DomNode}
    (tree : parseXml bytes = .ok node) {d : WsdlDefinition} :
    parseWsdl parseXml bytes = .ok d ↔ node.element.name = "definitions".toList ∧
      node.children.elements.foldlM WsdlDefinition.visit
        ⟨(node.element.attribute "targetNamespace".toList).getD [], [], [], ∅, ∅, ∅, ∅⟩ = .ok d := by
  unfold parseWsdl
  rw [tree]
  dsimp only
  by_cases named : node.element.name = "definitions".toList
  · rw [if_neg fun other => other named]
    exact (and_iff_right named).symm
  · rw [if_pos named]
    exact iff_of_false nofun fun both => named both.1

variable {ext : Externals} {reader : RawReader} {bytes : Text} {events : List RawEvent}
    {root : Element} {node : DomNode}

theorem rewritten_eq (document : WsdlText deref reader bytes events c root node)
    (named : serviceName ≠ []) :
    rewriteWsdlAddressForService ext reader bytes u serviceName =
      PortMatch.initial.written ext u (targetPortNames serviceName (stream events)) events := by
  rw [rewriteWsdlAddressForService, if_neg named, document.reads, rewritePorts_stream]

/-- A root without content is served as it is. -/
theorem rewritten_bare (document : WsdlText deref reader bytes events c root node)
    (named : serviceName ≠ []) (bare : root.kids = none) :
    rewriteWsdlAddressForService ext reader bytes u serviceName =
      (events.map RawEvent.tidy).flatMap RawEvent.source := by
  have noStarts : AllStarts (fun tag => ¬ NamedService serviceName tag) c := by
    refine allStarts_of_empty fun el member => ?_
    rw [document.single] at member
    exact List.mem_singleton.mp member ▸ bare
  have names : targetPortNames serviceName (stream events) = [] := by
    rw [targetPortNames, searchPorts_stream, search_outside document.denotes noStarts rfl]
    rfl
  have unnamed : c.AllTags fun tag => ¬ NamedPort [] tag :=
    allTags_of_forall (fun tag matched => by cases matched.2) c
  rw [rewritten_eq document named, names]
  exact (written_outside ext u document.denotes unnamed).2

/-- The WSDL that is served for a service has the definitions of the document, with the new
address at the ports of the service. -/
theorem only_service_relocated (escapes : ext.Escapes) (predefined : Predefined deref)
    (chars : ∀ c ∈ u, isValueChar c = true) (named : serviceName ≠ [])
    (document : WsdlText deref reader bytes events c root node) {parseXml : TreeParser}
    (parses : ∀ text ∈ [bytes, rewriteWsdlAddressForService ext reader bytes u serviceName],
      ParsesText deref parseXml c text)
    {d : WsdlDefinition} (accepted : parseWsdl parseXml bytes = .ok d) (fits : ServiceFits deref serviceName root) :
    ∃ d', parseWsdl parseXml (rewriteWsdlAddressForService ext reader bytes u serviceName) = .ok d' ∧
      Relocated u serviceName node d d' := by
  have reads : ReadsAs deref (ext.escape u) u := by
    rw [escapes]
    exact Tree.readsAs_escaped predefined chars
  have tree : parseXml bytes = .ok node :=
    parses bytes (by simp) events c root node document.denotes rfl document.text.symm document.single document.tree
  have served := parses (rewriteWsdlAddressForService ext reader bytes u serviceName) (by simp)
  obtain ⟨definitions, run⟩ := (parseWsdl_eq_ok tree).mp accepted
  have start : ServicesRelocated u serviceName node.children.elements (∅ : Maps.HashMap Text Service) ∅ :=
    ⟨fun _ _ => rfl, fun _ => rfl, fun _ given => by cases given⟩
  -- the loop over the children, with the new address in the service
  obtain ⟨services, relocated, same⟩ := foldlM_relocated (fun _ member => member) start run
  refine ⟨{ d with services }, ?_, services, rfl, same⟩
  obtain ⟨tag, kids⟩ := root
  cases kids with
  | none =>
    have text : rewriteWsdlAddressForService ext reader bytes u serviceName =
        (events.map RawEvent.tidy).flatMap RawEvent.source := rewritten_bare document named rfl
    have servedTree := served _ c _ node (denotes_tidy document.denotes) rfl text.symm document.single document.tree
    rw [documentTree_bare document.tree] at relocated
    rw [parseWsdl_eq_ok servedTree, documentTree_bare document.tree]
    exact ⟨definitions, relocated⟩
  | some kids =>
    obtain ⟨element, kidsRun⟩ := documentTree_element.mp document.tree
    have fit := fits kids rfl _ element
    have localName_ := (Tree.elementOf_localName element).trans definitions
    have notService : localName tag.name ≠ service := by rw [localName_]; decide
    have notPort : localName tag.name ≠ port := by rw [localName_]; decide
    -- the first pass finds the ports of the service, and the second rewrites behind them
    have names := search_document document.denotes document.single notService fit
    obtain ⟨events', written, denotes⟩ :=
      written_document reads.noTag reads.noQuote document.denotes document.single notPort fit
    obtain ⟨children, servedRun, sections⟩ := forestOf_serveSections reads fit kidsRun
    have servedTree := served events' _ _ ⟨node.element, children⟩ denotes (serveDocument_shape _ serviceName c)
      (by rw [rewritten_eq document named, names, written]) (serveDocument_elements document.single)
      (documentTree_element.mpr ⟨element, servedRun⟩)
    rw [parseWsdl_eq_ok servedTree]
    exact ⟨definitions, (foldlM_served sections _).trans relocated⟩

/-! Two services. -/

theorem parsesText_of_denotes {shape : Content} (denotes : Denotes events c)
    (same : c.shape = shape.shape) (single : c.elements = [root])
    (tree : documentTree deref root = some node) {parseXml : TreeParser} {text : Text}
    (source : events.flatMap RawEvent.source = text) (parsed : parseXml text = .ok node) :
    ParsesText deref parseXml shape text := by
  intro events' c' root' node' denotes' same' source' single' tree'
  obtain ⟨rfl, _⟩ := denotes_unique denotes denotes' (same.trans same'.symm) (x := []) (y := [])
    (by rw [source, source'])
  obtain rfl : root = root' := List.singleton_inj.mp (single.symm.trans single')
  obtain rfl : node = node' := Option.some.inj (tree.symm.trans tree')
  exact parsed

/-- A service with one port. -/
def serviceContent (name portName url : String) (rest : Content) : Content :=
  .element ⟨service, [⟨"name".toList, name.toList⟩]⟩
    (.element ⟨port, [⟨"name".toList, portName.toList⟩, ⟨"binding".toList, "B".toList⟩]⟩
      (.empty ⟨"soap:address".toList, [⟨location, url.toList⟩]⟩ .nil) .nil) rest

/-- A WSDL with two services, the port of the second one and both addresses given. -/
def twoServices (url portName otherUrl : String) : Content :=
  .element definitionsTag (serviceContent "S" "P" url (serviceContent "T" portName otherUrl .nil)) .nil

def textOf (c : Content) : Text := c.pieces.flatMap RawEvent.source

def nodeOf (c : Content) : DomNode :=
  match c.elements with
  | [root] => (documentTree Tree.predefinedEntity root).getD ⟨⟨none, [], [], []⟩, .nil⟩
  | _ => ⟨⟨none, [], [], []⟩, .nil⟩

/-- The tree parser that knows just the given documents. -/
def parsesContents (documents : List Content) : TreeParser := fun text =>
  match documents.find? fun c => textOf c = text with
  | some c => .ok (nodeOf c)
  | none => .error "unknown document".toList

/-- What a document must be for its text to be one. -/
structure WrittenDocument (c : Content) (root : Element) : Prop where
  tags : c.AllTags fun tag => tag.Lexical ∧ tag.QuoteFree ∧ tag.Unique
  data : c.AllData Data.Clean
  single : c.elements = [root]
  tree : documentTree Tree.predefinedEntity root = some (nodeOf c)

theorem WrittenDocument.wsdlText (document : WrittenDocument c root) :
    WsdlText Tree.predefinedEntity (fun _ => stream c.pieces) (textOf c) c.pieces c root (nodeOf c) :=
  ⟨rfl, rfl, denotes_pieces document.tags document.data, document.single, document.tree⟩

theorem WrittenDocument.parsesText (document : WrittenDocument c root) {shape : Content}
    (same : c.shape = shape.shape) {text : Text} (written : textOf c = text) {parseXml : TreeParser}
    (parsed : parseXml text = .ok (nodeOf c)) :
    ParsesText Tree.predefinedEntity parseXml shape text :=
  parsesText_of_denotes (denotes_pieces document.tags document.data) same document.single document.tree written parsed

/-- The root of such a WSDL. -/
def twoServicesRoot (url portName otherUrl : String) : Element :=
  ⟨definitionsTag, some (serviceContent "S" "P" url (serviceContent "T" portName otherUrl .nil))⟩

/-- Two ports with names of their own, before and after the service is relocated. -/
def ownPorts : Content := twoServices "http://old" "Q" "http://t"

def ownPortsServed : Content := twoServices "http://new/soap?a&amp;b" "Q" "http://t"

/-- Two ports with the same name. -/
def samePorts : Content := twoServices "http://old" "P" "http://t"

def samePortsServed : Content := twoServices "http://new/soap?a&amp;b" "P" "http://new/soap?a&amp;b"

def servedText (c : Content) : Text :=
  rewriteWsdlAddressForService .scanning (fun _ => stream c.pieces) (textOf c) newUrl "S".toList

theorem ownPorts_document :
    WrittenDocument ownPorts (twoServicesRoot "http://old" "Q" "http://t") :=
  ⟨by decide +kernel, by decide +kernel, rfl, by decide +kernel⟩

theorem ownPortsServed_document :
    WrittenDocument ownPortsServed (twoServicesRoot "http://new/soap?a&amp;b" "Q" "http://t") :=
  ⟨by decide +kernel, by decide +kernel, rfl, by decide +kernel⟩

theorem samePorts_document :
    WrittenDocument samePorts (twoServicesRoot "http://old" "P" "http://t") :=
  ⟨by decide +kernel, by decide +kernel, rfl, by decide +kernel⟩

theorem samePortsServed_document :
    WrittenDocument samePortsServed (twoServicesRoot "http://new/soap?a&amp;b" "P" "http://new/soap?a&amp;b") :=
  ⟨by decide +kernel, by decide +kernel, rfl, by decide +kernel⟩

/-- The tree parser of these documents reads both texts. -/
theorem parsesContents_texts {c served : Content} {root root' : Element}
    (document : WrittenDocument c root) (servedDocument : WrittenDocument served root')
    (same : served.shape = c.shape) (text : textOf served = servedText c)
    (different : textOf c ≠ textOf served) :
    ∀ s ∈ [textOf c, servedText c], ParsesText Tree.predefinedEntity (parsesContents [c, served]) c s := by
  intro s member
  rcases List.mem_cons.mp member with rfl | member
  · exact document.parsesText rfl rfl (by simp [parsesContents])
  · obtain rfl := List.mem_singleton.mp member
    exact servedDocument.parsesText same text (by simp [parsesContents, ← text, different])

theorem ownPorts_parsed : ∀ s ∈ [textOf ownPorts, servedText ownPorts],
    ParsesText Tree.predefinedEntity (parsesContents [ownPorts, ownPortsServed]) ownPorts s :=
  parsesContents_texts ownPorts_document ownPortsServed_document rfl (by decide +kernel) (by decide +kernel)

/-- The service is relocated where its port has a name of its own. -/
theorem ownPorts_relocated :
    ∃ d d', parseWsdl (parsesContents [ownPorts, ownPortsServed]) (textOf ownPorts) = .ok d ∧
      parseWsdl (parsesContents [ownPorts, ownPortsServed]) (servedText ownPorts) = .ok d' ∧
      Relocated newUrl "S".toList (nodeOf ownPorts) d d' := by
  have evaluated : ∃ d, parseWsdl (parsesContents [ownPorts, ownPortsServed]) (textOf ownPorts) = .ok d ∧ True := by
    decide +kernel
  obtain ⟨d, accepted, _⟩ := evaluated
  have fits : ServiceFits Tree.predefinedEntity "S".toList (twoServicesRoot "http://old" "Q" "http://t") := by
    unfold ServiceFits
    decide +kernel
  obtain ⟨d', parsed, relocated⟩ := only_service_relocated Externals.scanning_escapes Tree.predefinedEntity_predefined
    (by decide +kernel) (by decide) ownPorts_document.wsdlText ownPorts_parsed accepted fits
  exact ⟨d, d', accepted, parsed, relocated⟩

/-- The addresses of a service. -/
def WsdlDefinition.addressesOf (d : WsdlDefinition) (name : Text) : Option (List Text) :=
  (d.services.lookup name).map fun svc => svc.ports.map (·.address)

/-- The parser of the run below is one that reads both of its texts. -/
theorem samePorts_parsed : ∀ s ∈ [textOf samePorts, servedText samePorts],
    ParsesText Tree.predefinedEntity (parsesContents [samePorts, samePortsServed]) samePorts s :=
  parsesContents_texts samePorts_document samePortsServed_document rfl (by decide +kernel) (by decide +kernel)

/-- A port of another service is relocated too if it has the name of one of the service. -/
theorem samePorts_otherService_relocated :
    WsdlText Tree.predefinedEntity (fun _ => stream samePorts.pieces) (textOf samePorts) samePorts.pieces samePorts
        (twoServicesRoot "http://old" "P" "http://t") (nodeOf samePorts) ∧
      ∃ d d', parseWsdl (parsesContents [samePorts, samePortsServed]) (textOf samePorts) = .ok d ∧
        parseWsdl (parsesContents [samePorts, samePortsServed]) (servedText samePorts) = .ok d' ∧
        ¬ Relocated newUrl "S".toList (nodeOf samePorts) d d' := by
  have before : ∃ d, parseWsdl (parsesContents [samePorts, samePortsServed]) (textOf samePorts) = .ok d ∧
      d.addressesOf "T".toList = some ["http://t".toList] := by decide +kernel
  have after : ∃ d, parseWsdl (parsesContents [samePorts, samePortsServed]) (servedText samePorts) = .ok d ∧
      d.addressesOf "T".toList = some [newUrl] := by decide +kernel
  obtain ⟨d, accepted, old⟩ := before
  obtain ⟨d', parsed, new⟩ := after
  refine ⟨samePorts_document.wsdlText, d, d', accepted, parsed, ?_⟩
  rintro ⟨services, rfl, same⟩
  have other := same.others "T".toList (by decide)
  rw [WsdlDefinition.addressesOf, other] at new
  have addresses : some ["http://t".toList] = some [newUrl] := old.symm.trans new
  exact absurd addresses (by decide +kernel)

end SoapServer.Wsdl
