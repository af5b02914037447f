import SoapServer.Wsdl.AddressRewriting

/-! The WSDL that is served for one service: a first pass over the document finds the names
of its ports, a second one replaces the addresses in ports of these names. -/

set_option autoImplicit false

namespace SoapServer.Wsdl

open Markup

def service : Text := "service".toList

def port : Text := "port".toList

/-- The `name` attribute of a tag as it is written, empty when there is none. -/
def rawName (tag : ReadTag) : Text :=
  ((tag.attributes.reduceOption.find? fun a => a.key = "name".toList).map (·.value)).getD []

/-! The first pass. -/

/-- The local variables of the first pass. -/
structure PortSearch where
  portNames : List Text
  inTargetService : Bool
  serviceDepth : Int
  deriving DecidableEq

def PortSearch.initial : PortSearch := ⟨[], false, 0⟩

def PortSearch.insert (name : Text) (st : PortSearch) : PortSearch :=
  if name = [] then st else { st with portNames := st.portNames ++ [name] }

def PortSearch.step (serviceName : Text) (st : PortSearch) : RawEvent → PortSearch
  | .start _ tag =>
    if localName tag.name = service then
      -- no other service counts here, but its end tag does
      if rawName tag = serviceName then { st with inTargetService := true, serviceDepth := 1 } else st
    else if st.inTargetService then
      let st := { st with serviceDepth := st.serviceDepth + 1 }
      if localName tag.name = port ∧ st.serviceDepth = 2 then st.insert (rawName tag) else st
    else st
  | .empty _ tag =>
    if st.inTargetService ∧ localName tag.name = port ∧ st.serviceDepth = 1 then st.insert (rawName tag) else st
  | .close _ _ =>
    if st.inTargetService then
      { st with inTargetService := decide (st.serviceDepth - 1 ≠ 0), serviceDepth := st.serviceDepth - 1 }
    else st
  | .data _ => st

/-- The pass ends at the end of the text and at the first error. -/
def searchPorts (serviceName : Text) : PortSearch → List (Except Text RawEvent) → PortSearch
  | st, [] => st
  | st, .error _ :: _ => st
  | st, .ok event :: rest => searchPorts serviceName (st.step serviceName event) rest

def targetPortNames (serviceName : Text) (items : List (Except Text RawEvent)) : List Text :=
  (searchPorts serviceName .initial items).portNames

/-! The second pass. -/

/-- The local variables of the second pass. -/
structure PortMatch where
  inMatchedPort : Bool
  portDepth : Int
  deriving DecidableEq

def PortMatch.initial : PortMatch := ⟨false, 0⟩

/-- Any element called `port` with one of the names is matched, wherever it stands. -/
def PortMatch.step (portNames : List Text) (st : PortMatch) : RawEvent → PortMatch
  | .start _ tag =>
    if localName tag.name = port ∧ rawName tag ∈ portNames then ⟨true, 1⟩
    else if st.inMatchedPort then { st with portDepth := st.portDepth + 1 } else st
  | .empty _ tag =>
    -- an empty port is left at the next end tag
    if localName tag.name = port ∧ rawName tag ∈ portNames then ⟨true, 0⟩ else st
  | .close _ _ =>
    if st.inMatchedPort then
      if st.portDepth - 1 ≤ 0 then ⟨false, 0⟩ else { st with portDepth := st.portDepth - 1 }
    else st
  | .data _ => st

/-- Addresses are rebuilt in a matched port. -/
def PortMatch.writeEvent (ext : Externals) (newUrl : Text) (st : PortMatch)
    (event : RawEvent) : Text :=
  if st.inMatchedPort then rewriteEvent ext newUrl event else event.write

def rewritePorts (ext : Externals) (newUrl : Text) (portNames : List Text) :
    PortMatch → List (Except Text RawEvent) → Text
  | _, [] => []
  | _, .error _ :: _ => []
  | st, .ok event :: rest =>
    st.writeEvent ext newUrl event ++ rewritePorts ext newUrl portNames (st.step portNames event) rest

def rewriteWsdlAddressForService (ext : Externals) (reader : RawReader)
    (bytes newUrl serviceName : Text) : Text :=
  if serviceName = [] then rewriteWsdlAddress ext reader bytes newUrl
  else rewritePorts ext newUrl (targetPortNames serviceName (reader bytes)) .initial (reader bytes)

/-! Where the passes find what they should. -/

/-- A start tag that the first pass takes for the one of the service. -/
def NamedService (serviceName : Text) (tag : Tag) : Prop :=
  localName tag.name = service ∧ rawName tag.read = serviceName

instance (serviceName : Text) (tag : Tag) : Decidable (NamedService serviceName tag) := by
  unfold NamedService
  infer_instance

/-- A tag that the second pass matches. -/
def NamedPort (portNames : List Text)
    (tag : Tag) : Prop := localName tag.name = port ∧ rawName tag.read ∈ portNames

instance (portNames : List Text) (tag : Tag) : Decidable (NamedPort portNames tag) := by
  unfold NamedPort
  infer_instance

/-- A property of every start tag, at any depth. -/
def AllStarts (P : Tag → Prop) : Content → Prop
  | .nil => True
  | .data _ rest | .empty _ rest => AllStarts P rest
  | .element tag kids rest => P tag ∧ AllStarts P kids ∧ AllStarts P rest

instance decidableAllStarts {P : Tag → Prop} [DecidablePred P] :
    (c : Content) → Decidable (AllStarts P c)
  | .nil => inferInstanceAs (Decidable True)
  | .data _ rest | .empty _ rest => decidableAllStarts rest
  | .element tag kids rest =>
    have := decidableAllStarts (P := P) kids
    have := decidableAllStarts (P := P) rest
    inferInstanceAs (Decidable (P tag ∧ AllStarts P kids ∧ AllStarts P rest))

def portName (tag : Tag) : List Text :=
  if localName tag.name = port ∧ rawName tag.read ≠ [] then [rawName tag.read] else []

/-- The names of the ports directly in a service, as they are written. -/
def portNames : Content → List Text
  | .nil => []
  | .data _ rest => portNames rest
  | .empty tag rest | .element tag _ rest => portName tag ++ portNames rest

/-- The names of the ports of all services with a name. -/
def servicePortNames (serviceName : Text) : Content → List Text
  | .nil => []
  | .data _ rest | .empty _ rest => servicePortNames serviceName rest
  | .element tag kids rest =>
    (if NamedService serviceName tag then portNames kids else []) ++ servicePortNames serviceName rest

/-- No value but a location has a double quote, if the tag is an address. -/
def Rebuildable (tag : Tag) : Prop :=
  localName tag.name = address → ∀ a ∈ tag.attributes, a.key ≠ location → '"' ∉ a.value

instance (tag : Tag) : Decidable (Rebuildable tag) := by unfold Rebuildable; infer_instance

/-- The children of the service: its ports have names, and there is nothing in a child that is
called like one of the ports. -/
def PortsFit (names : List Text) : Content → Prop
  | .nil => True
  | .data _ rest => PortsFit names rest
  | .empty tag rest => (localName tag.name = port → rawName tag.read ≠ []) ∧ PortsFit names rest
  | .element tag kids rest =>
    (localName tag.name = port → rawName tag.read ≠ []) ∧ kids.AllTags (fun tag => ¬ NamedPort names tag) ∧
      PortsFit names rest

instance decidablePortsFit (names : List Text) : (c : Content) → Decidable (PortsFit names c)
  | .nil => inferInstanceAs (Decidable True)
  | .data _ rest => decidablePortsFit names rest
  | .empty tag rest =>
    have := decidablePortsFit names rest
    inferInstanceAs (Decidable ((localName tag.name = port → rawName tag.read ≠ []) ∧ PortsFit names rest))
  | .element tag kids rest =>
    have := decidablePortsFit names rest
    inferInstanceAs (Decidable ((localName tag.name = port → rawName tag.read ≠ []) ∧
      kids.AllTags (fun tag => ¬ NamedPort names tag) ∧ PortsFit names rest))

/-- The addresses that are rebuilt among the children of the service: those in its ports and, as
`open_` says that an empty port stands before and no end tag since then, those behind such a port. -/
def PortsRebuildable : Bool → Content → Prop
  | _, .nil => True
  | open_, .data _ rest => PortsRebuildable open_ rest
  | open_, .empty tag rest =>
    if localName tag.name = port then PortsRebuildable true rest
    else (open_ = true → Rebuildable tag) ∧ PortsRebuildable open_ rest
  | open_, .element tag kids rest =>
    (localName tag.name = port ∨ open_ = true → kids.AllTags Rebuildable) ∧
      (localName tag.name ≠ port → open_ = true → Rebuildable tag) ∧ PortsRebuildable false rest

instance decidablePortsRebuildable :
    (open_ : Bool) → (c : Content) → Decidable (PortsRebuildable open_ c)
  | _, .nil => inferInstanceAs (Decidable True)
  | open_, .data _ rest => decidablePortsRebuildable open_ rest
  | open_, .empty tag rest =>
    have := decidablePortsRebuildable true rest
    have := decidablePortsRebuildable open_ rest
    inferInstanceAs (Decidable (if localName tag.name = port then PortsRebuildable true rest
      else (open_ = true → Rebuildable tag) ∧ PortsRebuildable open_ rest))
  | open_, .element tag kids rest =>
    have := decidablePortsRebuildable false rest
    inferInstanceAs (Decidable ((localName tag.name = port ∨ open_ = true → kids.AllTags Rebuildable) ∧
      (localName tag.name ≠ port → open_ = true → Rebuildable tag) ∧ PortsRebuildable false rest))

/-- A service of a definition, by name. -/
def IsService (serviceName : Text) (e : DomElement) : Prop :=
  nsOrEmpty e = wsdlNs ∧ e.name = service ∧ e.attribute "name".toList = some serviceName

instance (serviceName : Text) (e : DomElement) : Decidable (IsService serviceName e) := by
  unfold IsService
  infer_instance

/-- The children of the root: the service is the only element that is written as one of the
name, it has no other service in it, and nothing outside of it is called like one of its ports. -/
def SectionsFit (deref : Text → Option Text) (serviceName : Text) (names : List Text)
    (inherited : Tree.Namespaces) :
    Content → Prop
  | .nil => True
  | .data _ rest => SectionsFit deref serviceName names inherited rest
  | .empty tag rest => ¬ NamedPort names tag ∧ SectionsFit deref serviceName names inherited rest
  | .element tag kids rest =>
    (∀ e, Tree.elementOf deref inherited tag = some e → (IsService serviceName e ↔ NamedService serviceName tag)) ∧
      (if NamedService serviceName tag then
        AllStarts (fun tag => localName tag.name ≠ service) kids ∧ PortsRebuildable false kids ∧ PortsFit names kids
      else AllStarts (fun tag => ¬ NamedService serviceName tag) kids ∧ ¬ NamedPort names tag ∧
        kids.AllTags fun tag => ¬ NamedPort names tag) ∧
      SectionsFit deref serviceName names inherited rest

instance decidableSectionsFit (deref : Text → Option Text) (serviceName : Text) (names : List Text)
    (inherited : Tree.Namespaces) :
    (c : Content) → Decidable (SectionsFit deref serviceName names inherited c)
  | .nil => inferInstanceAs (Decidable True)
  | .data _ rest => decidableSectionsFit deref serviceName names inherited rest
  | .empty tag rest =>
    have := decidableSectionsFit deref serviceName names inherited rest
    inferInstanceAs (Decidable (¬ NamedPort names tag ∧ SectionsFit deref serviceName names inherited rest))
  | .element tag kids rest =>
    have := decidableSectionsFit deref serviceName names inherited rest
    inferInstanceAs (Decidable
      ((∀ e, Tree.elementOf deref inherited tag = some e → (IsService serviceName e ↔ NamedService serviceName tag)) ∧
        (if NamedService serviceName tag then
          AllStarts (fun tag => localName tag.name ≠ service) kids ∧ PortsRebuildable false kids ∧ PortsFit names kids
        else AllStarts (fun tag => ¬ NamedService serviceName tag) kids ∧ ¬ NamedPort names tag ∧
          kids.AllTags fun tag => ¬ NamedPort names tag) ∧
        SectionsFit deref serviceName names inherited rest))

/-! The first pass on a forest. -/

theorem searchPorts_stream (serviceName : Text) (st : PortSearch) (events : List RawEvent) :
    searchPorts serviceName st (stream events) = events.foldl (PortSearch.step serviceName) st := by
  induction events generalizing st with
  | nil => rfl
  | cons event rest ih => exact ih (st.step serviceName event)

variable {serviceName : Text} {events : List RawEvent} {c : Content}

/-- Outside of the service nothing is found. -/
theorem search_outside (denotes : Denotes events c)
    (other : AllStarts (fun tag => ¬ NamedService serviceName tag) c) {st : PortSearch}
    (outside : st.inTargetService = false) :
    events.foldl (PortSearch.step serviceName) st = st := by
  induction denotes with
  | nil => rfl
  | data _ _ ih => exact ih other
  | empty _ _ ih =>
    rw [List.foldl_cons, PortSearch.step, if_neg (by simp [outside])]
    exact ih other
  | @element body space tag inside events kids c _ _ _ _ innerIH moreIH =>
    have start : st.step serviceName (.start body tag.read) = st := by
      rw [PortSearch.step]
      by_cases called : localName tag.read.name = service
      · rw [if_pos called, if_neg fun named => other.1 ⟨called, named⟩]
      · rw [if_neg called, if_neg (by simp [outside])]
    have close : st.step serviceName (.close tag.name space) = st := if_neg (by simp [outside])
    rw [List.foldl_cons, start, List.foldl_append, innerIH other.2.1, List.foldl_cons, close,
      moreIH other.2.2]

/-- Below the children of the service only the depth changes, and it comes back. -/
theorem search_deep (denotes : Denotes events c)
    (noService : AllStarts (fun tag => localName tag.name ≠ service) c) {st : PortSearch}
    (inside : st.inTargetService = true) (deep : 2 ≤ st.serviceDepth) :
    events.foldl (PortSearch.step serviceName) st = st := by
  induction denotes generalizing st with
  | nil => rfl
  | data _ _ ih => exact ih noService inside deep
  | empty _ _ ih =>
    rw [List.foldl_cons, PortSearch.step, if_neg (by omega)]
    exact ih noService inside deep
  | @element body space tag inner events kids c _ _ _ _ innerIH moreIH =>
    have start : st.step serviceName (.start body tag.read) = { st with serviceDepth := st.serviceDepth + 1 } := by
      rw [PortSearch.step, if_neg (show localName tag.read.name ≠ service from noService.1),
        if_pos inside]
      exact if_neg (show ¬ (_ ∧ st.serviceDepth + 1 = 2) by omega)
    have close : PortSearch.step serviceName { st with serviceDepth := st.serviceDepth + 1 } (.close tag.name space) =
        st := by
      rw [PortSearch.step, if_pos inside]
      obtain ⟨names, inTarget, depth⟩ := st
      simp only at inside deep
      simp [inside]
      omega
    have innerRun := @innerIH noService.2.1 { st with serviceDepth := st.serviceDepth + 1 } inside
      (show 2 ≤ st.serviceDepth + 1 by omega)
    rw [List.foldl_cons, start, List.foldl_append, innerRun, List.foldl_cons, close,
      moreIH noService.2.2 inside deep]

theorem insert_portName (tag : Tag) (names : List Text) (inside : Bool) (depth : Int) :
    (if localName tag.name = port then PortSearch.insert (rawName tag.read) ⟨names, inside, depth⟩
      else ⟨names, inside, depth⟩) = ⟨names ++ portName tag, inside, depth⟩ := by
  unfold PortSearch.insert portName
  by_cases called : localName tag.name = port <;> by_cases unnamed : rawName tag.read = [] <;> simp [called, unnamed]

/-- The children of the service give the names of its ports. -/
theorem search_service (denotes : Denotes events c)
    (noService : AllStarts (fun tag => localName tag.name ≠ service) c) (names : List Text) :
    events.foldl (PortSearch.step serviceName) ⟨names, true, 1⟩ = ⟨names ++ portNames c, true, 1⟩ := by
  induction denotes generalizing names with
  | nil => simp [portNames]
  | data _ _ ih => exact ih noService names
  | @empty body tag events c _ _ ih =>
    have step : PortSearch.step serviceName ⟨names, true, 1⟩ (.empty body tag.read) =
        ⟨names ++ portName tag, true, 1⟩ := by
      rw [← insert_portName]
      simp [PortSearch.step, Tag.read]
    rw [List.foldl_cons, step, ih noService, portNames, List.append_assoc]
  | @element body space tag inner events kids c _ _ more _ _ moreIH =>
    have start : PortSearch.step serviceName ⟨names, true, 1⟩ (.start body tag.read) =
        ⟨names ++ portName tag, true, 2⟩ := by
      rw [PortSearch.step, if_neg (show localName tag.read.name ≠ service from noService.1),
        ← insert_portName]
      simp [Tag.read]
    have close : PortSearch.step serviceName ⟨names ++ portName tag, true, 2⟩ (.close tag.name space) =
        ⟨names ++ portName tag, true, 1⟩ := rfl
    rw [List.foldl_cons, start, List.foldl_append,
      search_deep more noService.2.1 rfl (Int.le_refl 2),
      List.foldl_cons, close, moreIH noService.2.2, portNames, List.append_assoc]

theorem search_sections {deref : Text → Option Text} {names : List Text}
    {inherited : Tree.Namespaces} (denotes : Denotes events c)
    (fit : SectionsFit deref serviceName names inherited c) (found : List Text) :
    events.foldl (PortSearch.step serviceName) ⟨found, false, 0⟩ = ⟨found ++ servicePortNames serviceName c, false, 0⟩ := by
  induction denotes generalizing found with
  | nil => simp [servicePortNames]
  | data _ _ ih => exact ih fit found
  | empty _ _ ih => exact ih fit.2 found
  | @element body space tag inside events kids c text blank inner _ _ moreIH =>
    obtain ⟨_, own, rest⟩ := fit
    rw [servicePortNames, ← List.append_assoc, ← moreIH rest]
    -- only inside of the service are ports collected
    by_cases named : NamedService serviceName tag
    · rw [if_pos named] at own ⊢
      have start : PortSearch.step serviceName ⟨found, false, 0⟩ (.start body tag.read) = ⟨found, true, 1⟩ := by
        rw [PortSearch.step, if_pos (show localName tag.read.name = service from named.1),
          if_pos named.2]
      have close : PortSearch.step serviceName ⟨found ++ portNames kids, true, 1⟩ (.close tag.name space) =
          ⟨found ++ portNames kids, false, 0⟩ := rfl
      rw [List.foldl_cons, start, List.foldl_append, search_service inner own.1, List.foldl_cons,
        close]
    · rw [if_neg named] at own ⊢
      have alone : (RawEvent.start body tag.read :: (inside ++ [.close tag.name space])).foldl
          (PortSearch.step serviceName) ⟨found, false, 0⟩ = ⟨found, false, 0⟩ :=
        search_outside (.element text blank inner .nil) ⟨named, own.1, trivial⟩ rfl
      have split : RawEvent.start body tag.read :: (inside ++ .close tag.name space :: events) =
          RawEvent.start body tag.read :: (inside ++ [.close tag.name space]) ++ events := by simp
      rw [split, List.foldl_append, alone, List.append_nil]

theorem allStarts_of_empty {P : Tag → Prop} (bare : ∀ el ∈ c.elements, el.kids = none) :
    AllStarts P c := by
  induction c with
  | nil => trivial
  | data d rest ih => exact ih bare
  | empty tag rest ih => exact ih fun el member => bare el (.tail _ member)
  | element tag kids rest _ _ => cases bare _ (.head _)

theorem allTags_of_forall {P : Tag → Prop} (all : ∀ tag, P tag) (c : Content) : c.AllTags P := by
  induction c with
  | nil => trivial
  | data d rest ih => exact ih
  | empty tag rest ih => exact ⟨all tag, ih⟩
  | element tag kids rest kidsIH restIH => exact ⟨all tag, kidsIH, restIH⟩

theorem allTags_of_no_elements {P : Tag → Prop} (bare : c.elements = []) : c.AllTags P := by
  induction c with
  | nil => trivial
  | data d rest ih => exact ih bare
  | empty tag rest _ => cases bare
  | element tag kids rest _ _ => cases bare

/-- The first pass finds the names of the ports of the service. -/
theorem search_document {deref : Text → Option Text} {names : List Text}
    {inherited : Tree.Namespaces} {tag : Tag} {kids : Content} (denotes : Denotes events c)
    (root : c.elements = [⟨tag, some kids⟩]) (definitions : localName tag.name ≠ service)
    (fit : SectionsFit deref serviceName names inherited kids) :
    targetPortNames serviceName (stream events) = servicePortNames serviceName kids := by
  rw [targetPortNames, searchPorts_stream]
  induction denotes with
  | nil => cases root
  | data _ _ ih => exact ih root
  | empty => cases root
  | @element body space own inside events kids c _ _ inner more _ _ =>
    obtain ⟨same, bare⟩ := List.cons.inj root
    cases same
    have after : AllStarts (fun tag => ¬ NamedService serviceName tag) c :=
      allStarts_of_empty fun el member => by rw [bare] at member; cases member
    have start : PortSearch.initial.step serviceName (.start body tag.read) = .initial :=
      if_neg definitions
    have inside := search_sections inner fit []
    rw [List.foldl_cons, start, List.foldl_append, PortSearch.initial, inside, List.foldl_cons]
    exact congrArg PortSearch.portNames (search_outside more after rfl)

end SoapServer.Wsdl
