import SoapServer.Dispatch.Provenance
import SoapServer.Server.Router

/-! The routes of a service built from a WSDL with several services.

The tables and the names are kept by path alone, so a service loses its route to another one with the
same path. The rest is up to axum: it takes the paths, and some request is matched to each.
-/

set_option autoImplicit false

namespace SoapServer.Server

open Markup (Text)
open Maps Loops
open Wsdl Dispatch

variable {H : Type} {axum : Axum} {iter : MapOrder} {host : Host} {inputs : TableInputs H}

/-- What the table of one service is built from: the handlers of its own operations. -/
def ownInputs (inputs : TableInputs H) (service : Service) : TableInputs H :=
  { inputs with handlers := handlersFor inputs.handlers (serviceOpNames inputs.resolved.definition service) }

/-- The table is the one built for the service of this name, whose path is `path`. -/
def BuiltFor (host : Host) (inputs : TableInputs H) (name path : Text)
    (table : DispatchTable H) : Prop :=
  ∃ service, inputs.resolved.definition.services.lookup name = some service ∧
    path = servicePath host name service ∧
    buildDispatchTableForService (ownInputs inputs service) name = .ok table

/-- Some path leads to the table built for the service. -/
def HasTable (host : Host) (inputs : TableInputs H) (svc : SoapService H) (name path : Text)
    (table : DispatchTable H) : Prop :=
  svc.servicePathNames.lookup path = some name ∧ svc.serviceTables.lookup path = some table ∧
    BuiltFor host inputs name path table

/-- The router serves some request from the table built for the service. -/
def HasRoute (axum : Axum) (iter : MapOrder) (host : Host) (inputs : TableInputs H)
    (svc : SoapService H) (name : Text) : Prop :=
  ∃ path table, HasTable host inputs svc name path table ∧
    ∃ router target, svc.intoRouter axum iter = some router ∧
      router.route target = some (path, .service table name)

/-- No two services have the same path. -/
def DistinctPaths (host : Host) (definition : WsdlDefinition) : Prop :=
  ∀ name other service otherService, definition.services.lookup name = some service →
    definition.services.lookup other = some otherService →
    servicePath host name service = servicePath host other otherService → name = other

def servicePaths (host : Host) (definition : WsdlDefinition) : List Text :=
  definition.services.entries.map fun e => servicePath host e.1 e.2

theorem liftDispatch_eq_ok {α : Type} {x : Except DispatchError α} {a : α} :
    liftDispatch x = .ok a ↔ x = .ok a := by
  cases x <;> simp [liftDispatch, buildError]

theorem addService_eq_ok {acc grown : HashMap Text (DispatchTable H) × HashMap Text Text}
    {name : Text} :
    addService host inputs acc name = .ok grown ↔
      ∃ path table, BuiltFor host inputs name path table ∧
        grown = (acc.1.insert path table, acc.2.insert path name) := by
  simp only [addService, BuiltFor]
  cases known : inputs.resolved.definition.services.lookup name with
  | none => simp [buildError]
  | some service =>
    simp only [bind_eq_ok, liftDispatch_eq_ok]
    constructor
    · rintro ⟨table, made, same⟩
      exact ⟨servicePath host name service, table, ⟨service, rfl, rfl, made⟩,
        (Except.ok.inj same).symm⟩
    · rintro ⟨path, table, ⟨_, same, rfl, made⟩, rfl⟩
      obtain rfl := Option.some.inj same
      exact ⟨table, made, rfl⟩

/-- The two maps after some services: a path leads to the table of a service that has it,
every path with a table has a name, and every service done so far shares its path with the service that
the path names. -/
structure Routes (host : Host) (inputs : TableInputs H) (done : List Text)
    (acc : HashMap Text (DispatchTable H) × HashMap Text Text) : Prop where
  sound : ∀ path name, acc.2.lookup path = some name →
    ∃ table, acc.1.lookup path = some table ∧ BuiltFor host inputs name path table
  named : ∀ path, (acc.1.lookup path).isSome → (acc.2.lookup path).isSome
  covered : ∀ name ∈ done, ∃ path last table, BuiltFor host inputs name path table ∧
    acc.2.lookup path = some last

theorem Routes.addService {done : List Text} {name : Text}
    {acc grown : HashMap Text (DispatchTable H) × HashMap Text Text}
    (routes : Routes host inputs done acc) (added : addService host inputs acc name = .ok grown) :
    Routes host inputs (done ++ [name]) grown := by
  obtain ⟨path, table, built, rfl⟩ := addService_eq_ok.mp added
  constructor
  · intro other named known
    by_cases here : other = path
    · subst here
      rw [AList.lookup_insert] at known ⊢
      obtain rfl := Option.some.inj known
      exact ⟨table, rfl, built⟩
    · rw [AList.lookup_insert_ne here] at known ⊢
      exact routes.sound other named known
  · intro other given
    by_cases here : other = path
    · rw [here, AList.lookup_insert]
      rfl
    · rw [AList.lookup_insert_ne here] at given ⊢
      exact routes.named other given
  · -- a service under the same path loses its table to this one, but the path stays covered
    intro earlier member
    rcases List.mem_append.mp member with before | last
    · obtain ⟨other, named, otherTable, otherBuilt, known⟩ := routes.covered earlier before
      by_cases here : other = path
      · exact ⟨other, name, otherTable, otherBuilt, by rw [here, AList.lookup_insert]⟩
      · exact ⟨other, named, otherTable, otherBuilt,
          by rw [AList.lookup_insert_ne here]; exact known⟩
    · obtain rfl := List.mem_singleton.mp last
      exact ⟨path, earlier, table, built, AList.lookup_insert _⟩

/-- Several services: the maps hold the routes of all of them. -/
theorem buildTables_routes {tables : Tables H} (built : buildTables host inputs = .ok tables)
    (several : 1 < inputs.resolved.definition.services.entries.length) :
    Routes host inputs (host.iter.keys .services inputs.resolved.definition.services) tables.2 := by
  have many : (host.iter.keys .services inputs.resolved.definition.services).length > 1 := by
    rw [Iteration.keys, List.length_map, (host.iter.perm .services _).length_eq]
    exact several
  simp only [buildTables, if_pos many] at built
  split at built
  next => cases built
  next =>
    obtain ⟨filled, run, same⟩ := bind_eq_ok.mp built
    obtain rfl := Except.ok.inj same
    exact foldlM_prefix_invariant (Routes host inputs) (fun _ _ _ _ routes added => routes.addService added)
      ⟨fun path name known => by simp at known, fun path given => by simp at given,
        fun name member => by cases member⟩ run

/-- Every service has a route, in whatever order the routes are added. -/
def AllRouted (axum : Axum) (host : Host) (inputs : TableInputs H) (svc : SoapService H) : Prop :=
  ∀ iter name service, inputs.resolved.definition.services.lookup name = some service →
    HasRoute axum iter host inputs svc name

variable {svc : SoapService H}

theorem AllRouted.distinctPaths (routed : AllRouted axum host inputs svc) :
    DistinctPaths host inputs.resolved.definition := by
  intro name other service otherService known otherKnown same
  obtain ⟨path, _, ⟨named, _, service', known', here, _⟩, _⟩ := routed .stored name service known
  obtain rfl := Option.some.inj (known.symm.trans known')
  obtain ⟨path', _, ⟨named', _, service'', known'', here', _⟩, _⟩ :=
    routed .stored other otherService otherKnown
  obtain rfl := Option.some.inj (otherKnown.symm.trans known'')
  rw [here, same, ← here'] at named
  exact Option.some.inj (named.symm.trans named')

/-- The tables of all services are there, for want of another service with the same path. -/
theorem Routes.hasTable
    (routes : Routes host inputs (host.iter.keys .services inputs.resolved.definition.services)
      (svc.serviceTables, svc.servicePathNames))
    (distinct : DistinctPaths host inputs.resolved.definition) {name : Text} {service : Service}
    (known : inputs.resolved.definition.services.lookup name = some service) :
    ∃ table, HasTable host inputs svc name (servicePath host name service) table := by
  have visited : name ∈ host.iter.keys .services inputs.resolved.definition.services :=
    host.iter.mem_keys.mpr (by rw [known]; rfl)
  obtain ⟨path, last, table, ⟨service', known', ownPath, _⟩, named⟩ := routes.covered name visited
  obtain rfl := Option.some.inj (known.symm.trans known')
  obtain ⟨lastTable, found, lastService, lastKnown, lastPath, lastMade⟩ :=
    routes.sound path last named
  obtain rfl := distinct name last service lastService known lastKnown (ownPath.symm.trans lastPath)
  rw [← ownPath]
  exact ⟨lastTable, named, found, lastService, lastKnown, lastPath, lastMade⟩

theorem mem_servicePaths {definition : WsdlDefinition} {path : Text} :
    path ∈ servicePaths host definition ↔
      ∃ name service, definition.services.lookup name = some service ∧ servicePath host name service = path := by
  simp only [servicePaths, List.mem_map, Sigma.exists, ← AList.mem_lookup_iff, Option.mem_def]

theorem DistinctPaths.nodup {definition : WsdlDefinition}
    (distinct : DistinctPaths host definition) :
    (servicePaths host definition).Nodup := by
  apply definition.services.nodupKeys.nodup.map_on
  intro e member e' member' same
  obtain ⟨name, service⟩ := e
  obtain ⟨other, otherService⟩ := e'
  have known : definition.services.lookup name = some service := AList.mem_lookup_iff.mpr member
  have known' : definition.services.lookup other = some otherService :=
    AList.mem_lookup_iff.mpr member'
  obtain rfl := distinct name other service otherService known known' same
  rw [Option.some.inj (known.symm.trans known')]

/-- The paths with tables are those of the services. -/
theorem Routes.paths_perm
    (routes : Routes host inputs (host.iter.keys .services inputs.resolved.definition.services)
      (svc.serviceTables, svc.servicePathNames))
    (distinct : DistinctPaths host inputs.resolved.definition) :
    (servicePaths host inputs.resolved.definition).Perm (svc.serviceTables.entries.map Sigma.fst) := by
  apply (List.perm_ext_iff_of_nodup distinct.nodup svc.serviceTables.nodupKeys).mpr
  intro path
  rw [mem_servicePaths]
  apply Iff.trans _ (AList.lookup_isSome (s := svc.serviceTables))
  constructor
  · rintro ⟨name, service, known, rfl⟩
    obtain ⟨table, _, found, _⟩ := routes.hasTable distinct known
    rw [found]
    rfl
  · intro given
    obtain ⟨name, named⟩ := Option.isSome_iff_exists.mp (routes.named path given)
    obtain ⟨_, _, service, known, here, _⟩ := routes.sound path name named
    exact ⟨name, service, known, here.symm⟩

theorem Routes.allRouted
    (routes : Routes host inputs (host.iter.keys .services inputs.resolved.definition.services)
      (svc.serviceTables, svc.servicePathNames))
    (distinct : DistinctPaths host inputs.resolved.definition)
    (takes : Takes axum (servicePaths host inputs.resolved.definition)) : AllRouted axum host inputs svc := by
  intro iter name service known
  obtain ⟨table, named, found, built⟩ := routes.hasTable distinct known
  have several : svc.serviceTables.entries ≠ [] := by
    intro none_
    rw [AList.lookup, none_] at found
    cases found
  have ordered : ((svc.routes iter).map Prod.fst).Perm (servicePaths host inputs.resolved.definition) := by
    rw [routes_paths several]
    exact ((iter.perm _ _).map _).trans (routes.paths_perm distinct).symm
  obtain ⟨matched, taken, each⟩ := takes _ ordered
  obtain ⟨target, asked⟩ := each _ (mem_servicePaths.mpr ⟨name, service, known, rfl⟩)
  refine ⟨_, table, ⟨named, found, built⟩, ⟨svc.routes iter, matched⟩, target,
    intoRouter_eq_some.mpr ⟨taken, rfl⟩, route_eq_some.mpr ⟨asked, ?_⟩⟩
  rw [routes_lookup several, found, named]
  rfl

/-- Each order of the paths is one in which the routes can be added. -/
theorem AllRouted.takes (routed : AllRouted axum host inputs svc)
    (routes : Routes host inputs (host.iter.keys .services inputs.resolved.definition.services)
      (svc.serviceTables, svc.servicePathNames))
    (some_ : inputs.resolved.definition.services.entries ≠ []) :
    Takes axum (servicePaths host inputs.resolved.definition) := by
  intro ordered same
  -- some run of the program adds the routes in this order
  obtain ⟨iter, keys⟩ := Iteration.exists_keys MapSite.serviceTables
    (same.trans (routes.paths_perm routed.distinctPaths))
  have router : ∀ path ∈ servicePaths host inputs.resolved.definition,
      ∃ matched, axum ordered = some matched ∧ ∃ target, matched target = some path := by
    intro path member
    obtain ⟨name, service, known, rfl⟩ := mem_servicePaths.mp member
    obtain ⟨path, table, ⟨_, found, service', known', here, _⟩, router, target, made, asked⟩ :=
      routed iter name service known
    obtain rfl := Option.some.inj (known.symm.trans known')
    have several : svc.serviceTables.entries ≠ [] := by
      intro none_
      rw [AList.lookup, none_] at found
      cases found
    obtain ⟨taken, _⟩ := intoRouter_eq_some.mp made
    rw [routes_paths several, keys] at taken
    exact ⟨router.matched, taken, target, here ▸ (route_eq_some.mp asked).1⟩
  -- one router answers for all the paths, as it is made from the order alone
  obtain ⟨e, member⟩ := List.exists_mem_of_ne_nil _ some_
  obtain ⟨matched, taken, _⟩ := router _ (List.mem_map_of_mem member)
  refine ⟨matched, taken, fun path member => ?_⟩
  obtain ⟨matched', taken', asked⟩ := router path member
  rw [Option.some.inj (taken.symm.trans taken')]
  exact asked

/-- Every service of a WSDL with several is served, in whatever order the routes are added, exactly when
their paths are distinct and axum takes them. -/
theorem every_service_routed_iff {fuel : Nat} {builder : ServerBuilder H} {bytes : Text}
    {resolved : ResolvedWsdl} (built : build host fuel builder = .ok svc)
    (loaded : loadWsdl host builder fuel = .ok (bytes, resolved))
    (several : 1 < resolved.definition.services.entries.length) :
    AllRouted axum host (tableInputs host builder resolved) svc ↔
      DistinctPaths host resolved.definition ∧ Takes axum (servicePaths host resolved.definition) := by
  rw [build, bind_eq_ok] at built
  obtain ⟨loaded', same, built⟩ := built
  obtain rfl := Except.ok.inj (loaded.symm.trans same)
  obtain ⟨⟨mainTable, serviceTables, pathNames⟩, tables, same⟩ := bind_eq_ok.mp built
  obtain rfl := Except.ok.inj same
  have routes := buildTables_routes tables several
  constructor
  · intro routed
    have some_ : resolved.definition.services.entries ≠ [] :=
      List.ne_nil_of_length_pos (Nat.lt_trans Nat.zero_lt_one several)
    exact ⟨routed.distinctPaths, routed.takes routes some_⟩
  · rintro ⟨distinct, takes⟩
    exact routes.allRouted distinct takes

/-! Two services, each with one port. -/

def twoPortsWsdl (address otherAddress : String) : DomNode :=
  definitionsNode
    [messageNode "M" "a:Ping", portTypeNode "P" "Ping" "a:M", bindingNode "B" "a:P" "Ping",
      serviceNode "S" "a:B" address, serviceNode "T" "a:B" otherAddress]

def twoPortsHost (address otherAddress : String) : Host where
  iter := .stored
  parseXml := parsesWritten [twoPortsWsdl address otherAddress]
  readFile _ := .error []
  fileLoader _ := noOpLoader
  lowercase s := s
  started := 0

def twoPortsBuilder (address otherAddress : String) : ServerBuilder Unit :=
  { ServerBuilder.new with
    wsdlBytes := some (nodeToString (twoPortsWsdl address otherAddress)), defaultHandler :=
      some () }

/-! One path of two hosts is one path. -/

def twoHostsHost : Host := twoPortsHost "http://s/soap" "http://t/soap"

def twoHostsBuilder : ServerBuilder Unit := twoPortsBuilder "http://s/soap" "http://t/soap"

theorem twoHosts_service_lost :
    ∃ svc bytes resolved, build twoHostsHost 1 twoHostsBuilder = .ok svc ∧
    loadWsdl twoHostsHost twoHostsBuilder 1 = .ok (bytes, resolved) ∧
    1 < resolved.definition.services.entries.length ∧
    ∀ axum, ¬ AllRouted axum twoHostsHost (tableInputs twoHostsHost twoHostsBuilder resolved) svc := by
  have evaluated : ∃ svc, build twoHostsHost 1 twoHostsBuilder = .ok svc ∧
      ∃ loaded, loadWsdl twoHostsHost twoHostsBuilder 1 = .ok loaded ∧
        1 < loaded.2.definition.services.entries.length ∧
        ∃ service ∈ loaded.2.definition.services.lookup "S".toList,
          ∃ otherService ∈ loaded.2.definition.services.lookup "T".toList,
            servicePath twoHostsHost "S".toList service = servicePath twoHostsHost "T".toList otherService := by
    decide +kernel
  obtain ⟨svc, built, loaded, loads, several, service, known, otherService, otherKnown, same⟩ :=
    evaluated
  refine ⟨svc, loaded.1, loaded.2, built, loads, several, fun axum routed => ?_⟩
  have := routed.distinctPaths _ _ service otherService known otherKnown same
  exact absurd this (by decide)

/-! Two paths of one host. -/

def ownPathsHost : Host := twoPortsHost "http://h/s" "http://h/t"

def ownPathsBuilder : ServerBuilder Unit := twoPortsBuilder "http://h/s" "http://h/t"

theorem distinctPaths_of_entries {definition : WsdlDefinition}
    (distinct : ∀ e ∈ definition.services.entries, ∀ e' ∈ definition.services.entries,
      servicePath host e.1 e.2 = servicePath host e'.1 e'.2 → e.1 = e'.1) :
        DistinctPaths host definition := by
  intro name other service otherService known otherKnown
  exact distinct ⟨name, service⟩ (AList.mem_lookup_iff.mp known) ⟨other, otherService⟩
    (AList.mem_lookup_iff.mp otherKnown)

theorem ownPaths_all_routed : ∃ svc bytes resolved, build ownPathsHost 1 ownPathsBuilder = .ok svc ∧
    loadWsdl ownPathsHost ownPathsBuilder 1 = .ok (bytes, resolved) ∧
    1 < resolved.definition.services.entries.length ∧
    AllRouted plainAxum ownPathsHost (tableInputs ownPathsHost ownPathsBuilder resolved) svc := by
  have evaluated : ∃ svc, build ownPathsHost 1 ownPathsBuilder = .ok svc ∧
      ∃ loaded, loadWsdl ownPathsHost ownPathsBuilder 1 = .ok loaded ∧
        1 < loaded.2.definition.services.entries.length ∧
        (∀ e ∈ loaded.2.definition.services.entries, ∀ e' ∈ loaded.2.definition.services.entries,
          servicePath ownPathsHost e.1 e.2 = servicePath ownPathsHost e'.1 e'.2 → e.1 = e'.1) ∧
        ∀ path ∈ servicePaths ownPathsHost loaded.2.definition, IsPlainPath path := by
    decide +kernel
  obtain ⟨svc, built, loaded, loads, several, entries, plain⟩ := evaluated
  have distinct := distinctPaths_of_entries entries
  refine ⟨svc, loaded.1, loaded.2, built, loads, several, ?_⟩
  exact (every_service_routed_iff built loads several).mpr ⟨distinct,
    plainAxum_takes distinct.nodup plain⟩

end SoapServer.Server
