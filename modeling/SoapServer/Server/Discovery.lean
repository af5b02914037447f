import SoapServer.Server.ServiceRoutes
import SoapServer.Server.Pipeline
import SoapServer.Wsdl.Reachable
import SoapServer.Wsdl.ServiceRelocation

/-! The router of a service, and the WSDL it hands out.

A client may take the WSDL from the path of any service. The addresses it finds there lead back to
the router: every service of the document is served at the path of its own address.
-/

set_option autoImplicit false

namespace SoapServer.Server

open Markup (Text RawReader Content RawEvent Element localName denotes_tidy stream)
open Maps Loops
open Wssec (RotatingNonceCache)
open Wsdl Dispatch

variable {H : Type}

/-! The GET handlers. -/

/-- What a GET is answered by. The values of the two headers are as they came. -/
structure WsdlRequest where
  wsdl : Option Text
  forwardedHost : Option Text
  host : Option Text

/-- The characters of a header value that is handed out as a text. -/
def isVisibleAscii (c : Char) : Bool := c = '\t' || (32 ≤ c.toNat && c.toNat < 127)

def headerText (value : Text) : Option Text := if value.all isVisibleAscii then some value else none

/-- A forwarded host that is no text hides the host too. -/
def WsdlRequest.serverHost (request : WsdlRequest) : Text :=
  ((request.forwardedHost.or request.host).bind headerText).getD "localhost".toList

def serverUrl (host path : Text) : Text := "http://".toList ++ host ++ path

def notFound : Response := ⟨404, [], []⟩

def wsdlResponse (rewritten : Text) : Response := ⟨200, "text/xml; charset=utf-8".toList, rewritten⟩

/-- `path` is the one that the route was registered under. -/
def wsdlGetHandler (ext : Externals) (reader : RawReader) (svc : SoapService H) (path : Text)
    (request : WsdlRequest) :
    Response :=
  match request.wsdl with
  | none => notFound
  | some _ => wsdlResponse (rewriteWsdlAddress ext reader svc.wsdlRaw (serverUrl request.serverHost path))

def wsdlGetHandlerForRoute (ext : Externals) (reader : RawReader) (svc : SoapService H)
    (serviceName path : Text)
    (request : WsdlRequest) : Response :=
  match request.wsdl with
  | none => notFound
  | some _ =>
    wsdlResponse (rewriteWsdlAddressForService ext reader svc.wsdlRaw
      (serverUrl request.serverHost path) serviceName)

/-! The router. -/

/-- A request that is matched to no route is not found. -/
def routerGet (ext : Externals) (reader : RawReader) (svc : SoapService H) (router : Router H)
    (target : Text) (request : WsdlRequest) : Response :=
  match router.route target with
  | some (path, .whole) => wsdlGetHandler ext reader svc path request
  | some (path, .service _ serviceName) => wsdlGetHandlerForRoute ext reader svc serviceName path request
  | none => notFound

def routerPost (ext : Externals) (svc : SoapService H) (router : Router H) (target : Text)
    (nonceCache : RotatingNonceCache)
    (request : Request) (moment : Moment H) : Served H :=
  match router.route target with
  | some (_, .whole) => soapPostHandler ext svc nonceCache request moment
  | some (_, .service table _) => soapPostHandlerForRoute ext svc table nonceCache request moment
  | none => ⟨some notFound, none, nonceCache⟩

/-- axum matches each of the paths, when it is asked for as it stands, to itself. -/
def MatchesOwn (router : Router H)
    (paths : List Text) : Prop := ∀ path ∈ paths, router.matched path = some path

variable {axum : Axum} {iter : MapOrder} {svc : SoapService H} {router : Router H}

/-- The table of a route is the one that is kept for its path. -/
theorem table_of_route (made : svc.intoRouter axum iter = some router)
    {target path serviceName : Text} {table : DispatchTable H}
    (route : router.route target = some (path, .service table serviceName)) :
    svc.serviceTables.entries ≠ [] ∧ svc.serviceTables.lookup path = some table ∧
      (svc.servicePathNames.lookup path).getD [] = serviceName := by
  obtain ⟨_, kept⟩ := intoRouter_eq_some.mp made
  obtain ⟨_, found⟩ := route_eq_some.mp route
  rw [kept] at found
  have several := several_of_service found
  rw [routes_lookup several] at found
  obtain ⟨_, known, same⟩ := Option.map_eq_some_iff.mp found
  cases same
  exact ⟨several, known, rfl⟩

/-- What is posted to a route is served at an endpoint, and elsewhere nothing is done. -/
theorem routerPost_serve (ext : Externals) (made : svc.intoRouter axum iter = some router)
    (target : Text) (nonceCache : RotatingNonceCache) (request : Request) (moment : Moment H) :
    routerPost ext svc router target nonceCache request moment = ⟨some notFound, none, nonceCache⟩ ∨
      ∃ endpoint, routerPost ext svc router target nonceCache request moment =
        serve ext svc nonceCache ⟨endpoint, request, moment⟩ := by
  cases route : router.route target with
  | none => exact .inl (by rw [routerPost, route])
  | some found =>
    obtain ⟨path, stands⟩ := found
    cases stands with
    | whole => exact .inr ⟨.mount, by rw [routerPost, route]; rfl⟩
    | service table serviceName =>
      obtain ⟨_, known, _⟩ := table_of_route made route
      refine .inr ⟨.path path, ?_⟩
      rw [routerPost, route]
      simp only [serve, known]

/-! Paths of addresses. -/

theorem extractPathFromUrl_rooted (url : Text) : (extractPathFromUrl url).head? = some '/' := by
  unfold extractPathFromUrl
  split
  next afterScheme _ =>
    have stopped := List.head?_dropWhile_not (· ≠ '/') afterScheme
    split
    · rfl
    next path nonempty =>
      cases path : afterScheme.dropWhile (· ≠ '/') with
      | nil => exact absurd path nonempty
      | cons c rest =>
        rw [path] at stopped
        simpa using stopped
  · split
    next here => exact here
    · rfl

theorem servicePath_rooted (host : Host) (name : Text) (service : Service) :
    (servicePath host name service).head? = some '/' := by
  unfold servicePath
  split
  · exact extractPathFromUrl_rooted _
  · rfl

theorem extractPathFromUrl_serverUrl {host path : Text} (plain : '/' ∉ host)
    (rooted : path.head? = some '/') :
    extractPathFromUrl (serverUrl host path) = path := by
  have split : splitScheme (serverUrl host path) = some (host ++ path) := rfl
  have hostName : ∀ c ∈ host, decide (c ≠ '/') = true := fun c member =>
    decide_eq_true fun same => plain (same ▸ member)
  obtain ⟨rest, rfl⟩ : ∃ rest, path = '/' :: rest := by
    cases path with
    | nil => cases rooted
    | cons c rest => exact ⟨rest, congrArg (· :: rest) (Option.some.inj rooted)⟩
  have path : (host ++ '/' :: rest).dropWhile (· ≠ '/') = '/' :: rest := by
    rw [List.dropWhile_append_of_pos hostName]
    rfl
  simp only [extractPathFromUrl, split, path]

/-! A service at a new address. -/

/-- The path of a service stays the same when the addresses of its ports are replaced by one that has
this path. -/
theorem servicePath_relocated {host : Host} {name url : Text} {service : Service} {node : DomNode}
    (parsed : parseService node = .ok service)
    (same : extractPathFromUrl url = servicePath host name service) :
    servicePath host name
      { service with ports := List.zipWith (relocatedPort url) (childrenNamed node port) service.ports } =
      servicePath host name service := by
  obtain ⟨_, _, parsed⟩ := bind_eq_ok.mp parsed
  obtain ⟨ports, read, whole⟩ := bind_eq_ok.mp parsed
  obtain rfl := Except.ok.inj whole
  unfold servicePath at same ⊢
  cases nodes : childrenNamed node "port".toList with
  | nil =>
    rw [nodes] at read
    obtain rfl := Except.ok.inj read
    have head : childrenNamed node port = [] := nodes
    simp only [head, List.zipWith_nil_left]
    rfl
  | cons first rest =>
    rw [nodes, List.mapM_cons] at read
    obtain ⟨p, _, read⟩ := bind_eq_ok.mp read
    obtain ⟨more, _, read⟩ := bind_eq_ok.mp read
    obtain rfl := Except.ok.inj read
    have head : childrenNamed node port = first :: rest := nodes
    simp only [head, List.zipWith_cons_cons, List.head?_cons] at same ⊢
    -- only a port with a location is given the new address
    unfold relocatedPort
    split
    · exact same
    · rfl

theorem relocatedPort_address {url : Text} {node : DomNode} {p : Port}
    (parsed : parsePort node = .ok p) :
    (relocatedPort url node p).address = url ∨ (relocatedPort url node p).address = [] := by
  unfold relocatedPort
  split
  next => exact .inl rfl
  next bare =>
    obtain ⟨_, _, parsed⟩ := bind_eq_ok.mp parsed
    obtain ⟨_, _, parsed⟩ := bind_eq_ok.mp parsed
    obtain ⟨_, _, parsed⟩ := bind_eq_ok.mp parsed
    cases parsed
    have none_ : ((childrenNamed node "address".toList).findSome? fun child =>
        child.element.attribute "location".toList) = none :=
      List.findSome?_eq_none_iff.mpr fun child member =>
        Option.not_isSome_iff_eq_none.mp fun given => bare ⟨child, member, given⟩
    rw [none_]
    exact .inr rfl

theorem relocatedPorts_addresses {url : Text} {nodes : List DomNode} {ports : List Port}
    (read : nodes.mapM parsePort = .ok ports) :
    ∀ p ∈ List.zipWith (relocatedPort url) nodes ports, p.address = url ∨ p.address = [] := by
  induction nodes generalizing ports with
  | nil => nofun
  | cons node rest ih =>
    rw [List.mapM_cons] at read
    obtain ⟨first, here, read⟩ := bind_eq_ok.mp read
    obtain ⟨others, later, read⟩ := bind_eq_ok.mp read
    cases read
    intro p member
    rcases List.mem_cons.mp member with rfl | among
    · exact relocatedPort_address here
    · exact ih later p among

/-- The ports of a relocated service are at the new address, but for those without any. -/
theorem relocated_addresses {url : Text} {service : Service} {node : DomNode}
    (parsed : parseService node = .ok service) :
    ∀ p ∈ List.zipWith (relocatedPort url) (childrenNamed node port) service.ports, p.address = url ∨
      p.address = [] := by
  obtain ⟨_, _, parsed⟩ := bind_eq_ok.mp parsed
  obtain ⟨ports, each, whole⟩ := bind_eq_ok.mp parsed
  obtain rfl := Except.ok.inj whole
  exact relocatedPorts_addresses each

section

variable {url serviceName : Text} {nodes : List DomNode} {services services' : HashMap Text Service}

/-- A service that is there afterwards was there before, or is the one with new addresses. -/
theorem relocated_origin (same : ServicesRelocated url serviceName nodes services services')
    {name : Text} {service : Service} (known : services'.lookup name = some service) :
    services.lookup name = some service ∨ name = serviceName ∧ ∃ original node,
      services.lookup name = some original ∧
      parseService node = .ok original ∧
      { original with
        ports := List.zipWith (relocatedPort url) (childrenNamed node port) original.ports } =
          service := by
  by_cases here : name = serviceName
  · subst here
    cases found : services.lookup name with
    | none =>
      rw [same.absent found] at known
      cases known
    | some original =>
      obtain ⟨node, _, _, read, given⟩ := same.own original found
      exact .inr ⟨rfl, original, node, rfl, read, Option.some.inj (given.symm.trans known)⟩
  · rw [same.others name here] at known
    exact .inl known

theorem relocated_isSome (same : ServicesRelocated url serviceName nodes services services')
    (name : Text) :
    (services'.lookup name).isSome = (services.lookup name).isSome := by
  by_cases here : name = serviceName
  · subst here
    cases found : services.lookup name with
    | none => rw [same.absent found]
    | some service =>
      obtain ⟨_, _, _, _, given⟩ := same.own service found
      rw [given]
      rfl
  · rw [same.others name here]

end

/-! The document that is loaded. -/

/-- What the document itself defines is not replaced by what it imports. -/
theorem loadWsdl_root {host : Host} {builder : ServerBuilder H} {fuel : Nat} {bytes : Text}
    {resolved : ResolvedWsdl}
    (loaded : loadWsdl host builder fuel = .ok (bytes, resolved)) :
    ∃ d, parseWsdl host.parseXml bytes = .ok d ∧ ∀ name service, d.services.lookup name = some service →
      resolved.definition.services.lookup name = some service := by
  rw [loadWsdl, bind_eq_ok] at loaded
  obtain ⟨⟨text, loader⟩, _, loaded⟩ := loaded
  dsimp only at loaded
  split at loaded
  next result visited run =>
    obtain ⟨rfl, rfl⟩ := Prod.mk.inj (Except.ok.inj loaded)
    obtain ⟨documents, _, loads, merges, _⟩ := resolveWsdl_loads run
    obtain ⟨root, others, parsed, same, _⟩ := loadDocuments_all _ _ _ _ loads
    refine ⟨root, parsed, fun name service known => ?_⟩
    have first := merges.services name
    rw [same, List.nil_append] at first
    rw [first, firstLoaded, List.findSome?_cons, known]
  next => cases loaded
  next => cases loaded

/-! The document that is handed out. -/

section

variable {ext : Externals} {reader : RawReader} {deref : Text → Option Text} {parseXml : TreeParser}
variable {url bytes serviceName : Text} {events : List RawEvent} {c : Content} {root : Element}
    {node : DomNode}

/-- The tree of the document that is handed out for a service. -/
theorem served_tree (reads : Tree.ReadsAs deref (ext.escape url) url) (named : serviceName ≠ [])
    (document : WsdlText deref reader bytes events c root node)
    (definitions : node.element.name = "definitions".toList)
    (fits : ServiceFits deref serviceName root)
    (parses : ParsesText deref parseXml c
    (rewriteWsdlAddressForService ext reader bytes url serviceName)) :
    ∃ node', parseXml (rewriteWsdlAddressForService ext reader bytes url serviceName) = .ok node' ∧
      node'.element = node.element ∧
      List.Forall₂ (SectionServed url serviceName) node.children.elements node'.children.elements := by
  obtain ⟨tag, kids⟩ := root
  cases kids with
  | none =>
    have text : rewriteWsdlAddressForService ext reader bytes url serviceName = _ :=
      rewritten_bare document named rfl
    refine ⟨node, ?_, rfl, ?_⟩
    · apply parses _ c _ node (denotes_tidy document.denotes) rfl text.symm document.single document.tree
    · rw [documentTree_bare document.tree]
      exact .nil
  | some kids =>
    obtain ⟨element, kidsRun⟩ := documentTree_element.mp document.tree
    have fit := fits kids rfl _ element
    have called := (Tree.elementOf_localName element).trans definitions
    have notService : localName tag.name ≠ service := by rw [called]; decide
    have notPort : localName tag.name ≠ port := by rw [called]; decide
    have names := search_document document.denotes document.single notService fit
    obtain ⟨events', written, denotes⟩ :=
      written_document reads.noTag reads.noQuote document.denotes document.single notPort fit
    have text : rewriteWsdlAddressForService ext reader bytes url serviceName =
        events'.flatMap RawEvent.source := by
      rw [rewritten_eq document named, names, written]
    obtain ⟨children, servedRun, sections⟩ := forestOf_serveSections reads fit kidsRun
    refine ⟨⟨node.element, children⟩, ?_, rfl, sections⟩
    apply parses events' _ _ _ denotes (serveDocument_shape _ serviceName c) text.symm
      (serveDocument_elements document.single)
    exact documentTree_element.mpr ⟨element, servedRun⟩

/-- Its services are those of the document, relocated where they have the name. -/
theorem served_services (reads : Tree.ReadsAs deref (ext.escape url) url) (named : serviceName ≠ [])
    (document : WsdlText deref reader bytes events c root node)
    (fits : ServiceFits deref serviceName root)
    (parses : ∀ text ∈ [bytes, rewriteWsdlAddressForService ext reader bytes url serviceName],
      ParsesText deref parseXml c text)
    {d : WsdlDefinition} (accepted : parseWsdl parseXml bytes = .ok d) :
    ∃ d', parseWsdl parseXml (rewriteWsdlAddressForService ext reader bytes url serviceName) = .ok d' ∧
      ServicesRelocated url serviceName node.children.elements d.services d'.services := by
  have tree : parseXml bytes = .ok node :=
    parses bytes (by simp) events c root node document.denotes rfl document.text.symm document.single
      document.tree
  obtain ⟨definitions, run⟩ := (parseWsdl_eq_ok tree).mp accepted
  have start : ServicesRelocated url serviceName node.children.elements (∅ : HashMap Text Service) ∅ :=
    ⟨fun _ _ => rfl, fun _ => rfl, fun _ given => by cases given⟩
  obtain ⟨services, relocated, same⟩ := foldlM_relocated (fun _ member => member) start run
  obtain ⟨node', servedTree, element, sections⟩ :=
    served_tree reads named document definitions fits (parses _ (by simp))
  refine ⟨{ d with services }, ?_, same⟩
  rw [parseWsdl_eq_ok servedTree, element]
  exact ⟨definitions, (foldlM_served sections _).trans relocated⟩

end

/-! Discovery. -/

/-- Who asks for the path of the service's address is served from the table built for the service. -/
def LeadsBack (host : Host) (inputs : TableInputs H) (router : Router H) (name : Text)
    (service : Service) :
    Prop :=
  ∃ table, router.route (servicePath host name service) =
      some (servicePath host name service, .service table name) ∧
    BuiltFor host inputs name (servicePath host name service) table

variable {host : Host} {inputs : TableInputs H}

theorem Routes.leadsBack
    (routes : Routes host inputs (host.iter.keys .services inputs.resolved.definition.services)
      (svc.serviceTables, svc.servicePathNames))
    (several : svc.serviceTables.entries ≠ []) (made : svc.intoRouter axum iter = some router)
    (distinct : DistinctPaths host inputs.resolved.definition)
    (matched : MatchesOwn router (servicePaths host inputs.resolved.definition))
    {name : Text} {service : Service} (known : inputs.resolved.definition.services.lookup name =
    some service) :
    LeadsBack host inputs router name service := by
  obtain ⟨table, named, found, built⟩ := routes.hasTable distinct known
  refine ⟨table, route_eq_some.mpr ⟨matched _ (mem_servicePaths.mpr ⟨name, service, known, rfl⟩), ?_⟩, built⟩
  rw [(intoRouter_eq_some.mp made).2, routes_lookup several, found, named]
  rfl

/-- A route to a service with a name is at the path of that service. -/
theorem Routes.path_of_service {done : List Text}
    (routes : Routes host inputs done (svc.serviceTables, svc.servicePathNames))
    (made : svc.intoRouter axum iter = some router)
    {target path serviceName : Text} {table : DispatchTable H} (named : serviceName ≠ [])
    (route : router.route target = some (path, .service table serviceName)) :
    ∃ service, inputs.resolved.definition.services.lookup serviceName = some service ∧
      path = servicePath host serviceName service := by
  obtain ⟨_, _, same⟩ := table_of_route made route
  have known : svc.servicePathNames.lookup path = some serviceName := by
    cases found : svc.servicePathNames.lookup path with
    | none =>
      rw [found] at same
      exact absurd same.symm named
    | some other =>
      rw [found] at same
      exact congrArg some same
  obtain ⟨_, _, service, given, here, _⟩ := routes.sound path serviceName known
  exact ⟨service, given, here⟩

/-- A single service has no route of its own. -/
theorem buildTables_single {tables : Tables H} (built : buildTables host inputs = .ok tables)
    (single : ¬ 1 < inputs.resolved.definition.services.entries.length) : tables.2 = (∅, ∅) := by
  have few : ¬ (host.iter.keys .services inputs.resolved.definition.services).length > 1 := by
    rw [Iteration.keys, List.length_map, (host.iter.perm .services _).length_eq]
    exact single
  simp only [buildTables, if_neg few] at built
  obtain ⟨table, _, same⟩ := bind_eq_ok.mp built
  rw [← Except.ok.inj same]

/-- A service with several routes keeps the tables and the text that were loaded for it. -/
theorem build_routes {fuel : Nat} {builder : ServerBuilder H} {bytes : Text}
    {resolved : ResolvedWsdl} (built : build host fuel builder = .ok svc)
    (loaded : loadWsdl host builder fuel = .ok (bytes, resolved))
    (several : svc.serviceTables.entries ≠ []) :
    svc.wsdlRaw = bytes ∧ Routes host (tableInputs host builder resolved)
      (host.iter.keys .services resolved.definition.services)
        (svc.serviceTables, svc.servicePathNames) := by
  rw [build, bind_eq_ok] at built
  obtain ⟨_, same, built⟩ := built
  obtain rfl := Except.ok.inj (loaded.symm.trans same)
  obtain ⟨⟨mainTable, serviceTables, pathNames⟩, tables, same⟩ := bind_eq_ok.mp built
  obtain rfl := Except.ok.inj same
  refine ⟨rfl, ?_⟩
  by_cases many : 1 < resolved.definition.services.entries.length
  · exact buildTables_routes tables many
  · have none_ := buildTables_single tables many
    cases none_
    exact absurd rfl several

/-- The WSDL that a client is given at the route of a service has the services of the document, and all
their addresses lead back: who asks for the path of an address is served from the table built for its
service. The addresses of the service that was asked are those at which the client asked. -/
theorem served_wsdl_leads_back {fuel : Nat} {builder : ServerBuilder H} {bytes : Text}
    {resolved : ResolvedWsdl}
    (built : build host fuel builder = .ok svc)
    (loaded : loadWsdl host builder fuel = .ok (bytes, resolved))
    (distinct : DistinctPaths host resolved.definition)
    (made : svc.intoRouter axum iter = some router)
    (matched : MatchesOwn router (servicePaths host resolved.definition))
    {target path serviceName : Text} {table : DispatchTable H}
    (route : router.route target = some (path, .service table serviceName))
    (named : serviceName ≠ []) {request : WsdlRequest} (asked : request.wsdl.isSome)
    (plain : '/' ∉ request.serverHost) {ext : Externals} {reader : RawReader}
    {deref : Text → Option Text} (escapes : ext.Escapes) (predefined : Tree.Predefined deref)
    (chars : ∀ ch ∈ serverUrl request.serverHost path,
    Tree.isValueChar ch = true)
    {events : List RawEvent} {c : Content} {root : Element} {node : DomNode}
    (document : WsdlText deref reader bytes events c root node) (fits : ServiceFits deref serviceName root)
    (parses : ∀ text ∈ [bytes, rewriteWsdlAddressForService ext reader bytes
    (serverUrl request.serverHost path) serviceName],
      ParsesText deref host.parseXml c text) :
    (routerGet ext reader svc router target request).status = 200 ∧
      ∃ d d', parseWsdl host.parseXml bytes = .ok d ∧
        parseWsdl host.parseXml (routerGet ext reader svc router target request).body = .ok d' ∧
        (∀ name, (d'.services.lookup name).isSome = (d.services.lookup name).isSome) ∧
        (∀ name service, d'.services.lookup name = some service →
          LeadsBack host (tableInputs host builder resolved) router name service) ∧
        ∀ service, d'.services.lookup serviceName = some service →
          ∀ p ∈ service.ports, p.address = serverUrl request.serverHost path ∨ p.address = [] := by
  obtain ⟨several, _, _⟩ := table_of_route made route
  obtain ⟨raw, routes⟩ := build_routes built loaded several
  obtain ⟨d, accepted, own⟩ := loadWsdl_root loaded
  have reads : Tree.ReadsAs deref (ext.escape (serverUrl request.serverHost path))
      (serverUrl request.serverHost path) := by
    rw [escapes]
    exact Tree.readsAs_escaped predefined chars
  obtain ⟨d', parsed, services⟩ := served_services reads named document fits parses accepted
  have answer : routerGet ext reader svc router target request =
      wsdlResponse (rewriteWsdlAddressForService ext reader bytes
        (serverUrl request.serverHost path) serviceName) := by
    obtain ⟨query, given⟩ := Option.isSome_iff_exists.mp asked
    simp only [routerGet, route, wsdlGetHandlerForRoute, given, raw]
  rw [answer]
  refine ⟨rfl, d, d', accepted, parsed, relocated_isSome services, fun name service known => ?_,
    fun service known => ?_⟩
  · rcases relocated_origin services known with same | ⟨rfl, original, node, before, read, rfl⟩
    · exact routes.leadsBack several made distinct matched (own name service same)
    · obtain ⟨original', known', here⟩ := routes.path_of_service made named route
      obtain rfl := Option.some.inj ((own name original before).symm.trans known')
      -- the host is the client's, the path is the one it asked at
      have rooted : path.head? = some '/' := by
        rw [here]
        exact servicePath_rooted host name original
      have same := (extractPathFromUrl_serverUrl plain rooted).trans here
      unfold LeadsBack
      rw [servicePath_relocated read same]
      exact routes.leadsBack several made distinct matched (own name original before)
  · have before := (relocated_isSome services serviceName).symm.trans (Option.isSome_of_eq_some known)
    obtain ⟨original, before⟩ := Option.isSome_iff_exists.mp before
    obtain ⟨_, _, _, read, given⟩ := services.own original before
    obtain rfl := Option.some.inj (given.symm.trans known)
    exact relocated_addresses read

/-! A WSDL with two services at two paths. -/

def twoPaths : Content := twoServices "http://old/s" "Q" "http://old/t"

def twoPathsServed : Content := twoServices "http://localhost/s" "Q" "http://old/t"

def twoPathsHost : Host where
  iter := .stored
  parseXml := parsesContents [twoPaths, twoPathsServed]
  readFile _ := .error []
  fileLoader _ := noOpLoader
  lowercase s := s
  started := 0

def twoPathsBuilder : ServerBuilder Unit :=
  { ServerBuilder.new with wsdlBytes := some (textOf twoPaths), defaultHandler := some () }

def askedForWsdl : WsdlRequest := ⟨some [], none, none⟩

theorem twoPaths_document :
    WrittenDocument twoPaths (twoServicesRoot "http://old/s" "Q" "http://old/t") :=
  ⟨by decide +kernel, by decide +kernel, rfl, by decide +kernel⟩

theorem twoPathsServed_document :
    WrittenDocument twoPathsServed (twoServicesRoot "http://localhost/s" "Q" "http://old/t") :=
  ⟨by decide +kernel, by decide +kernel, rfl, by decide +kernel⟩

def twoPathsText : Text :=
  rewriteWsdlAddressForService .scanning (fun _ => stream twoPaths.pieces) (textOf twoPaths)
    (serverUrl askedForWsdl.serverHost "/s".toList) "S".toList

theorem twoPaths_parsed : ∀ text ∈ [textOf twoPaths, twoPathsText],
    ParsesText Tree.predefinedEntity twoPathsHost.parseXml twoPaths text := by
  have text : textOf twoPathsServed = twoPathsText := by decide +kernel
  have different : textOf twoPaths ≠ textOf twoPathsServed := by decide +kernel
  intro s member
  rcases List.mem_cons.mp member with rfl | member
  · exact twoPaths_document.parsesText rfl rfl (by simp [twoPathsHost, parsesContents])
  · obtain rfl := List.mem_singleton.mp member
    exact twoPathsServed_document.parsesText rfl text
      (by simp [twoPathsHost, parsesContents, ← text, different])

theorem twoPaths_built : ∃ svc bytes resolved, build twoPathsHost 1 twoPathsBuilder = .ok svc ∧
    loadWsdl twoPathsHost twoPathsBuilder 1 = .ok (bytes, resolved) ∧ bytes = textOf twoPaths ∧
    DistinctPaths twoPathsHost resolved.definition ∧
    ∃ router, svc.intoRouter plainAxum .stored = some router ∧
      MatchesOwn router (servicePaths twoPathsHost resolved.definition) ∧
      ∃ table, router.route "/s?wsdl".toList = some ("/s".toList, .service table "S".toList) := by
  have evaluated : ∃ svc, build twoPathsHost 1 twoPathsBuilder = .ok svc ∧
      ((svc.serviceTables.lookup "/s".toList).isSome ∧ svc.servicePathNames.lookup "/s".toList =
        some "S".toList) ∧
      (svc.routes .stored).map Prod.fst = ["/s".toList, "/t".toList] ∧
      ∃ loaded, loadWsdl twoPathsHost twoPathsBuilder 1 = .ok loaded ∧ loaded.1 = textOf twoPaths ∧
        (∀ e ∈ loaded.2.definition.services.entries, ∀ e' ∈ loaded.2.definition.services.entries,
          servicePath twoPathsHost e.1 e.2 = servicePath twoPathsHost e'.1 e'.2 → e.1 = e'.1) ∧
        ∀ path ∈ servicePaths twoPathsHost loaded.2.definition, path ∈ ["/s".toList, "/t".toList] := by
    decide +kernel
  obtain ⟨svc, built, ⟨found, named⟩, paths, loaded, loads, text, distinct, among⟩ := evaluated
  obtain ⟨table, found⟩ := Option.isSome_iff_exists.mp found
  have several : svc.serviceTables.entries ≠ [] := by
    intro none_
    rw [AList.lookup, none_] at found
    cases found
  have taken : plainAxum ["/s".toList, "/t".toList] =
      some fun target => ["/s".toList, "/t".toList].find? (· = target.takeWhile (· ≠ '?')) :=
    if_pos (by decide)
  refine ⟨svc, loaded.1, loaded.2, built, loads, text, distinctPaths_of_entries distinct,
    ⟨svc.routes .stored, _⟩, intoRouter_eq_some.mpr ⟨by rw [paths]; exact taken, rfl⟩, ?_, table,
    route_eq_some.mpr ⟨rfl, ?_⟩⟩
  · intro path member
    rcases List.mem_pair.mp (among path member) with rfl | rfl <;> rfl
  · show (svc.routes .stored).lookup "/s".toList = _
    rw [routes_lookup several, found, named]
    rfl

theorem twoPaths_lead_back : ∃ svc bytes resolved router d',
    build twoPathsHost 1 twoPathsBuilder = .ok svc ∧
    loadWsdl twoPathsHost twoPathsBuilder 1 = .ok (bytes, resolved) ∧
    svc.intoRouter plainAxum .stored = some router ∧
    parseWsdl twoPathsHost.parseXml
      (routerGet .scanning (fun _ => stream twoPaths.pieces) svc router "/s?wsdl".toList
      askedForWsdl).body = .ok d' ∧
    ∀ name service, d'.services.lookup name = some service →
      LeadsBack twoPathsHost (tableInputs twoPathsHost twoPathsBuilder resolved) router name service := by
  obtain ⟨svc, bytes, resolved, built, loaded, rfl, distinct, router, made, matched, table, route⟩ := twoPaths_built
  have fits : ServiceFits Tree.predefinedEntity "S".toList
      (twoServicesRoot "http://old/s" "Q" "http://old/t") := by
    unfold ServiceFits
    decide +kernel
  obtain ⟨_, _, d', _, parsed, _, back, _⟩ :=
    served_wsdl_leads_back built loaded distinct made matched route (by decide) rfl
    (by decide) Externals.scanning_escapes Tree.predefinedEntity_predefined
      (by decide +kernel) twoPaths_document.wsdlText
    fits twoPaths_parsed
  exact ⟨svc, _, resolved, router, d', built, loaded, made, parsed, back⟩

end SoapServer.Server
