import SoapServer.Dispatch.Table
import SoapServer.Wssec.NonceCache

/-! Building a service: its WSDL is resolved and its routing tables are made, one for each
service when there are several. -/

set_option autoImplicit false

namespace SoapServer.Server

open Markup (Text)
open Maps
open Wsdl Dispatch
open Wssec (defaultNonceCacheHalfWindowSecs defaultTimestampToleranceSecs)

def defaultMaxBodyBytes : Nat := 2 * 1024 * 1024

abbrev AuthFn := Text → Option Text

structure ServerBuilder (H : Type) where
  wsdlBytes : Option Text
  wsdlPath : Option Text
  customLoader : Option WsdlLoader
  handlers : HashMap Text H
  defaultHandler : Option H
  authFn : Option AuthFn
  authBypass : List Text
  mountPath : Text
  timestampToleranceSecs : Int
  nonceCacheHalfWindowSecs : Nat
  maxBodyBytes : Nat

variable {H : Type}

def ServerBuilder.new : ServerBuilder H where
  wsdlBytes := none
  wsdlPath := none
  customLoader := none
  handlers := ∅
  defaultHandler := none
  authFn := none
  authBypass := []
  mountPath := "/soap".toList
  timestampToleranceSecs := defaultTimestampToleranceSecs
  nonceCacheHalfWindowSecs := defaultNonceCacheHalfWindowSecs
  maxBodyBytes := defaultMaxBodyBytes

inductive BuildError where
  | missingWsdl
  | wsdlIo (reason : Text)
  | wsdlParse (reason : Text)
  | unregisteredOperation (op : Text)
  | unknownOperation (op : Text)
  | unknownService (name : Text)
  deriving DecidableEq, Repr

abbrev Building (α : Type) := Except (Failure BuildError) α

def buildError {α : Type} (e : BuildError) : Building α := .error (.error e)

/-- The machine a service is built on. `fileLoader` is the loader of the files beside a
given file, and `started` the instant at which the nonce cache is made. -/
structure Host where
  iter : MapOrder
  parseXml : TreeParser
  readFile : Text → Except Text Text
  fileLoader : Text → WsdlLoader
  lowercase : Text → Text
  started : Nat

structure SoapService (H : Type) where
  dispatchTable : DispatchTable H
  serviceTables : HashMap Text (DispatchTable H)
  servicePathNames : HashMap Text Text
  typeRegistry : Xsd.TypeRegistry
  wsdlRaw : Text
  authFn : Option AuthFn
  nonceCache : Wssec.RotatingNonceCache
  timestampToleranceSecs : Int
  mountPath : Text
  maxBodyBytes : Nat

def noOpLoader : WsdlLoader := fun location =>
  .error (.malformedXml
    ("External WSDL import '".toList ++ location ++ "' not supported in embedded mode".toList))

def splitScheme : Text → Option Text
  | [] => none
  | ':' :: '/' :: '/' :: rest => some rest
  | _ :: rest => splitScheme rest

def extractPathFromUrl (url : Text) : Text :=
  match splitScheme url with
  | some afterScheme =>
    -- the host ends at the first slash; without one the path is the root
    match afterScheme.dropWhile (· ≠ '/') with
    | [] => ['/']
    | path => path
  | none => if url.head? = some '/' then url else '/' :: url

/-- The bytes of the WSDL and the loader for what it imports. -/
def wsdlSource (host : Host) (builder : ServerBuilder H) : Building (Text × WsdlLoader) :=
  match builder.wsdlBytes, builder.wsdlPath with
  -- embedded bytes win over a path, and load nothing by themselves
  | some bytes, _ => .ok (bytes, builder.customLoader.getD noOpLoader)
  | none, some path =>
    match host.readFile path with
    | .ok bytes => .ok (bytes, builder.customLoader.getD (host.fileLoader path))
    | .error e => buildError (.wsdlIo e)
  | none, none => buildError .missingWsdl

def loadWsdl (host : Host) (builder : ServerBuilder H)
    (fuel : Nat) : Building (Text × ResolvedWsdl) := do
  let (bytes, loader) ← wsdlSource host builder
  match resolveWsdl ⟨host.iter, host.parseXml, loader, fuel⟩ bytes [] with
  | .ok (resolved, _) => .ok (bytes, resolved)
  | .error (.error e) => buildError (.wsdlParse e.toText)
  | .error .hang => .error .hang

def ofDispatchError : DispatchError → BuildError
  | .unregisteredOperation op => .unregisteredOperation op
  | .unknownOperation op => .unknownOperation op
  | .unresolvableInputType op element typeRef =>
    .wsdlParse ("Operation '".toList ++ op ++ "' input element '".toList ++ element ++
      "' references unresolvable type '".toList ++ typeRef ++ "'".toList)

def liftDispatch {α : Type} : Except DispatchError α → Building α
  | .ok a => .ok a
  | .error e => buildError (ofDispatchError e)

/-- The names of the operations of a service. -/
def serviceOpNames (definition : WsdlDefinition) (service : Service) : List Text :=
  service.ports.flatMap fun port =>
    match portBinding definition port with
    | some binding => binding.operations.map (·.name)
    | none => []

def tableInputs (host : Host) (builder : ServerBuilder H)
    (resolved : ResolvedWsdl) : TableInputs H :=
  ⟨host.iter, resolved, builder.handlers, builder.authBypass, builder.defaultHandler⟩

/-- The handlers registered under the given names. -/
def handlersFor (handlers : HashMap Text H) (names : List Text) : HashMap Text H :=
  names.foldl (fun map name =>
    match handlers.lookup name with
    | some h => map.insert name h
    | none => map) ∅

def servicePath (host : Host) (name : Text) (service : Service) : Text :=
  match service.ports.head? with
  | some port => extractPathFromUrl port.address
  | none => '/' :: host.lowercase name

/-- The table of one service; it replaces the table of a service with the same path. -/
def addService (host : Host) (inputs : TableInputs H)
    (acc : HashMap Text (DispatchTable H) × HashMap Text Text) (name : Text) :
    Building (HashMap Text (DispatchTable H) × HashMap Text Text) :=
  let definition := inputs.resolved.definition
  match definition.services.lookup name with
  | none => buildError (.unknownService name)
  | some service => do
    let own := { inputs with handlers := handlersFor inputs.handlers (serviceOpNames definition service) }
    let table ← liftDispatch (buildDispatchTableForService own name)
    let path := servicePath host name service
    -- keyed by path alone
    .ok (acc.1.insert path table, acc.2.insert path name)

/-- The main table, the tables by path and the service names by path. -/
abbrev Tables (H : Type) := DispatchTable H × HashMap Text (DispatchTable H) × HashMap Text Text

def buildTables (host : Host) (inputs : TableInputs H) : Building (Tables H) :=
  let definition := inputs.resolved.definition
  let serviceNames := host.iter.keys .services definition.services
  if serviceNames.length > 1 then
    let allOps := serviceNames.flatMap fun name =>
      (definition.services.lookup name).toList.flatMap (serviceOpNames definition)
    -- each table is given the handlers of its own service, so unknown ones are looked for here
    match (host.iter.keys .handlers inputs.handlers).find? fun name => name ∉ allOps with
    | some name => buildError (.unknownOperation name)
    | none => do
      let (serviceTables, servicePathNames) ← serviceNames.foldlM (addService host inputs) (∅, ∅)
      -- the table at the mount path is that of whichever service the map gives first
      let firstTable := ((host.iter.values .serviceTables serviceTables).head?).getD .empty
      .ok (firstTable, serviceTables, servicePathNames)
  else do
    let table ← liftDispatch (buildDispatchTable inputs)
    .ok (table, ∅, ∅)

def build (host : Host) (fuel : Nat) (builder : ServerBuilder H) : Building (SoapService H) := do
  let (wsdlBytes, resolved) ← loadWsdl host builder fuel
  let (dispatchTable, serviceTables, servicePathNames) ← buildTables host (tableInputs host builder resolved)
  .ok
    { dispatchTable, serviceTables, servicePathNames
      typeRegistry := resolved.typeRegistry
      wsdlRaw := wsdlBytes
      authFn := builder.authFn
      nonceCache := .new builder.nonceCacheHalfWindowSecs host.started
      timestampToleranceSecs := builder.timestampToleranceSecs
      mountPath := builder.mountPath
      maxBodyBytes := builder.maxBodyBytes }

end SoapServer.Server
