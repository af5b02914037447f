import SoapServer.Library.Traced
import SoapServer.Wsdl.Resolver

/-! The calls a resolution makes to its loader, also when it fails: the resolver once more,
with each call noted where it is made. -/

set_option autoImplicit false

namespace SoapServer

open Markup (Text)
open Maps Loops
open Traced (note ofExcept Refines)

/-- The locations asked for, the latest first, as imported WSDL documents and as schemas. -/
structure Calls where
  wsdl : List Text
  schema : List Text
  deriving DecidableEq, Repr

abbrev Calling (ε α : Type) := Traced Calls (Failure ε) α

namespace Xsd

def loadReferenceTraced (parseXml : TreeParser) (loader : SchemaLoader) (st : LoadState)
    (reference : Option Text × Text) : Calling SchemaError LoadState :=
  if reference.2 ∈ st.1 then pure st
  else do
    note fun calls => { calls with schema := reference.2 :: calls.schema }
    ofExcept (loadReference parseXml loader st reference)

def collectLoopTraced (parseXml : TreeParser) (loader : SchemaLoader) :
    Nat → FlatTypeMap → LoadState → Calling SchemaError (FlatTypeMap × List Text)
  | _, flat, (alreadyLoaded, []) => pure (flat, alreadyLoaded)
  | 0, _, (_, _ :: _) => ofExcept (.error .hang)
  | fuel + 1, flat, (alreadyLoaded, schema :: queue) => do
    let st ← schema.references.foldlM (loadReferenceTraced parseXml loader) (alreadyLoaded, queue)
    collectLoopTraced parseXml loader fuel (flat.merge schema) st

def resolveSchemaTraced (iter : MapOrder) (parseXml : TreeParser) (loader : SchemaLoader)
    (fuel : Nat) (raw : RawSchema) (alreadyLoaded : List Text) :
    Calling SchemaError (TypeRegistry × List Text) := do
  let (flat, alreadyLoaded) ← collectLoopTraced parseXml loader fuel .empty (alreadyLoaded, [raw])
  ofExcept ((resolveFlat iter flat).map fun registry => (registry, alreadyLoaded))

end Xsd

namespace Wsdl

open Xsd

/-- An error of a schema as an error of the WSDL that holds it. -/
def ofSchemaFailure : Failure SchemaError → Failure WsdlError
  | .error e => .error (.malformedXml ("schema resolution error: ".toList ++ e.toText))
  | .hang => .hang

def resolveInlineSchemaTraced (src : Sources) (st : SchemaState) (schemaStr : Text) :
    Calling WsdlError SchemaState :=
  match src.parseXml schemaStr with
  | .error e => ofExcept (loadingError (.malformedXml ("inline schema parse error: ".toList ++ e)))
  | .ok doc => do
    let raw := parseSchema doc
    let (registry, alreadyLoaded) ← (resolveSchemaTraced src.iter src.parseXml (schemaLoader src.loader) src.fuel
      raw st.alreadyLoadedSchemas).mapError ofSchemaFailure
    pure
      { alreadyLoadedSchemas := alreadyLoaded
        accumulatedTypes := st.accumulatedTypes ∪ registry
        accumulatedElementTypeMap := recordElements src.iter raw st.accumulatedElementTypeMap }

def resolveImportTraced (loader : WsdlLoader)
    (resolve : ResolveState → Text → Calling WsdlError (ResolvedWsdl × ResolveState))
    (acc : WsdlDefinition × ResolveState) (wsdlImport : WsdlImport) :
    Calling WsdlError (WsdlDefinition × ResolveState) :=
  match wsdlImport.location with
  | none => pure acc
  | some location =>
    if location ∈ acc.2.visited then pure acc
    else do
      note fun calls => { calls with wsdl := location :: calls.wsdl }
      match loader location with
      | .error e => ofExcept (loadingError e)
      | .ok bytes => do
        let (imported, st) ← resolve { acc.2 with visited := location :: acc.2.visited } bytes
        pure (acc.1.mergeImported imported.definition, st)

def resolveWsdlInnerTraced (src : Sources) :
    Nat → ResolveState → Text → Calling WsdlError (ResolvedWsdl × ResolveState)
  | 0, _, _ => ofExcept (.error .hang)
  | depth + 1, st, bytes =>
    match parseWsdl src.parseXml bytes with
    | .error e => ofExcept (loadingError e)
    | .ok rootDef => do
      let (definition, st) ←
        rootDef.imports.foldlM (resolveImportTraced src.loader (resolveWsdlInnerTraced src depth)) (rootDef, st)
      let schemas ← definition.schemas.foldlM (resolveInlineSchemaTraced src) st.schemas
      pure (⟨definition, schemas.accumulatedTypes, schemas.accumulatedElementTypeMap, bytes⟩, { st with schemas })

/-- `resolveWsdl` with no document visited, and the calls it makes. -/
def resolveWsdlTraced (src : Sources)
    (bytes : Text) : Loading (ResolvedWsdl × ResolveState) × Calls :=
  resolveWsdlInnerTraced src src.fuel (.initial []) bytes ⟨[], []⟩

end Wsdl

/-! No location twice. -/

/-- No location was asked for twice in one role. -/
structure Calls.Once (calls : Calls) : Prop where
  wsdl : calls.wsdl.Nodup
  schema : calls.schema.Nodup

/-- What was asked for is marked as visited, or as loaded. -/
structure Marked (visited alreadyLoaded : List Text) (calls : Calls) : Prop where
  once : calls.Once
  wsdl : calls.wsdl ⊆ visited
  schema : calls.schema ⊆ alreadyLoaded

namespace Xsd

variable {parseXml : TreeParser} {loader : SchemaLoader} {visited : List Text}

theorem loadReference_new {st st' : LoadState} {reference : Option Text × Text}
    (fresh : reference.2 ∉ st.1) (run : loadReference parseXml loader st reference = .ok st') :
    st'.1 = reference.2 :: st.1 := by
  simp only [loadReference, if_neg fresh] at run
  split at run
  next => cases run
  next =>
    split at run
    next => cases run
    next => exact Except.ok.inj run ▸ rfl

theorem loadReferenceTraced_refines (st : LoadState) (reference : Option Text × Text) :
    Refines (loadReferenceTraced parseXml loader st reference) (loadReference parseXml loader st reference)
      (Marked visited st.1) (fun st' => Marked visited st'.1) Calls.Once := by
  unfold loadReferenceTraced
  by_cases known : reference.2 ∈ st.1
  · rw [if_pos known, show loadReference parseXml loader st reference = .ok st from if_pos known]
    exact Traced.refines_pure fun _ marked => marked
  · rw [if_neg known]
    refine Refines.note (R := Marked visited (reference.2 :: st.1)) (fun calls marked => ?_) ?_
    · exact ⟨⟨marked.once.wsdl, List.nodup_cons.mpr ⟨fun asked => known (marked.schema asked), marked.once.schema⟩⟩,
        marked.wsdl, List.cons_subset_cons _ marked.schema⟩
    · refine Traced.refines_ofExcept (fun st' calls run marked => ?_) (fun calls marked => marked.once)
      rw [loadReference_new known run]
      exact marked

theorem collectLoopTraced_refines (fuel : Nat) (flat : FlatTypeMap) (st : LoadState) :
    Refines (collectLoopTraced parseXml loader fuel flat st) (collectLoop parseXml loader fuel flat st)
      (Marked visited st.1) (fun out => Marked visited out.2) Calls.Once := by
  induction fuel generalizing flat st with
  | zero =>
    obtain ⟨alreadyLoaded, _ | ⟨schema, queue⟩⟩ := st
    · exact Traced.refines_pure fun _ marked => marked
    · exact Traced.refines_ofExcept (fun _ _ run => by cases run) (fun _ marked => marked.once)
  | succ fuel ih =>
    obtain ⟨alreadyLoaded, _ | ⟨schema, queue⟩⟩ := st
    · exact Traced.refines_pure fun _ marked => marked
    · refine Refines.bind (Traced.refines_foldlM (fun st => Marked visited st.1)
        (fun st reference _ => loadReferenceTraced_refines st reference) (alreadyLoaded, queue)) ?_
      exact fun st _ => ih (flat.merge schema) st

theorem resolveSchemaTraced_refines (iter : MapOrder) (fuel : Nat) (raw : RawSchema)
    (alreadyLoaded : List Text) :
    Refines (resolveSchemaTraced iter parseXml loader fuel raw alreadyLoaded)
      (resolveSchema iter parseXml loader fuel raw alreadyLoaded)
      (Marked visited alreadyLoaded) (fun out => Marked visited out.2) Calls.Once := by
  refine Refines.bind (collectLoopTraced_refines fuel .empty (alreadyLoaded, [raw])) fun ⟨flat, loaded⟩ _ => ?_
  have plain : ((resolveFlat iter flat).map fun registry => (registry, loaded)) =
      resolveFlat iter flat >>= fun registry => .ok (registry, loaded) := by
    cases resolveFlat iter flat <;> rfl
  simp only [← plain]
  refine Traced.refines_ofExcept (fun out calls run marked => ?_) (fun _ marked => marked.once)
  obtain ⟨registry, _, rfl⟩ := map_eq_ok.mp run
  exact marked

end Xsd

namespace Wsdl

open Xsd

variable {src : Sources}

/-- A parsed inline schema is resolved, and its failure becomes the WSDL's. -/
theorem resolveInlineSchema_parsed {st : SchemaState} {schemaStr : Text} {doc : DomNode}
    (parsed : src.parseXml schemaStr = .ok doc) :
    resolveInlineSchema src st schemaStr =
      (resolveSchema src.iter src.parseXml (schemaLoader src.loader) src.fuel (parseSchema doc)
        st.alreadyLoadedSchemas).mapError ofSchemaFailure >>= fun out => .ok
          { alreadyLoadedSchemas := out.2
            accumulatedTypes := st.accumulatedTypes ∪ out.1
            accumulatedElementTypeMap := recordElements src.iter (parseSchema doc) st.accumulatedElementTypeMap } := by
  simp only [resolveInlineSchema, parsed]
  rcases resolveSchema src.iter src.parseXml (schemaLoader src.loader) src.fuel (parseSchema doc)
    st.alreadyLoadedSchemas with (e | _) | out <;> rfl

theorem resolveInlineSchemaTraced_refines (visited : List Text) (st : SchemaState)
    (schemaStr : Text) :
    Refines (resolveInlineSchemaTraced src st schemaStr) (resolveInlineSchema src st schemaStr)
      (Marked visited st.alreadyLoadedSchemas) (fun st' => Marked visited st'.alreadyLoadedSchemas)
      Calls.Once := by
  cases parsed : src.parseXml schemaStr with
  | error e =>
    simp only [resolveInlineSchemaTraced, resolveInlineSchema, parsed]
    exact Traced.refines_ofExcept (fun _ _ run => by cases run) (fun _ marked => marked.once)
  | ok doc =>
    rw [resolveInlineSchema_parsed parsed]
    simp only [resolveInlineSchemaTraced, parsed]
    exact Refines.bind ((resolveSchemaTraced_refines src.iter src.fuel _ st.alreadyLoadedSchemas).mapError
      ofSchemaFailure) fun out _ => Traced.refines_pure fun _ marked => marked

theorem resolveImportTraced_refines
    {resolveTraced : ResolveState → Text → Calling WsdlError (ResolvedWsdl × ResolveState)}
    {resolve : ResolveState → Text → Loading (ResolvedWsdl × ResolveState)}
    (document : ∀ st bytes, Refines (resolveTraced st bytes) (resolve st bytes)
      (Marked st.visited st.schemas.alreadyLoadedSchemas)
      (fun out => Marked out.2.visited out.2.schemas.alreadyLoadedSchemas) Calls.Once)
    (acc : WsdlDefinition × ResolveState) (wsdlImport : WsdlImport) :
    Refines (resolveImportTraced src.loader resolveTraced acc wsdlImport)
      (resolveImport src.loader resolve acc wsdlImport)
      (Marked acc.2.visited acc.2.schemas.alreadyLoadedSchemas)
      (fun out => Marked out.2.visited out.2.schemas.alreadyLoadedSchemas) Calls.Once := by
  unfold resolveImportTraced resolveImport
  cases wsdlImport.location with
  | none => exact Traced.refines_pure fun _ marked => marked
  | some location =>
    by_cases known : location ∈ acc.2.visited
    · simp only [if_pos known]
      exact Traced.refines_pure fun _ marked => marked
    · simp only [if_neg known]
      -- the location is marked before it is asked for, so it is asked for once
      refine Refines.note (R := Marked (location :: acc.2.visited) acc.2.schemas.alreadyLoadedSchemas)
        (fun calls marked => ?_) ?_
      · exact ⟨⟨List.nodup_cons.mpr ⟨fun asked => known (marked.wsdl asked), marked.once.wsdl⟩, marked.once.schema⟩,
          List.cons_subset_cons _ marked.wsdl, marked.schema⟩
      · cases src.loader location with
        | error e => exact Traced.refines_ofExcept (fun _ _ run => by cases run) (fun _ marked => marked.once)
        | ok bytes =>
          exact Refines.bind (document { acc.2 with visited := location :: acc.2.visited } bytes)
            fun out _ => Traced.refines_pure fun _ marked => marked

theorem resolveWsdlInnerTraced_refines (depth : Nat) (st : ResolveState) (bytes : Text) :
    Refines (resolveWsdlInnerTraced src depth st bytes) (resolveWsdlInner src depth st bytes)
      (Marked st.visited st.schemas.alreadyLoadedSchemas)
      (fun out => Marked out.2.visited out.2.schemas.alreadyLoadedSchemas) Calls.Once := by
  induction depth generalizing st bytes with
  | zero => exact Traced.refines_ofExcept (fun _ _ run => by cases run) (fun _ marked => marked.once)
  | succ depth ih =>
    unfold resolveWsdlInnerTraced resolveWsdlInner
    cases parseWsdl src.parseXml bytes with
    | error e => exact Traced.refines_ofExcept (fun _ _ run => by cases run) (fun _ marked => marked.once)
    | ok rootDef =>
      refine Refines.bind (Traced.refines_foldlM
        (fun acc => Marked acc.2.visited acc.2.schemas.alreadyLoadedSchemas)
        (fun acc wsdlImport _ => resolveImportTraced_refines ih acc wsdlImport) (rootDef, st)) fun acc _ => ?_
      refine Refines.bind (Traced.refines_foldlM
        (fun schemas => Marked acc.2.visited schemas.alreadyLoadedSchemas)
        (fun schemas schemaStr _ => resolveInlineSchemaTraced_refines acc.2.visited schemas schemaStr)
        acc.2.schemas) fun schemas _ => ?_
      exact Traced.refines_pure fun _ marked => marked

/-- Noting its calls changes nothing in what a resolution returns, and no location is asked
for twice in one role, whether it succeeds or fails. -/
theorem resolveWsdlTraced_once (src : Sources) (bytes : Text) :
    ((resolveWsdlTraced src bytes).1.map fun out => (out.1, out.2.visited)) = resolveWsdl src bytes [] ∧
      (resolveWsdlTraced src bytes).2.Once := by
  have start : Marked (ResolveState.initial []).visited (ResolveState.initial []).schemas.alreadyLoadedSchemas
      ⟨[], []⟩ := ⟨⟨.nil, .nil⟩, fun _ member => member, fun _ member => member⟩
  obtain ⟨same, ok, error⟩ := resolveWsdlInnerTraced_refines src.fuel (.initial []) bytes ⟨[], []⟩ start
  rw [resolveWsdlTraced, same, resolveWsdl]
  cases outcome : resolveWsdlInner src src.fuel (.initial []) bytes with
  | ok out => exact ⟨rfl, (ok out outcome).once⟩
  | error e => exact ⟨rfl, error e outcome⟩

end Wsdl

end SoapServer
