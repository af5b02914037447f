import SoapServer.Wsdl.LoaderCalls
import SoapServer.Wsdl.Reachable
import SoapServer.Xsd.Termination

/-! Import resolution as a whole: it ends, loads each location once, and keeps the names of
everything reachable. -/

set_option autoImplicit false

namespace SoapServer

open Markup (Text)
open Maps Loops
open Search

namespace Wsdl

open Xsd

variable {src : Sources} {bytes : Text} {locations : List Text}

/-- The documents of one type resolution: an inline schema and those it is the first to load. -/
def TypesOf (src : Sources) (bytes : Text) (documents : List RawSchema) : Prop :=
  ∃ definition, ReachableWsdl src bytes definition ∧ ∃ schemaStr ∈ definition.schemas,
    ∃ doc alreadyLoaded loaded, src.parseXml schemaStr = .ok doc ∧
      gatherLoop src.parseXml (schemaLoader src.loader) src.fuel (alreadyLoaded, [parseSchema doc]) =
        .ok (documents, loaded)

/-- Some type resolution does not end. -/
def TypesHang (src : Sources) (bytes : Text) : Prop :=
  ∃ documents, TypesOf src bytes documents ∧ resolveFlat src.iter (.ofDocuments documents) = .error .hang

theorem TypesHang.of_import {definition : WsdlDefinition} {location text : Text}
    (parsed : parseWsdl src.parseXml bytes = .ok definition)
    (member : location ∈ definition.locations) (found : src.loader location = .ok text)
    (hang : TypesHang src text) : TypesHang src bytes := by
  obtain ⟨documents, ⟨inner, reachable, rest⟩, stuck⟩ := hang
  refine ⟨documents, ⟨inner, reachable.trans fun d held => ?_, rest⟩, stuck⟩
  have rooted : ReachableWsdl src bytes definition := .root parsed
  exact rooted.follow member ⟨text, found, held⟩

theorem resolveInlineSchema_hang (known : ∀ l text, src.loader l = .ok text → l ∈ locations)
    (enough : locations.length < src.fuel) {st : SchemaState} {schemaStr : Text}
    (run : resolveInlineSchema src st schemaStr = .error .hang) :
    ∃ doc documents loaded, src.parseXml schemaStr = .ok doc ∧
      gatherLoop src.parseXml (schemaLoader src.loader) src.fuel (st.alreadyLoadedSchemas, [parseSchema doc]) =
        .ok (documents, loaded) ∧ resolveFlat src.iter (.ofDocuments documents) = .error .hang := by
  simp only [resolveInlineSchema] at run
  cases parsed : src.parseXml schemaStr with
  | error e => simp only [parsed, loadingError] at run; cases run
  | ok doc =>
    simp only [parsed] at run
    split at run
    next => simp [loadingError] at run
    next outcome =>
      rw [resolveSchema] at outcome
      rcases bind_eq_error.mp outcome with collecting | ⟨⟨flat, loaded⟩, collected, rest⟩
      · refine absurd collecting (collectLoop_returns
          (fun _ l text found => known l text (schemaLoader_eq_ok.mp found)) ?_)
        have := unvisited_le locations (List.nil_subset st.alreadyLoadedSchemas)
        simp only [remaining, List.length_singleton]
        simp only [unvisited, List.not_mem_nil, not_false_eq_true, decide_true, List.filter_true] at this ⊢
        omega
      · obtain ⟨documents, gathered, rfl⟩ := collectLoop_eq_ok collected
        rcases bind_eq_error.mp rest with stuck | ⟨_, _, done⟩
        · exact ⟨doc, documents, loaded, rfl, gathered, stuck⟩
        · cases done
    next => cases run

theorem resolveWsdlInner_grows {depth : Nat} {st st' : ResolveState} {resolved : ResolvedWsdl}
    (run : resolveWsdlInner src depth st bytes = .ok (resolved, st')) :
    st.visited ⊆ st'.visited := by
  obtain ⟨loaded, found, follows, _⟩ := resolveWsdlInner_follows run
  obtain ⟨_, _, _, more⟩ := loadDocuments_all depth st.visited bytes loaded found
  exact follows.visited ▸ more.visits.grows

theorem resolveImport_grows {depth : Nat} {acc acc' : WsdlDefinition × ResolveState}
    {wsdlImport : WsdlImport}
    (run : resolveImport src.loader (resolveWsdlInner src depth) acc wsdlImport = .ok acc') :
    acc.2.visited ⊆ acc'.2.visited ∧ acc'.1.schemas = acc.1.schemas := by
  unfold resolveImport at run
  cases given : wsdlImport.location with
  | none =>
    simp only [given] at run
    obtain rfl := Except.ok.inj run
    exact ⟨fun _ member => member, rfl⟩
  | some location =>
    simp only [given] at run
    by_cases seen : location ∈ acc.2.visited
    · rw [if_pos seen] at run
      obtain rfl := Except.ok.inj run
      exact ⟨fun _ member => member, rfl⟩
    · rw [if_neg seen] at run
      cases text : src.loader location with
      | error e => simp only [text] at run; cases run
      | ok bytes =>
        simp only [text] at run
        obtain ⟨⟨imported, st⟩, resolves, same⟩ := bind_eq_ok.mp run
        obtain rfl := Except.ok.inj same
        exact ⟨List.Subset.trans (List.subset_cons_self _ _) (resolveWsdlInner_grows resolves), rfl⟩

/-- With enough fuel for all locations, only a type resolution keeps a resolution from ending. -/
theorem resolveWsdlInner_hang (known : ∀ l text, src.loader l = .ok text → l ∈ locations)
    (enough : locations.length < src.fuel) {depth : Nat} {st : ResolveState} {bytes : Text}
    (deep : unvisited locations st.visited < depth)
    (run : resolveWsdlInner src depth st bytes = .error .hang) : TypesHang src bytes := by
  -- on the depth, which the locations that are still unvisited bound
  induction depth generalizing st bytes with
  | zero => omega
  | succ depth ih =>
    simp only [resolveWsdlInner] at run
    cases parsed : parseWsdl src.parseXml bytes with
    | error e => simp only [parsed, loadingError] at run; cases run
    | ok rootDef =>
      simp only [parsed] at run
      have kept {imports : List WsdlImport} {acc : WsdlDefinition × ResolveState}
          (run : imports.foldlM (resolveImport src.loader (resolveWsdlInner src depth)) (rootDef, st) = .ok acc) :
          st.visited ⊆ acc.2.visited ∧ acc.1.schemas = rootDef.schemas :=
        foldlM_invariant (fun acc => st.visited ⊆ acc.2.visited ∧ acc.1.schemas = rootDef.schemas)
          (fun _ _ _ _ held step => ⟨List.Subset.trans held.1 (resolveImport_grows step).1,
            (resolveImport_grows step).2.trans held.2⟩) ⟨fun _ member => member, rfl⟩ run
      rcases bind_eq_error.mp run with importing | ⟨⟨definition, mid⟩, imports, rest⟩
      · obtain ⟨done, wsdlImport, after, acc, split, before, failed⟩ := foldlM_eq_error importing
        simp only [resolveImport] at failed
        cases given : wsdlImport.location with
        | none => simp only [given] at failed; cases failed
        | some location =>
          simp only [given] at failed
          by_cases seen : location ∈ acc.2.visited
          · rw [if_pos seen] at failed; cases failed
          · rw [if_neg seen] at failed
            cases text : src.loader location with
            | error e => simp only [text, loadingError] at failed; cases failed
            | ok imported =>
              simp only [text] at failed
              rcases bind_eq_error.mp failed with inner | ⟨_, _, merged⟩
              · -- the import visits one location more, so the depth below is enough
                have fewer := unvisited_cons_lt (known location imported text) seen
                have := unvisited_le locations (kept before).1
                refine (ih (by simp only; omega) inner).of_import parsed (List.mem_filterMap.mpr
                  ⟨wsdlImport, by rw [split]; simp, given⟩) text
              · cases merged
      · rcases bind_eq_error.mp rest with resolving | ⟨_, _, done⟩
        · obtain ⟨done, schemaStr, after, schemas, split, _, failed⟩ := foldlM_eq_error resolving
          -- no import hangs: it is an inline schema of the root document
          obtain ⟨doc, documents, loaded, readable, gathered, stuck⟩ :=
            resolveInlineSchema_hang known enough failed
          refine ⟨documents, ⟨rootDef, .root parsed, schemaStr, ?_, doc, _, loaded, readable, gathered⟩, stuck⟩
          rw [← (kept imports).2, split]
          simp
        · cases done

/-! The names. -/

/-- Of one kind of definition, the root's own are kept, and every name of a reachable
document has an entry. -/
structure KeepsNames (src : Sources) (bytes : Text) (resolved : ResolvedWsdl) {V : Type}
    (field : WsdlDefinition → HashMap Text V) : Prop where
  own : ∀ root, parseWsdl src.parseXml bytes = .ok root → ∀ name v, (field root).lookup name = some v →
    (field resolved.definition).lookup name = some v
  entry : ∀ definition, ReachableWsdl src bytes definition → ∀ name, ((field definition).lookup name).isSome →
    ((field resolved.definition).lookup name).isSome

structure KeepsAll (src : Sources) (bytes : Text) (resolved : ResolvedWsdl) : Prop where
  messages : KeepsNames src bytes resolved (·.messages)
  portTypes : KeepsNames src bytes resolved (·.portTypes)
  bindings : KeepsNames src bytes resolved (·.bindings)
  services : KeepsNames src bytes resolved (·.services)
  types : ∀ raw, ReachableSchema src bytes raw → ∀ q, (raw.types.lookup q).isSome →
    (resolved.typeRegistry.lookup q).isSome

theorem KeepsNames.of_merged {resolved : ResolvedWsdl} {loaded : LoadedWsdl} {V : Type}
    {field : WsdlDefinition → HashMap Text V} (loads : Loads src bytes [] loaded)
    (merged : ∀ l, (field resolved.definition).lookup l = firstLoaded loaded.definitions field l) :
    KeepsNames src bytes resolved field where
  own root parsed name v known := by
    obtain ⟨first, others, parsed', more⟩ := loadDocuments_all src.fuel [] bytes loaded loads
    have documents : loaded.definitions = first :: others := more.definitions
    cases parsed.symm.trans parsed'
    rw [merged, documents, firstLoaded, List.findSome?_cons, known]
  entry definition reachable name known := by
    rw [merged]
    exact List.findSome?_isSome_iff.mpr ⟨definition, loaded_of_reachable loads reachable, known⟩

theorem resolveWsdl_keeps {resolved : ResolvedWsdl} {visited : List Text}
    (run : resolveWsdl src bytes [] = .ok (resolved, visited)) : KeepsAll src bytes resolved := by
  obtain ⟨loaded, schemas, loads, merges, inline, registry, _⟩ := resolveWsdl_loads run
  refine ⟨.of_merged loads merges.messages, .of_merged loads merges.portTypes,
    .of_merged loads merges.bindings,
    .of_merged loads merges.services, fun raw reachable q known => ?_⟩
  obtain ⟨blocks, registries, blocksOf, resolutions, merged⟩ := inlineSchemas_blocks inline
  obtain ⟨block, member, within⟩ := List.mem_flatten.mp (block_of_reachable loads blocksOf reachable)
  have declared := Kind.types.lookup_of_declared within known
  obtain ⟨own, among, resolves⟩ := registry_of_block resolutions member
  rw [registry, merged, AList.lookup_empty, Option.none_or]
  exact List.findSome?_isSome_iff.mpr ⟨own, among, resolveFlat_declared resolves declared⟩

def importNode (location : String) : DomNode := wsdlNode "import" [attr "location" location] []

def cyclicWsdl : DomNode := definitionsNode [importNode "b.wsdl", messageNode "M" "a:m"]

def includingSchema : DomNode :=
  schemaNode "schema" [attr "targetNamespace" "urn:b"]
    [schemaNode "include" [attr "schemaLocation" "t.xsd"] [], schemaNode "simpleType" [attr "name" "S"] []]

def typesSchema : DomNode :=
  schemaNode "schema" [attr "targetNamespace" "urn:b"]
    [schemaNode "include" [attr "schemaLocation" "t.xsd"] [],
      schemaNode "complexType" [attr "name" "T"] [schemaNode "sequence" [] []]]

def cycleWsdl : DomNode :=
  definitionsNode
    [importNode "a.wsdl", importNode "b.wsdl", wsdlNode "types" [] [includingSchema], messageNode "N" "a:n"]

def cyclicLocated : List (Text × DomNode) :=
  [("a.wsdl".toList, cyclicWsdl), ("b.wsdl".toList, cycleWsdl), ("t.xsd".toList, typesSchema)]

def cyclicDocuments : List DomNode := includingSchema :: cyclicLocated.map Prod.snd

def cyclicSources : Sources := { Sources.ofDocuments [includingSchema] cyclicLocated with fuel := 4 }

theorem cyclicSources_known (l text : Text) (found : cyclicSources.loader l = .ok text) :
    l ∈ cyclicLocated.map Prod.fst := by
  by_contra absent
  have unknown : cyclicLocated.lookup l = none := List.lookup_eq_none_iff.mpr fun entry member => by
    have different : l ≠ entry.1 := fun same => absent (List.mem_map.mpr ⟨entry, member, same.symm⟩)
    simpa using different
  simp only [cyclicSources, Sources.ofDocuments, unknown] at found
  cases found

theorem cyclicSources_gathers {doc : DomNode} (member : doc ∈ cyclicDocuments)
    {alreadyLoaded loaded : List Text} {documents : List RawSchema}
    (run : gatherLoop cyclicSources.parseXml (schemaLoader cyclicSources.loader) cyclicSources.fuel
      (alreadyLoaded, [parseSchema doc]) = .ok (documents, loaded)) :
    documents = [parseSchema doc] ∨ documents = [parseSchema doc, parseSchema typesSchema] := by
  have itself : (parseSchema typesSchema).references = [(none, "t.xsd".toList)] := by decide +kernel
  have found : schemaLoader cyclicSources.loader none "t.xsd".toList = .ok (nodeToString typesSchema) := rfl
  have parsed : cyclicSources.parseXml (nodeToString typesSchema) = .ok typesSchema :=
    by decide +kernel
  have asks : (parseSchema doc).references = [] ∨ (parseSchema doc).references = [(none, "t.xsd".toList)] := by
    have all : ∀ doc ∈ cyclicDocuments,
        (parseSchema doc).references = [] ∨ (parseSchema doc).references = [(none, "t.xsd".toList)] := by
      decide +kernel
    exact all doc member
  have fuel : cyclicSources.fuel = 3 + 1 := rfl
  rw [fuel] at run
  rcases asks with none_ | one
  · simp [gatherLoop, none_, bind, Except.bind, pure, Except.pure] at run
    exact .inl run.1.symm
  · by_cases seen : "t.xsd".toList ∈ alreadyLoaded
    · simp only [gatherLoop, one, List.foldlM_cons, List.foldlM_nil, loadReference, if_pos seen,
        bind, Except.bind, pure, Except.pure] at run
      cases run
      exact .inl rfl
    · simp only [gatherLoop, one, itself, List.foldlM_cons, List.foldlM_nil, loadReference,
        if_neg seen, found,
        parsed, if_pos (List.mem_cons_self), bind, Except.bind, pure, Except.pure] at run
      cases run
      exact .inr rfl

theorem cyclicSources_types_end (bytes : Text) : ¬ TypesHang cyclicSources bytes := by
  rintro ⟨documents, ⟨_, _, _, _, doc, _, _, parsed, gathered⟩, stuck⟩
  have listed : doc ∈ cyclicDocuments := by
    simp only [cyclicSources, Sources.ofDocuments, parsesWritten] at parsed
    split at parsed
    next document found =>
      obtain rfl := Except.ok.inj parsed
      exact List.mem_of_find?_eq_some found
    next => cases parsed
  have ends : ∀ doc ∈ cyclicDocuments,
      (resolveFlat .stored (.ofDocuments [parseSchema doc])).toBool = true ∧
        (resolveFlat .stored (.ofDocuments [parseSchema doc, parseSchema typesSchema])).toBool = true := by
    decide +kernel
  have iter : cyclicSources.iter = .stored := rfl
  rcases cyclicSources_gathers listed gathered with rfl | rfl
  · have := (ends doc listed).1
    rw [← iter, stuck] at this
    cases this
  · have := (ends doc listed).2
    rw [← iter, stuck] at this
    cases this

end Wsdl

end SoapServer
