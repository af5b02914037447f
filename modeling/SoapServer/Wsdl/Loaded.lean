import SoapServer.Wsdl.Resolver

/-! The documents behind a resolved WSDL: which ones are loaded, in which order, and what
the merged definition and the shared maps hold of each. -/

set_option autoImplicit false

namespace SoapServer.Wsdl

open Markup (Text)
open Maps Loops
open Xsd (parseSchema)

/-- The definitions in the order in which they are loaded, each importing document before
what it imports, and the inline schemas in the order in which they are resolved. -/
structure LoadedWsdl where
  definitions : List WsdlDefinition
  schemas : List Text
  visited : List Text

def loadImport (loader : WsdlLoader) (load : List Text → Text → Option LoadedWsdl)
    (acc : LoadedWsdl) (wsdlImport : WsdlImport) : Option LoadedWsdl :=
  match wsdlImport.location with
  | none => some acc
  | some location =>
    if location ∈ acc.visited then some acc
    else
      match loader location with
      | .error _ => none
      | .ok bytes => (load (location :: acc.visited) bytes).map fun imported =>
          ⟨acc.definitions ++ imported.definitions, acc.schemas ++ imported.schemas,
            imported.visited⟩

/-- Loading without resolving. -/
def loadDocuments (src : Sources) : Nat → List Text → Text → Option LoadedWsdl
  | 0, _, _ => none
  | depth + 1, visited, bytes =>
    match parseWsdl src.parseXml bytes with
    | .error _ => none
    | .ok rootDef =>
      (rootDef.imports.foldlM (loadImport src.loader (loadDocuments src depth)) ⟨[rootDef], [], visited⟩).map
        fun loaded => { loaded with schemas := loaded.schemas ++ rootDef.schemas }

/-- What is found under a local name in the first document that has it. -/
def firstLoaded {V : Type} (documents : List WsdlDefinition)
    (field : WsdlDefinition → HashMap Text V) (l : Text) :
    Option V :=
  documents.findSome? fun document => (field document).lookup l

/-- A definition that merges documents, earlier ones first. -/
structure Merges (definition : WsdlDefinition) (documents : List WsdlDefinition) : Prop where
  messages : ∀ l, definition.messages.lookup l = firstLoaded documents (·.messages) l
  portTypes : ∀ l, definition.portTypes.lookup l = firstLoaded documents (·.portTypes) l
  bindings : ∀ l, definition.bindings.lookup l = firstLoaded documents (·.bindings) l
  services : ∀ l, definition.services.lookup l = firstLoaded documents (·.services) l

theorem merges_single (definition : WsdlDefinition) : Merges definition [definition] where
  messages l := by simp [firstLoaded]
  portTypes l := by simp [firstLoaded]
  bindings l := by simp [firstLoaded]
  services l := by simp [firstLoaded]

theorem Merges.mergeImported {definition imported : WsdlDefinition}
    {documents others : List WsdlDefinition} (merges : Merges definition documents)
    (importedMerges : Merges imported others) :
    Merges (definition.mergeImported imported) (documents ++ others) where
  messages l := by
    rw [firstLoaded, List.findSome?_append, ← firstLoaded, ← firstLoaded, ← merges.messages,
      ← importedMerges.messages]
    exact lookup_union _ _ l
  portTypes l := by
    rw [firstLoaded, List.findSome?_append, ← firstLoaded, ← firstLoaded, ← merges.portTypes,
      ← importedMerges.portTypes]
    exact lookup_union _ _ l
  bindings l := by
    rw [firstLoaded, List.findSome?_append, ← firstLoaded, ← firstLoaded, ← merges.bindings,
      ← importedMerges.bindings]
    exact lookup_union _ _ l
  services l := by
    rw [firstLoaded, List.findSome?_append, ← firstLoaded, ← firstLoaded, ← merges.services,
      ← importedMerges.services]
    exact lookup_union _ _ l

variable {src : Sources}

/-- How a resolution stands to the loading of the same documents. -/
structure Follows (src : Sources) (start : SchemaState) (definition : WsdlDefinition)
    (st : ResolveState) (loaded : LoadedWsdl) : Prop where
  visited : st.visited = loaded.visited
  merges : Merges definition loaded.definitions
  schemas : loaded.schemas.foldlM (resolveInlineSchema src) start = .ok st.schemas

/-- One import keeps the two together, if resolving a document does. -/
theorem Follows.resolveImport {start : SchemaState}
    {resolve : ResolveState → Text → Loading (ResolvedWsdl × ResolveState)}
    (load : List Text → Text → Option LoadedWsdl)
    (document : ∀ {st st' bytes resolved}, resolve st bytes = .ok (resolved, st') →
      ∃ loaded, load st.visited bytes = some loaded ∧ Follows src st.schemas resolved.definition st' loaded)
    {acc acc' : WsdlDefinition × ResolveState} {loaded : LoadedWsdl} {wsdlImport : WsdlImport}
    (follows : Follows src start acc.1 acc.2 loaded)
    (step : resolveImport src.loader resolve acc wsdlImport = .ok acc') :
    ∃ loaded', loadImport src.loader load loaded wsdlImport = some loaded' ∧
      Follows src start acc'.1 acc'.2 loaded' ∧ acc'.1.schemas = acc.1.schemas := by
  simp only [Wsdl.resolveImport] at step
  simp only [loadImport, ← follows.visited]
  cases given : wsdlImport.location with
  | none =>
    simp only [given] at step
    obtain rfl := Except.ok.inj step
    exact ⟨loaded, rfl, follows, rfl⟩
  | some location =>
    simp only [given] at step ⊢
    by_cases seen : location ∈ acc.2.visited
    · rw [if_pos seen] at step ⊢
      obtain rfl := Except.ok.inj step
      exact ⟨loaded, rfl, follows, rfl⟩
    · rw [if_neg seen] at step ⊢
      cases text : src.loader location with
      | error e => simp only [text] at step; cases step
      | ok bytes =>
        simp only [text] at step ⊢
        obtain ⟨⟨imported, st⟩, resolved, same⟩ := bind_eq_ok.mp step
        obtain rfl := Except.ok.inj same
        obtain ⟨inner, found, innerFollows⟩ := document resolved
        refine ⟨⟨loaded.definitions ++ inner.definitions, loaded.schemas ++ inner.schemas, inner.visited⟩,
          by rw [found]; rfl, ⟨innerFollows.visited, follows.merges.mergeImported innerFollows.merges, ?_⟩, rfl⟩
        exact foldlM_append_eq_ok.mpr ⟨_, follows.schemas, innerFollows.schemas⟩

theorem resolveWsdlInner_follows {depth : Nat} {st st' : ResolveState} {bytes : Text}
    {resolved : ResolvedWsdl} (run : resolveWsdlInner src depth st bytes = .ok (resolved, st')) :
    ∃ loaded, loadDocuments src depth st.visited bytes = some loaded ∧
      Follows src st.schemas resolved.definition st' loaded ∧
      resolved.typeRegistry = st'.schemas.accumulatedTypes ∧
      resolved.elementTypeMap = st'.schemas.accumulatedElementTypeMap := by
  induction depth generalizing st st' bytes resolved with
  | zero => cases run
  | succ depth ih =>
    simp only [resolveWsdlInner] at run
    cases parsed : parseWsdl src.parseXml bytes with
    | error e => simp only [parsed] at run; cases run
    | ok rootDef =>
      simp only [parsed] at run
      obtain ⟨⟨definition, mid⟩, imports, rest⟩ := bind_eq_ok.mp run
      obtain ⟨schemas, own, same⟩ := bind_eq_ok.mp rest
      cases same
      have start : Follows src st.schemas rootDef st ⟨[rootDef], [], st.visited⟩ :=
        ⟨rfl, merges_single rootDef, rfl⟩
      -- the imports loop changes the maps of the root, never its own schemas
      obtain ⟨loaded, found, follows, ownSchemas⟩ := foldlM_simulates
        (fun acc loaded => Follows src st.schemas acc.1 acc.2 loaded ∧ acc.1.schemas = rootDef.schemas)
        (fun wsdlImport acc loaded acc' related step => by
          obtain ⟨loaded', loads, follows, same⟩ :=
            related.1.resolveImport (loadDocuments src depth)
            (fun resolves => by obtain ⟨inner, found, follows, _⟩ := ih resolves; exact ⟨inner, found, follows⟩)
            step
          exact ⟨loaded', loads, follows, same.trans related.2⟩)
        ⟨start, rfl⟩ imports
      refine ⟨{ loaded with schemas := loaded.schemas ++ rootDef.schemas },
        by simp only [loadDocuments, parsed]; rw [found]; rfl,
        ⟨follows.visited, follows.merges, ?_⟩, rfl, rfl⟩
      exact foldlM_append_eq_ok.mpr ⟨_, follows.schemas, ownSchemas ▸ own⟩

/-- The documents a resolution of `bytes` loads. -/
def Loads (src : Sources) (bytes : Text) (visited : List Text) (loaded : LoadedWsdl) : Prop :=
  loadDocuments src src.fuel visited bytes = some loaded

/-- A resolved WSDL merges the documents loaded for it, and its maps are what their inline
schemas leave, taken in order. -/
theorem resolveWsdl_loads {bytes : Text} {visited visited' : List Text} {resolved : ResolvedWsdl}
    (run : resolveWsdl src bytes visited = .ok (resolved, visited')) :
    ∃ loaded schemas, Loads src bytes visited loaded ∧ Merges resolved.definition loaded.definitions ∧
      loaded.schemas.foldlM (resolveInlineSchema src) ⟨[], ∅, ∅⟩ = .ok schemas ∧
      resolved.typeRegistry = schemas.accumulatedTypes ∧
      resolved.elementTypeMap = schemas.accumulatedElementTypeMap := by
  rw [resolveWsdl, bind_eq_ok] at run
  obtain ⟨⟨inner, st⟩, run, same⟩ := run
  cases same
  obtain ⟨loaded, found, follows, registry, elements⟩ := resolveWsdlInner_follows run
  exact ⟨loaded, st.schemas, found, follows.merges, follows.schemas, registry, elements⟩

end SoapServer.Wsdl
