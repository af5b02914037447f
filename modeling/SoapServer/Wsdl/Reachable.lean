import SoapServer.Library.Search
import SoapServer.Wsdl.SchemaBlocks

/-! The documents reachable over imports and includes, all of which a resolution loads. -/

set_option autoImplicit false

namespace SoapServer

open Markup (Text)
open Maps Loops
open Search

namespace Xsd

def RawSchema.locations (raw : RawSchema) : List Text := raw.references.map Prod.snd

/-- The schema document a location holds. -/
def HoldsSchema (parseXml : TreeParser) (loader : SchemaLoader) (location : Text)
    (raw : RawSchema) : Prop :=
  ∃ ns text doc, loader ns location = .ok text ∧ parseXml text = .ok doc ∧ parseSchema doc = raw

/-! The schemas of one inline schema. -/

variable {parseXml : TreeParser} {loader : SchemaLoader}

/-- What loading some references does: they are marked, and what was not marked before is
on the stack. -/
structure Queued (parseXml : TreeParser) (loader : SchemaLoader) (st : LoadState)
    (references : List (Option Text × Text)) (st' : LoadState) : Prop where
  marked : references.map Prod.snd ⊆ st'.1
  grows : st.1 ⊆ st'.1
  stacked : st.2 ⊆ st'.2
  fetched : ∀ l ∈ st'.1, l ∈ st.1 ∨ ∃ raw ∈ st'.2, HoldsSchema parseXml loader l raw

theorem loadReference_queued {st st' : LoadState} {reference : Option Text × Text}
    (run : loadReference parseXml loader st reference = .ok st') :
    Queued parseXml loader st [reference] st' := by
  obtain ⟨alreadyLoaded, queue⟩ := st
  obtain ⟨ns, location⟩ := reference
  unfold loadReference at run
  by_cases known : location ∈ alreadyLoaded
  · simp only [if_pos known] at run
    obtain rfl := Except.ok.inj run
    exact ⟨by simpa using known, fun _ member => member, fun _ member => member,
      fun _ member => .inl member⟩
  · simp only [if_neg known] at run
    cases text : loader ns location with
    | error e => rw [text] at run; cases run
    | ok xmlText =>
      simp only [text] at run
      cases parsed : parseXml xmlText with
      | error e => rw [parsed] at run; cases run
      | ok doc =>
        simp only [parsed] at run
        obtain rfl := Except.ok.inj run
        refine ⟨by simp, List.subset_cons_self _ _, List.subset_cons_self _ _, fun l member => ?_⟩
        rcases List.mem_cons.mp member with rfl | member
        · exact .inr ⟨parseSchema doc, .head _, ns, xmlText, doc, text, parsed, rfl⟩
        · exact .inl member

theorem loadReferences_queued {references : List (Option Text × Text)} {st st' : LoadState}
    (run : references.foldlM (loadReference parseXml loader) st = .ok st') :
    Queued parseXml loader st references st' := by
  refine foldlM_prefix_invariant (Queued parseXml loader st) (fun done reference mid next queued step => ?_)
    ⟨List.nil_subset _, fun _ member => member, fun _ member => member, fun _ member => .inl member⟩ run
  have one := loadReference_queued step
  refine ⟨?_, List.Subset.trans queued.grows one.grows,
    List.Subset.trans queued.stacked one.stacked, fun l member => ?_⟩
  · rw [List.map_append]
    exact List.append_subset.mpr ⟨List.Subset.trans queued.marked one.grows, one.marked⟩
  · rcases one.fetched l member with member | new
    · rcases queued.fetched l member with old | ⟨raw, stacked, holds⟩
      · exact .inl old
      · exact .inr ⟨raw, one.stacked stacked, holds⟩
    · exact .inr new

theorem gatherLoop_visits {fuel : Nat} {st : LoadState} {documents : List RawSchema}
    {loaded : List Text} (run : gatherLoop parseXml loader fuel st = .ok (documents, loaded)) :
    st.2 ⊆ documents ∧ Visits RawSchema.locations (HoldsSchema parseXml loader) st.1 documents loaded := by
  induction fuel generalizing st documents with
  | zero =>
    obtain ⟨alreadyLoaded, _ | ⟨schema, queue⟩⟩ := st
    · cases run
      exact ⟨fun _ member => member, .nil _⟩
    · cases run
  | succ fuel ih =>
    obtain ⟨alreadyLoaded, _ | ⟨schema, queue⟩⟩ := st
    · cases run
      exact ⟨fun _ member => member, .nil _⟩
    · rw [gatherLoop, bind_eq_ok] at run
      obtain ⟨mid, loads, run⟩ := run
      obtain ⟨⟨others, after⟩, gathered, same⟩ := bind_eq_ok.mp run
      cases same
      have queued := loadReferences_queued loads
      obtain ⟨processed, visits⟩ := ih gathered
      refine ⟨List.cons_subset_cons _ (List.Subset.trans queued.stacked processed), ?_⟩
      refine Visits.cons (visits.unmark queued.grows fun l member => ?_)
        (List.Subset.trans queued.marked visits.grows)
      refine (queued.fetched l member).imp_right ?_
      rintro ⟨raw, stacked, holds⟩
      exact ⟨raw, processed stacked, holds⟩

end Xsd

namespace Wsdl

open Xsd

variable {src : Sources} {bytes : Text}

/-! What is reachable. -/

def WsdlDefinition.locations (definition : WsdlDefinition) : List Text :=
  definition.imports.filterMap (·.location)

/-- The WSDL document a location holds. -/
def HoldsWsdl (src : Sources) (location : Text) (definition : WsdlDefinition) : Prop :=
  ∃ text, src.loader location = .ok text ∧ parseWsdl src.parseXml text = .ok definition

/-- The WSDL documents reachable from a root by `wsdl:import`. -/
def ReachableWsdl (src : Sources) (bytes : Text) : WsdlDefinition → Prop :=
  Reachable WsdlDefinition.locations (HoldsWsdl src) fun definition =>
    parseWsdl src.parseXml bytes = .ok definition

/-- An inline schema of a reachable WSDL document, read as a document of its own. -/
def InlineSchema (src : Sources) (bytes : Text) (raw : RawSchema) : Prop :=
  ∃ definition, ReachableWsdl src bytes definition ∧
    ∃ schemaStr ∈ definition.schemas, ∃ doc, src.parseXml schemaStr = .ok doc ∧ parseSchema doc = raw

/-- The schema documents reachable from there by `xs:import` and `xs:include`. -/
def ReachableSchema (src : Sources) (bytes : Text) : RawSchema → Prop :=
  Reachable RawSchema.locations (HoldsSchema src.parseXml (schemaLoader src.loader)) (InlineSchema src bytes)

theorem holdsWsdl_unique {location : Text} {definition definition' : WsdlDefinition}
    (holds : HoldsWsdl src location definition) (holds' : HoldsWsdl src location definition') :
    definition = definition' := by
  obtain ⟨text, found, parsed⟩ := holds
  obtain ⟨text', found', parsed'⟩ := holds'
  cases found.symm.trans found'
  exact Except.ok.inj (parsed.symm.trans parsed')

theorem schemaLoader_eq_ok {loader : WsdlLoader} {ns : Option Text} {location text : Text} :
    schemaLoader loader ns location = .ok text ↔ loader location = .ok text := by
  unfold schemaLoader
  cases loader location <;> simp

theorem holdsSchema_unique {location : Text} {raw raw' : RawSchema}
    (holds : HoldsSchema src.parseXml (schemaLoader src.loader) location raw)
    (holds' : HoldsSchema src.parseXml (schemaLoader src.loader) location raw') : raw = raw' := by
  obtain ⟨_, text, doc, found, parsed, rfl⟩ := holds
  obtain ⟨_, text', doc', found', parsed', rfl⟩ := holds'
  cases (schemaLoader_eq_ok.mp found).symm.trans (schemaLoader_eq_ok.mp found')
  cases parsed.symm.trans parsed'
  rfl

/-! Everything is loaded. -/

/-- What a search over WSDL documents has loaded beyond what was loaded before. -/
structure LoadsMore (src : Sources) (visited : List Text) (acc loaded : LoadedWsdl)
    (documents : List WsdlDefinition) (inline : List Text) : Prop where
  definitions : loaded.definitions = acc.definitions ++ documents
  schemas : loaded.schemas = acc.schemas ++ inline
  own : ∀ definition ∈ documents, definition.schemas ⊆ inline
  visits : Visits WsdlDefinition.locations (HoldsWsdl src) visited documents loaded.visited

/-- How a document is loaded: it comes first, and the search has followed all its imports. -/
def LoadsAll (src : Sources) (load : List Text → Text → Option LoadedWsdl) : Prop :=
  ∀ visited bytes loaded, load visited bytes = some loaded →
    ∃ definition others, parseWsdl src.parseXml bytes = .ok definition ∧
      LoadsMore src visited ⟨[], [], visited⟩ loaded (definition :: others) loaded.schemas

theorem loadImport_more {load : List Text → Text → Option LoadedWsdl} (all : LoadsAll src load)
    {acc loaded : LoadedWsdl} {wsdlImport : WsdlImport}
    (run : loadImport src.loader load acc wsdlImport = some loaded) :
    ∃ documents schemas, LoadsMore src acc.visited acc loaded documents schemas ∧
      ∀ l, wsdlImport.location = some l → l ∈ loaded.visited := by
  unfold loadImport at run
  cases given : wsdlImport.location with
  | none =>
    rw [given] at run
    obtain rfl := Option.some.inj run
    exact ⟨[], [], ⟨by simp, by simp, by simp, .nil _⟩, by simp⟩
  | some location =>
    simp only [given] at run
    -- a location that was visited is not loaded again
    by_cases seen : location ∈ acc.visited
    · rw [if_pos seen] at run
      obtain rfl := Option.some.inj run
      exact ⟨[], [], ⟨by simp, by simp, by simp, .nil _⟩, fun l same => Option.some.inj same ▸ seen⟩
    · rw [if_neg seen] at run
      cases text : src.loader location with
      | error e => rw [text] at run; cases run
      | ok bytes =>
        simp only [text] at run
        obtain ⟨imported, loads, rfl⟩ := Option.map_eq_some_iff.mp run
        obtain ⟨definition, others, parsed, more⟩ := all _ bytes imported loads
        have documents : imported.definitions = definition :: others := more.definitions
        refine ⟨definition :: others, imported.schemas, ⟨by rw [documents], rfl, more.own, ?_⟩,
          fun l same => Option.some.inj same ▸ more.visits.grows (.head _)⟩
        -- the location was marked by this import, whose document is the first of those found
        refine more.visits.unmark (List.subset_cons_self _ _) fun l member => ?_
        rcases List.mem_cons.mp member with rfl | member
        · exact .inr ⟨definition, .head _, bytes, text, parsed⟩
        · exact .inl member

theorem loadImports_more {load : List Text → Text → Option LoadedWsdl} (all : LoadsAll src load)
    {imports : List WsdlImport} {acc loaded : LoadedWsdl}
    (run : imports.foldlM (loadImport src.loader load) acc = some loaded) :
    ∃ documents schemas, LoadsMore src acc.visited acc loaded documents schemas ∧
      imports.filterMap (·.location) ⊆ loaded.visited := by
  induction imports generalizing acc with
  | nil =>
    obtain rfl := Option.some.inj run
    exact ⟨[], [], ⟨by simp, by simp, by simp, .nil _⟩, List.nil_subset _⟩
  | cons wsdlImport rest ih =>
    rw [List.foldlM_cons] at run
    obtain ⟨mid, step, run⟩ := Option.bind_eq_some_iff.mp run
    obtain ⟨documents, schemas, more, marked⟩ := loadImport_more all step
    obtain ⟨documents', schemas', more', marked'⟩ := ih run
    -- what the first import adds stands before what the others add
    refine ⟨documents ++ documents', schemas ++ schemas',
      ⟨?_, ?_, ?_, more.visits.append more'.visits⟩, ?_⟩
    · rw [more'.definitions, more.definitions, List.append_assoc]
    · rw [more'.schemas, more.schemas, List.append_assoc]
    · intro definition member
      rcases List.mem_append.mp member with member | member
      · exact List.Subset.trans (more.own definition member) (List.subset_append_left _ _)
      · exact List.Subset.trans (more'.own definition member) (List.subset_append_right _ _)
    · intro l member
      obtain ⟨i, among, located⟩ := List.mem_filterMap.mp member
      rcases List.mem_cons.mp among with rfl | among
      · exact more'.visits.grows (marked l located)
      · exact marked' (List.mem_filterMap.mpr ⟨i, among, located⟩)

theorem loadDocuments_all (depth : Nat) : LoadsAll src (loadDocuments src depth) := by
  induction depth with
  | zero => intro visited bytes loaded run; cases run
  | succ depth ih =>
    intro visited bytes loaded run
    simp only [loadDocuments] at run
    cases parsed : parseWsdl src.parseXml bytes with
    | error e => rw [parsed] at run; cases run
    | ok rootDef =>
      simp only [parsed] at run
      obtain ⟨acc, imports, rfl⟩ := Option.map_eq_some_iff.mp run
      obtain ⟨others, schemas, more, marked⟩ := loadImports_more ih imports
      refine ⟨rootDef, others, rfl, more.definitions, rfl, fun definition member => ?_,
        more.visits.cons marked⟩
      rcases List.mem_cons.mp member with rfl | member
      · exact List.subset_append_right _ _
      · have own := more.own definition member
        rw [more.schemas, List.nil_append]
        exact List.Subset.trans own (List.subset_append_left _ _)

theorem loaded_of_reachable {loaded : LoadedWsdl} (loads : Loads src bytes [] loaded)
    {definition : WsdlDefinition} (reachable : ReachableWsdl src bytes definition) :
    definition ∈ loaded.definitions := by
  obtain ⟨root, others, parsed, more⟩ := loadDocuments_all src.fuel [] bytes loaded loads
  have documents : loaded.definitions = root :: others := more.definitions
  rw [documents]
  refine more.visits.mem_of_reachable (fun _ _ _ => holdsWsdl_unique) (fun d held => ?_) reachable
  cases parsed.symm.trans held
  exact .head _

theorem schemaBlocks_visits {schemas : List Text} {alreadyLoaded : List Text}
    {blocks : List (List RawSchema)} (run : schemaBlocks src alreadyLoaded schemas = some blocks) :
    (∀ schemaStr ∈ schemas, ∀ doc, src.parseXml schemaStr = .ok doc → parseSchema doc ∈ blocks.flatten) ∧
      ∃ loaded, Visits RawSchema.locations (HoldsSchema src.parseXml (schemaLoader src.loader)) alreadyLoaded
        blocks.flatten loaded := by
  induction schemas generalizing alreadyLoaded blocks with
  | nil =>
    obtain rfl := Option.some.inj run
    exact ⟨by simp, alreadyLoaded, .nil _⟩
  | cons schemaStr rest ih =>
    simp only [schemaBlocks] at run
    cases parsed : src.parseXml schemaStr with
    | error e => rw [parsed] at run; cases run
    | ok doc =>
      simp only [parsed] at run
      split at run
      next => cases run
      next documents after gathered =>
        obtain ⟨later, rest, rfl⟩ := Option.map_eq_some_iff.mp run
        obtain ⟨processed, visits⟩ := gatherLoop_visits gathered
        obtain ⟨inline, loaded, visits'⟩ := ih rest
        refine ⟨fun str member doc' parsed' => ?_, loaded, visits.append visits'⟩
        rcases List.mem_cons.mp member with rfl | member
        · cases parsed.symm.trans parsed'
          exact List.mem_append_left _ (processed (.head _))
        · exact List.mem_append_right _ (inline str member doc' parsed')

theorem block_of_reachable {loaded : LoadedWsdl} (loads : Loads src bytes [] loaded)
    {blocks : List (List RawSchema)} (blocksOf : schemaBlocks src [] loaded.schemas = some blocks)
    {raw : RawSchema} (reachable : ReachableSchema src bytes raw) : raw ∈ blocks.flatten := by
  obtain ⟨inline, after, visits⟩ := schemaBlocks_visits blocksOf
  refine visits.mem_of_reachable (fun _ _ _ => holdsSchema_unique) ?_ reachable
  rintro _ ⟨definition, within, schemaStr, member, doc, parsed, rfl⟩
  obtain ⟨root, others, _, more⟩ := loadDocuments_all src.fuel [] bytes loaded loads
  have documents : loaded.definitions = root :: others := more.definitions
  have own := more.own definition (documents ▸ loaded_of_reachable loads within)
  exact inline schemaStr (own member) doc parsed

end Wsdl

end SoapServer
