import SoapServer.Wsdl.Loaded
import SoapServer.Xsd.Visibility

/-! The inline schemas of a resolution as blocks: the documents each of them is resolved
with, and what that makes of a type whose declarations are spread over several. -/

set_option autoImplicit false

namespace SoapServer

open Markup (Text)
open Maps Loops

namespace Xsd

/-! Collecting, as a list of documents. -/

/-- The documents a collection merges, in the order in which it does. -/
def gatherLoop (parseXml : TreeParser) (loader : SchemaLoader) :
    Nat → LoadState → Resolution (List RawSchema × List Text)
  | _, (alreadyLoaded, []) => .ok ([], alreadyLoaded)
  | 0, (_, _ :: _) => .error .hang
  | fuel + 1, (alreadyLoaded, schema :: queue) => do
    let st ← schema.references.foldlM (loadReference parseXml loader) (alreadyLoaded, queue)
    let (documents, alreadyLoaded) ← gatherLoop parseXml loader fuel st
    .ok (schema :: documents, alreadyLoaded)

/-- Documents as one set of declarations; a later one replaces an earlier one. -/
def FlatTypeMap.ofDocuments (documents : List RawSchema) : FlatTypeMap :=
  documents.foldl FlatTypeMap.merge .empty

theorem collectLoop_eq_ok {parseXml : TreeParser} {loader : SchemaLoader} {fuel : Nat}
    {flat flat' : FlatTypeMap} {st : LoadState} {loaded : List Text}
    (run : collectLoop parseXml loader fuel flat st = .ok (flat', loaded)) :
    ∃ documents, gatherLoop parseXml loader fuel st = .ok (documents, loaded) ∧
      flat' = documents.foldl FlatTypeMap.merge flat := by
  induction fuel generalizing flat st with
  | zero =>
    obtain ⟨alreadyLoaded, _ | ⟨schema, queue⟩⟩ := st
    · cases run
      exact ⟨[], rfl, rfl⟩
    · cases run
  | succ fuel ih =>
    obtain ⟨alreadyLoaded, _ | ⟨schema, queue⟩⟩ := st
    · cases run
      exact ⟨[], rfl, rfl⟩
    · rw [collectLoop, bind_eq_ok] at run
      obtain ⟨mid, loads, run⟩ := run
      obtain ⟨documents, gathered, rfl⟩ := ih run
      exact ⟨schema :: documents, by rw [gatherLoop, loads]; simp [bind, Except.bind, gathered],
        rfl⟩

/-- A kind of declaration, as documents and merged documents have it. -/
structure Kind (V : Type) where
  merged : FlatTypeMap → HashMap QName V
  own : RawSchema → HashMap QName V
  merge : ∀ flat schema, merged (flat.merge schema) = extend (merged flat) (own schema)
  empty : merged .empty = ∅

namespace Kind

def types : Kind XsdType := ⟨(·.types), (·.types), fun _ _ => rfl, rfl⟩

def groups : Kind Group := ⟨(·.groups), (·.groups), fun _ _ => rfl, rfl⟩

def elements : Kind XsdElement := ⟨(·.elements), (·.elements), fun _ _ => rfl, rfl⟩

variable {V : Type} (kind : Kind V) {documents : List RawSchema} {q : QName}

theorem lookup_foldl_merge (flat : FlatTypeMap) :
    (kind.merged (documents.foldl FlatTypeMap.merge flat)).lookup q =
      (documents.reverse.findSome? fun document => (kind.own document).lookup q).or
        ((kind.merged flat).lookup q) := by
  induction documents generalizing flat with
  | nil => rfl
  | cons document rest ih =>
    rw [List.foldl_cons, ih, kind.merge, lookup_extend, List.reverse_cons, List.findSome?_append,
      Option.or_assoc]
    simp

/-- The last declaration counts. -/
theorem lookup_ofDocuments : (kind.merged (.ofDocuments documents)).lookup q =
    documents.reverse.findSome? fun document => (kind.own document).lookup q := by
  rw [FlatTypeMap.ofDocuments, kind.lookup_foldl_merge, kind.empty, AList.lookup_empty,
    Option.or_none]

theorem declared_of_lookup {v : V}
    (known : (kind.merged (.ofDocuments documents)).lookup q = some v) :
    ∃ document ∈ documents, (kind.own document).lookup q = some v := by
  rw [lookup_ofDocuments] at known
  obtain ⟨document, member, found⟩ := List.exists_of_findSome?_eq_some known
  exact ⟨document, List.mem_reverse.mp member, found⟩

theorem lookup_of_declared {document : RawSchema} (member : document ∈ documents)
    (declared : ((kind.own document).lookup q).isSome) :
    ((kind.merged (.ofDocuments documents)).lookup q).isSome := by
  rw [lookup_ofDocuments]
  exact List.findSome?_isSome_iff.mpr ⟨document, List.mem_reverse.mpr member, declared⟩

/-- The documents agree on every name of this kind. -/
def Agree (documents : List RawSchema) : Prop :=
  ∀ a ∈ documents, ∀ b ∈ documents, ∀ q s t,
    (kind.own a).lookup q = some s → (kind.own b).lookup q = some t → s = t

theorem Agree.lookup {kind : Kind V} (agree : kind.Agree documents) {document : RawSchema} {v : V}
    (member : document ∈ documents) (declared : (kind.own document).lookup q = some v) :
    (kind.merged (.ofDocuments documents)).lookup q = some v := by
  obtain ⟨w, known⟩ := Option.isSome_iff_exists.mp (kind.lookup_of_declared member (by rw [declared]; rfl))
  obtain ⟨other, otherMember, found⟩ := kind.declared_of_lookup known
  rw [known, agree other otherMember document member q w v found declared]

/-- Where documents agree, a part of them has what the whole has. -/
theorem Agree.keeps {kind : Kind V} {part : List RawSchema} (agree : kind.Agree documents)
    (sub : part ⊆ documents) {v : V} (known : (kind.merged (.ofDocuments part)).lookup q = some v) :
    (kind.merged (.ofDocuments documents)).lookup q = some v := by
  obtain ⟨document, member, declared⟩ := kind.declared_of_lookup known
  exact agree.lookup (sub member) declared

end Kind

/-- The documents of one schema set: each name has one declaration of each kind, and the kinds
that the resolver does not keep apart share no name. -/
structure OneDeclaration (documents : List RawSchema) : Prop where
  types : Kind.types.Agree documents
  groups : Kind.groups.Agree documents
  elements : Kind.elements.Agree documents
  groupOrElement : ∀ a ∈ documents, ∀ b ∈ documents, ∀ q,
    (a.groups.lookup q).isSome → b.elements.lookup q = none
  typeOrElement : ∀ a ∈ documents, ∀ b ∈ documents, ∀ q el raw,
    (a.types.lookup q).isSome → b.elements.lookup q = some el → el.inlineType ≠ some (.complex raw)

theorem OneDeclaration.keeps {part whole : List RawSchema} (one : OneDeclaration whole)
    (sub : part ⊆ whole) :
    Keeps (.ofDocuments part) (.ofDocuments whole) where
  types q raw known :=
    FlatTypeMap.complexType_eq_some.mpr (one.types.keeps sub (FlatTypeMap.complexType_eq_some.mp known))
  references q referent known := by
    unfold FlatTypeMap.referent at known ⊢
    rcases Option.or_eq_some_iff.mp known with grouped | ⟨_, declared⟩
    · obtain ⟨group, found, same⟩ := Option.map_eq_some_iff.mp grouped
      have kept : (FlatTypeMap.ofDocuments whole).groups.lookup q = some group :=
        one.groups.keeps sub found
      rw [kept, Option.map_some, Option.some_or, same]
    · obtain ⟨el, found, same⟩ := Option.map_eq_some_iff.mp declared
      have noGroup : (FlatTypeMap.ofDocuments whole).groups.lookup q = none := by
        by_contra grouped
        obtain ⟨group, grouped⟩ := Option.ne_none_iff_exists'.mp grouped
        obtain ⟨document, member, declares⟩ := Kind.groups.declared_of_lookup grouped
        obtain ⟨other, otherMember, also⟩ := Kind.elements.declared_of_lookup found
        have := one.groupOrElement document member other (sub otherMember) q (by
          rw [show document.groups.lookup q = some group from declares]; rfl)
        cases this.symm.trans also
      have kept : (FlatTypeMap.ofDocuments whole).elements.lookup q = some el :=
        one.elements.keeps sub found
      rw [noGroup, kept, Option.map_none, Option.none_or, Option.map_some, same]

end Xsd

namespace Wsdl

open Xsd

variable {src : Sources}

/-- The documents each inline schema is resolved with: its own and those it is the first to load. -/
def schemaBlocks (src : Sources) : List Text → List Text → Option (List (List RawSchema))
  | _, [] => some []
  | alreadyLoaded, schemaStr :: rest =>
    match src.parseXml schemaStr with
    | .error _ => none
    | .ok doc =>
      match gatherLoop src.parseXml (schemaLoader src.loader) src.fuel (alreadyLoaded, [parseSchema doc]) with
      | .error _ => none
      | .ok (documents, alreadyLoaded) => (schemaBlocks src alreadyLoaded rest).map (documents :: ·)

/-- The blocks of the documents that a resolution of `bytes` loads. -/
def Blocks (src : Sources) (bytes : Text) (visited : List Text)
    (blocks : List (List RawSchema)) : Prop :=
  ∃ loaded, Loads src bytes visited loaded ∧ schemaBlocks src [] loaded.schemas = some blocks

/-- The registry of a block, before it is merged with those of the others. -/
def BlockRegistry (iter : MapOrder) (documents : List RawSchema) (registry : TypeRegistry) : Prop :=
  resolveFlat iter (.ofDocuments documents) = .ok registry

/-- Inline schemas are resolved block by block; the first registry with a name counts. -/
theorem inlineSchemas_blocks {schemas : List Text} {st st' : SchemaState}
    (run : schemas.foldlM (resolveInlineSchema src) st = .ok st') :
    ∃ blocks registries, schemaBlocks src st.alreadyLoadedSchemas schemas = some blocks ∧
      List.Forall₂ (BlockRegistry src.iter) blocks registries ∧
      ∀ q, st'.accumulatedTypes.lookup q =
        (st.accumulatedTypes.lookup q).or (registries.findSome? fun registry => registry.lookup q) := by
  induction schemas generalizing st with
  | nil =>
    obtain rfl := foldlM_nil_eq_ok.mp run
    exact ⟨[], [], rfl, .nil, fun q => by simp⟩
  | cons schemaStr rest ih =>
    obtain ⟨mid, step, run⟩ := foldlM_cons_eq_ok.mp run
    obtain ⟨blocks, registries, later, resolved, merged⟩ := ih run
    simp only [resolveInlineSchema] at step
    cases parsed : src.parseXml schemaStr with
    | error e => simp only [parsed] at step; cases step
    | ok doc =>
      simp only [parsed] at step
      split at step
      next => cases step
      next => cases step
      next registry alreadyLoaded outcome =>
        obtain rfl := Except.ok.inj step
        rw [resolveSchema, bind_eq_ok] at outcome
        obtain ⟨⟨flat, loaded⟩, collected, rest⟩ := outcome
        obtain ⟨_, flatResolved, same⟩ := bind_eq_ok.mp rest
        cases same
        obtain ⟨documents, gathered, rfl⟩ := collectLoop_eq_ok collected
        refine ⟨documents :: blocks, registry :: registries, ?_, .cons flatResolved resolved,
          fun q => ?_⟩
        · simp only [schemaBlocks, parsed, gathered]
          rw [later]
          rfl
        · rw [merged q, lookup_union, Option.or_assoc, List.findSome?_cons]
          cases registry.lookup q <;> rfl

theorem registry_of_block {iter : MapOrder} {blocks : List (List RawSchema)}
    {registries : List TypeRegistry}
    (resolved : List.Forall₂ (BlockRegistry iter) blocks registries) {block : List RawSchema}
    (member : block ∈ blocks) : ∃ registry ∈ registries, BlockRegistry iter block registry := by
  induction resolved with
  | nil => cases member
  | cons here _ ih =>
    rcases List.mem_cons.mp member with rfl | member
    · exact ⟨_, .head _, here⟩
    · obtain ⟨registry, among, resolves⟩ := ih member
      exact ⟨registry, .tail _ among, resolves⟩

/-- A name the registry of the documents may have an entry for. -/
def Names (flat : FlatTypeMap) (q : QName) : Prop :=
  (flat.types.lookup q).isSome ∨ ∃ el raw, flat.elements.lookup q = some el ∧ el.inlineType = some (.complex raw)

/-- The first block with an entry for a name it declares as a complex type. -/
structure Home (blocks : List (List RawSchema)) (q : QName) (home : List RawSchema) : Prop where
  first : ∃ before after, blocks = before ++ home :: after ∧
    ∀ earlier ∈ before, ¬ Names (.ofDocuments earlier) q
  declared : ((FlatTypeMap.ofDocuments home).complexType q).isSome

/-- A type is registered as its home contributes it. -/
theorem Home.registered {blocks : List (List RawSchema)} {registries : List TypeRegistry}
    {iter : MapOrder} {q : QName} {home : List RawSchema} (at_ : Home blocks q home)
    (resolved : List.Forall₂ (BlockRegistry iter) blocks registries) :
    ∃ ct, (registries.findSome? fun registry => registry.lookup q) = some (.complex ct) ∧
      Contributes (.ofDocuments home) [q] (extractElements ct.content) := by
  obtain ⟨⟨before, after, rfl, earlier⟩, declared⟩ := at_
  induction before generalizing registries with
  | nil =>
    cases resolved with
    | cons here _ =>
      obtain ⟨ct, known, contributes⟩ := (resolveFlat_registered here).complex q declared
      exact ⟨ct, by rw [List.findSome?_cons, known], contributes⟩
  | cons documents before ih =>
    cases resolved with
    | cons here later =>
      obtain ⟨ct, known, contributes⟩ := ih (fun e member => earlier e (.tail _ member)) later
      refine ⟨ct, ?_, contributes⟩
      rename_i registry _
      have absent : registry.lookup q = none := by
        by_contra present
        obtain ⟨t, present⟩ := Option.ne_none_iff_exists'.mp present
        exact earlier documents (.head _) ((resolveFlat_registered here).other q (by rw [present]; rfl))
      rw [List.findSome?_cons, absent]
      exact known

/-- The registered element list of a type is the one that all documents together give. -/
def RegisteredTogether (registry : TypeRegistry) (blocks : List (List RawSchema))
    (q : QName) : Prop :=
  ∃ ct, registry.lookup q = some (.complex ct) ∧
    Contributes (.ofDocuments blocks.flatten) [q] (extractElements ct.content)

/-- The list that all documents give is the one the resolver computes over them. -/
theorem registeredTogether_iff {iter : MapOrder} {registry together : TypeRegistry}
    {blocks : List (List RawSchema)} {q : QName}
    (resolved : resolveFlat iter (.ofDocuments blocks.flatten) = .ok together)
    (declared : ((FlatTypeMap.ofDocuments blocks.flatten).complexType q).isSome) :
    RegisteredTogether registry blocks q ↔ ∃ ct whole, registry.lookup q = some (.complex ct) ∧
      together.lookup q = some (.complex whole) ∧ extractElements ct.content = extractElements whole.content := by
  obtain ⟨whole, known, contributes⟩ := (resolveFlat_registered resolved).complex q declared
  constructor
  · rintro ⟨ct, registered, same⟩
    exact ⟨ct, whole, registered, known, same.unique contributes⟩
  · rintro ⟨ct, whole', registered, known', same⟩
    cases known.symm.trans known'
    exact ⟨ct, registered, same ▸ contributes⟩

/-- The home of a type sees all that its resolution meets as the documents together do. -/
def SeenAtHome (blocks : List (List RawSchema)) (q : QName) : Prop :=
  ∃ home, Home blocks q home ∧ Visible (.ofDocuments home) (.ofDocuments blocks.flatten) [q]

theorem exists_home {blocks : List (List RawSchema)} (one : OneDeclaration blocks.flatten)
    {q : QName} {raw : ComplexType}
    (declared : ∃ document ∈ blocks.flatten, document.types.lookup q = some (.complex raw)) :
    ∃ home, Home blocks q home := by
  obtain ⟨document, member, declares⟩ := declared
  obtain ⟨block, blockMember, inBlock⟩ := List.mem_flatten.mp member
  -- the home is the first block that declares the name
  obtain ⟨home, found⟩ := Option.isSome_iff_exists.mp (List.find?_isSome (p := fun documents =>
    ((FlatTypeMap.ofDocuments documents).types.lookup q).isSome) |>.mpr ⟨block, blockMember,
      Kind.types.lookup_of_declared inBlock (show (document.types.lookup q).isSome by rw [declares]; rfl)⟩)
  obtain ⟨known, before, after, split, earlier⟩ := List.find?_eq_some_iff_append.mp found
  have homeMember : home ∈ blocks := by rw [split]; simp
  refine ⟨home, ⟨before, after, split, fun documents among => ?_⟩, ?_⟩
  · rintro (typed | ⟨el, content, found, inline⟩)
    · have := earlier documents among
      rw [typed] at this
      cases this
    · obtain ⟨other, otherMember, declaresElement⟩ := Kind.elements.declared_of_lookup found
      have whole : other ∈ blocks.flatten :=
        List.mem_flatten.mpr ⟨documents, by rw [split]; exact List.mem_append_left _ among,
          otherMember⟩
      -- no element of an earlier block has an inline type under the name of a type
      exact one.typeOrElement document member other whole q el content
        (by rw [declares]; rfl) declaresElement inline
  · obtain ⟨t, known⟩ := Option.isSome_iff_exists.mp known
    have whole := one.types.keeps (fun _ inHome => List.mem_flatten.mpr ⟨home, homeMember, inHome⟩) known
    obtain rfl := Option.some.inj (whole.symm.trans (one.types.lookup member declares))
    rw [FlatTypeMap.complexType_eq_some.mpr known]
    rfl

theorem resolveWsdl_blocks {bytes : Text} {visited visited' : List Text} {resolved : ResolvedWsdl}
    {blocks : List (List RawSchema)}
    (run : resolveWsdl src bytes visited = .ok (resolved, visited'))
    (blocksOf : Blocks src bytes visited blocks) :
    ∃ registries, List.Forall₂ (BlockRegistry src.iter) blocks registries ∧
      ∀ q, resolved.typeRegistry.lookup q = registries.findSome? fun registry => registry.lookup q := by
  obtain ⟨loaded, schemas, loads, _, inline, registry, _⟩ := resolveWsdl_loads run
  obtain ⟨loaded', loads', blocksOf⟩ := blocksOf
  obtain rfl := Option.some.inj (loads.symm.trans loads')
  obtain ⟨blocks', registries, found, resolved', merged⟩ := inlineSchemas_blocks inline
  obtain rfl := Option.some.inj (blocksOf.symm.trans found)
  refine ⟨registries, resolved', fun q => ?_⟩
  rw [registry, merged q, AList.lookup_empty, Option.none_or]

/-- A declared type is registered with the elements of all documents together when its home
sees all that its resolution meets, and only then if the documents are one schema set. -/
theorem registered_together_iff {bytes : Text} {visited visited' : List Text}
    {resolved : ResolvedWsdl} {blocks : List (List RawSchema)}
    (run : resolveWsdl src bytes visited = .ok (resolved, visited'))
    (blocksOf : Blocks src bytes visited blocks) {q : QName} {raw : ComplexType}
    (declared : ∃ document ∈ blocks.flatten, document.types.lookup q = some (.complex raw)) :
    (SeenAtHome blocks q → RegisteredTogether resolved.typeRegistry blocks q) ∧
      (OneDeclaration blocks.flatten → RegisteredTogether resolved.typeRegistry blocks q →
        SeenAtHome blocks q) := by
  obtain ⟨registries, blockwise, merged⟩ := resolveWsdl_blocks run blocksOf
  constructor
  · rintro ⟨home, at_, visible⟩
    obtain ⟨ct, known, contributes⟩ := at_.registered blockwise
    exact ⟨ct, (merged q).trans known, contributes.of_visible visible⟩
  · rintro one ⟨ct, known, together⟩
    obtain ⟨home, at_⟩ := exists_home one declared
    obtain ⟨ct', known', contributes⟩ := at_.registered blockwise
    cases known.symm.trans ((merged q).trans known')
    have sub : home ⊆ blocks.flatten := by
      obtain ⟨⟨before, after, split, _⟩, _⟩ := at_
      exact fun document inHome => List.mem_flatten.mpr ⟨home, by rw [split]; simp, inHome⟩
    exact ⟨home, at_, (contributes.sublist (one.keeps sub) together).2 rfl⟩

/-- The last block has its own declarations, whatever those before it declare. -/
theorem complexType_of_last {before : List (List RawSchema)} {home : List RawSchema} {q : QName}
    (declared : ((FlatTypeMap.ofDocuments home).complexType q).isSome) :
    (FlatTypeMap.ofDocuments (before ++ [home]).flatten).complexType q =
      (FlatTypeMap.ofDocuments home).complexType q := by
  obtain ⟨raw, declared⟩ := Option.isSome_iff_exists.mp declared
  have known : (FlatTypeMap.ofDocuments home).types.lookup q = some (.complex raw) :=
    FlatTypeMap.complexType_eq_some.mp declared
  have whole : (FlatTypeMap.ofDocuments (before ++ [home]).flatten).types.lookup q = some (.complex raw) := by
    have here : home.reverse.findSome? (fun document => (Kind.types.own document).lookup q) = some (.complex raw) :=
      Kind.types.lookup_ofDocuments.symm.trans known
    rw [List.flatten_append, List.flatten_singleton]
    apply Kind.types.lookup_ofDocuments.trans
    rw [List.reverse_append, List.findSome?_append, here, Option.some_or]
  rw [declared, FlatTypeMap.complexType_eq_some.mpr whole]

/-- A type of the last block is seen at home where the block declares all its ancestors and nothing is
referred to. -/
theorem seenAtHome_last {before : List (List RawSchema)} {home : List RawSchema} {q : QName}
    {names : List QName} (first : ∀ earlier ∈ before, ¬ Names (.ofDocuments earlier) q)
    (member : q ∈ names)
    (closed : ∀ r ∈ names, ∃ raw, (FlatTypeMap.ofDocuments home).complexType r = some raw ∧
      raw.content.bases ⊆ names ∧ ∀ el ∈ raw.content.particles, el.reference = none) :
    SeenAtHome (before ++ [home]) q := by
  have declared (r : QName) (among : r ∈ names) :
      ((FlatTypeMap.ofDocuments home).complexType r).isSome := by
    obtain ⟨_, known, _⟩ := closed r among
    rw [known]
    rfl
  -- the names hold all ancestors, as each holds the bases of its type
  have ancestors {qs : List QName} {r : QName} (ancestor : Ancestor (.ofDocuments home) qs r)
      (sub : qs ⊆ names) : r ∈ names := by
    induction ancestor with
    | self member => exact sub member
    | above member found _ ih =>
      obtain ⟨_, known, bases, _⟩ := closed _ (sub member)
      obtain rfl := Option.some.inj (found.symm.trans known)
      exact ih bases
  have here : [q] ⊆ names := List.cons_subset.mpr ⟨member, List.nil_subset _⟩
  refine ⟨home, ⟨⟨before, [], rfl, first⟩, declared q member⟩, fun r ancestor => ?_,
    fun r raw el ancestor found particle => ?_⟩
  · exact .inl (complexType_of_last (declared r (ancestors ancestor here))).symm
  · obtain ⟨_, known, _, silent⟩ := closed r (ancestors ancestor here)
    obtain rfl := Option.some.inj (found.symm.trans known)
    intro referent refers
    cases particle with
    | self among => cases (silent el among).symm.trans refers
    | inside among refers' => cases (silent _ among).symm.trans refers'

/-! Two inline schemas that import one document; the second extends a type of it. -/

def baseSchema : DomNode :=
  schemaNode "schema" [attr "targetNamespace" "urn:b"]
    [schemaNode "complexType" [attr "name" "Base"]
      [schemaNode "sequence" [] [schemaNode "element" [attr "name" "id"] []]]]

def importOfBase : DomNode := schemaNode "import" [attr "namespace" "urn:b", attr "schemaLocation" "b.xsd"] []

def firstSchema : DomNode := schemaNode "schema" [attr "targetNamespace" "urn:a"] [importOfBase]

def secondSchema : DomNode :=
  schemaNode "schema" [attr "targetNamespace" "urn:a"]
    [importOfBase,
      schemaNode "complexType" [attr "name" "Derived"]
        [schemaNode "complexContent" []
          [schemaNode "extension" [attr "base" "b:Base"]
            [schemaNode "sequence" [] [schemaNode "element" [attr "name" "own"] []]]]]]

def twoBlocksWsdl : DomNode := definitionsNode [wsdlNode "types" [] [firstSchema, secondSchema]]

def twoBlocksSources : Sources :=
  .ofDocuments [twoBlocksWsdl, firstSchema, secondSchema] [("b.xsd".toList, baseSchema)]

def derivedQName : QName := .new "urn:a".toList "Derived".toList

/-- The names of the elements a registry has for a type. -/
def elementNames (registry : TypeRegistry) (q : QName) : Option (List (Option Text)) :=
  match registry.lookup q with
  | some (.complex ct) => some ((extractElements ct.content).map (·.name))
  | some (.simple _) | none => none

theorem twoBlocks_resolved : ∃ resolved visited blocks together raw,
    resolveWsdl twoBlocksSources (nodeToString twoBlocksWsdl) [] = .ok (resolved, visited) ∧
      Blocks twoBlocksSources (nodeToString twoBlocksWsdl) [] blocks ∧
      (∃ document ∈ blocks.flatten, document.types.lookup derivedQName = some (.complex raw)) ∧
      resolveFlat .stored (.ofDocuments blocks.flatten) = .ok together ∧
      ((FlatTypeMap.ofDocuments blocks.flatten).complexType derivedQName).isSome ∧
      elementNames resolved.typeRegistry derivedQName = some [some "own".toList] ∧
      elementNames together derivedQName = some [some "id".toList, some "own".toList] := by
  have registered : ∃ resolved, resolveWsdl twoBlocksSources (nodeToString twoBlocksWsdl) [] = .ok resolved ∧
      elementNames resolved.1.typeRegistry derivedQName = some [some "own".toList] := by decide +kernel
  have merged : ∃ loaded,
      loadDocuments twoBlocksSources twoBlocksSources.fuel [] (nodeToString twoBlocksWsdl) = some loaded ∧
      ∃ blocks, schemaBlocks twoBlocksSources [] loaded.schemas = some blocks ∧
      ∃ together, resolveFlat .stored (.ofDocuments blocks.flatten) = .ok together ∧
        (∃ document ∈ blocks.flatten, ∃ t ∈ document.types.lookup derivedQName, t.isComplex = true) ∧
        ((FlatTypeMap.ofDocuments blocks.flatten).complexType derivedQName).isSome ∧
        elementNames together derivedQName = some [some "id".toList, some "own".toList] := by decide +kernel
  obtain ⟨resolved, run, registered⟩ := registered
  obtain ⟨loaded, loads, blocks, blocksOf, together, whole, declared, merged, all⟩ := merged
  obtain ⟨document, member, t, known, isComplex⟩ := declared
  cases t with
  | simple st => cases isComplex
  | complex raw =>
    exact ⟨resolved.1, resolved.2, blocks, together, raw, run, ⟨loaded, loads, blocksOf⟩,
      ⟨document, member, known⟩, whole, merged, registered, all⟩

theorem derivedType_loses_base : ∃ resolved visited blocks raw,
    resolveWsdl twoBlocksSources (nodeToString twoBlocksWsdl) [] = .ok (resolved, visited) ∧
      Blocks twoBlocksSources (nodeToString twoBlocksWsdl) [] blocks ∧
      (∃ document ∈ blocks.flatten, document.types.lookup derivedQName = some (.complex raw)) ∧
      ¬ RegisteredTogether resolved.typeRegistry blocks derivedQName := by
  obtain ⟨resolved, visited, blocks, together, raw, run, blocksOf, declared, whole, merged, registered, all⟩ :=
    twoBlocks_resolved
  refine ⟨resolved, visited, blocks, raw, run, blocksOf, declared, fun same => ?_⟩
  obtain ⟨ct, wholeCt, known, wholeKnown, elements⟩ := (registeredTogether_iff whole merged).mp same
  simp only [elementNames, known, wholeKnown, elements] at registered all
  rw [registered] at all
  exact absurd all (by decide)

/-! The same type behind a schema that imports nothing. -/

def otherSchema : DomNode :=
  schemaNode "schema" [attr "targetNamespace" "urn:a"] [schemaNode "complexType" [attr "name" "Other"] []]

def ownBlockWsdl : DomNode := definitionsNode [wsdlNode "types" [] [otherSchema, secondSchema]]

def ownBlockSources : Sources :=
  .ofDocuments [ownBlockWsdl, otherSchema, secondSchema] [("b.xsd".toList, baseSchema)]

def baseQName : QName := .new "urn:b".toList "Base".toList

theorem ownBlock_resolved :
    ∃ resolved, resolveWsdl ownBlockSources (nodeToString ownBlockWsdl) [] = .ok resolved ∧
    ∃ loaded, loadDocuments ownBlockSources ownBlockSources.fuel [] (nodeToString ownBlockWsdl) = some loaded ∧
    ∃ blocks, schemaBlocks ownBlockSources [] loaded.schemas = some blocks ∧
      (∃ document ∈ blocks.flatten, ∃ t ∈ document.types.lookup derivedQName, t.isComplex = true) ∧
      blocks.length = 2 ∧ ∃ home, blocks.getLast? = some home ∧
      (∀ earlier ∈ blocks.dropLast, (FlatTypeMap.ofDocuments earlier).types.lookup derivedQName = none ∧
        (FlatTypeMap.ofDocuments earlier).elements.lookup derivedQName = none) ∧
      ∀ r ∈ [derivedQName, baseQName], ∃ raw, (FlatTypeMap.ofDocuments home).complexType r = some raw ∧
        raw.content.bases ⊆ [derivedQName, baseQName] ∧ ∀ el ∈ raw.content.particles, el.reference = none := by
  decide +kernel

theorem ownBlock_registered_together : ∃ resolved visited blocks,
    resolveWsdl ownBlockSources (nodeToString ownBlockWsdl) [] = .ok (resolved, visited) ∧
      Blocks ownBlockSources (nodeToString ownBlockWsdl) [] blocks ∧ blocks.length = 2 ∧
      RegisteredTogether resolved.typeRegistry blocks derivedQName := by
  obtain ⟨resolved, run, loaded, loads, blocks, blocksOf, declared, two, home, last, before, closed⟩ :=
    ownBlock_resolved
  obtain ⟨document, member, t, known, isComplex⟩ := declared
  cases t with
  | simple st => cases isComplex
  | complex raw =>
    have apart : ∀ earlier ∈ blocks.dropLast, ¬ Names (.ofDocuments earlier) derivedQName := by
      intro earlier among names
      obtain ⟨noType, noElement⟩ := before earlier among
      rcases names with typed | ⟨el, _, found, _⟩
      · rw [noType] at typed
        cases typed
      · cases noElement.symm.trans found
    have split : blocks.dropLast ++ [home] = blocks := List.dropLast_append_getLast? home last
    have seen : SeenAtHome blocks derivedQName := by
      rw [← split]
      exact seenAtHome_last apart (.head _) closed
    exact ⟨resolved.1, resolved.2, blocks, run, ⟨loaded, loads, blocksOf⟩, two,
      (registered_together_iff run ⟨loaded, loads, blocksOf⟩ ⟨document, member, known⟩).1 seen⟩

end Wsdl

end SoapServer
