import SoapServer.Wsdl.ElementTypes
import SoapServer.Wsdl.SchemaBlocks
import SoapServer.Xsd.Registry

/-! The type an element is recorded with: which entry of the registry it leads to, and whether
that is the type that the element itself declares.
-/

set_option autoImplicit false

namespace SoapServer.Wsdl

open Markup (Text)
open Maps Loops
open Xsd

variable {src : Sources}

/-- The declaration of an element in an inline schema, if that gives it a type. -/
def inlineTyping (src : Sources) (schemaStr : Text) (e : QName) : Option XsdElement :=
  match src.parseXml schemaStr with
  | .ok doc => ((parseSchema doc).elements.lookup e).filter fun el => (typeName e el).isSome
  | .error _ => none

/-- The declaration that an element's type is recorded from: that of the first inline schema to type it. -/
def firstTyping (src : Sources) (loaded : LoadedWsdl) (e : QName) : Option XsdElement :=
  loaded.schemas.findSome? (inlineTyping src · e)

/-- Some set of documents that are resolved together has an entry for the name. -/
def HasEntry (blocks : List (List RawSchema)) (q : QName) : Prop :=
  ∃ block ∈ blocks, Names (.ofDocuments block) q

theorem inlineTypeName_eq (schemaStr : Text) (e : QName) :
    inlineTypeName src schemaStr e = (inlineTyping src schemaStr e).bind (typeName e) := by
  unfold inlineTypeName inlineTyping
  cases src.parseXml schemaStr with
  | error _ => rfl
  | ok doc =>
    dsimp only
    cases (parseSchema doc).elements.lookup e with
    | none => rfl
    | some el => cases typed : typeName e el <;> simp [Option.filter, typed]

theorem inlineTyping_typed {schemaStr : Text} {e : QName} {el : XsdElement}
    (found : inlineTyping src schemaStr e = some el) : (typeName e el).isSome := by
  unfold inlineTyping at found
  split at found
  next => exact (Option.filter_eq_some_iff.mp found).2
  next => cases found

theorem firstTyping_typeName {schemas : List Text} (e : QName) :
    schemas.findSome? (inlineTypeName src · e) = (schemas.findSome? (inlineTyping src · e)).bind (typeName e) := by
  induction schemas with
  | nil => rfl
  | cons schemaStr rest ih =>
    rw [List.findSome?_cons, List.findSome?_cons, inlineTypeName_eq]
    cases typing : inlineTyping src schemaStr e with
    | none => exact ih
    | some el =>
      obtain ⟨t, typed⟩ := Option.isSome_iff_exists.mp (inlineTyping_typed typing)
      simp only [Option.bind_some, typed]

/-- The recorded type of an element. -/
theorem elementTypeMap_eq {bytes : Text} {visited visited' : List Text} {resolved : ResolvedWsdl}
    {loaded : LoadedWsdl} (run : resolveWsdl src bytes visited = .ok (resolved, visited'))
    (loads : Loads src bytes visited loaded) (e : QName) :
    resolved.elementTypeMap.lookup e = (firstTyping src loaded e).bind (typeName e) := by
  rw [resolveWsdl_elementTypeMap run loads, firstTyping_typeName, firstTyping]

/-- A set of documents has an entry for every type it declares, and for every element with an
inline complex type of its own. -/
theorem resolveFlat_isSome_iff {iter : MapOrder} {flat : FlatTypeMap} {registry : TypeRegistry}
    (run : resolveFlat iter flat = .ok registry) (q : QName) :
    (registry.lookup q).isSome ↔ Names flat q := by
  constructor
  · exact (resolveFlat_registered run).other q
  · intro named
    cases declared : flat.types.lookup q with
    | some t => exact resolveFlat_declared run (by rw [declared]; rfl)
    | none =>
      obtain wrong | ⟨el, raw, found, typed⟩ := named
      · rw [declared] at wrong
        cases wrong
      · obtain ⟨_, inline⟩ := (exists_registry_iff iter).mp ⟨registry, run⟩
        obtain ⟨ct, resolves⟩ := inline raw ⟨q, el, declared, found, typed⟩
        rw [(resolveFlat_lookup run q _).mpr (.inline declared found typed resolves)]
        rfl

theorem registered_iff_hasEntry {bytes : Text} {visited visited' : List Text}
    {resolved : ResolvedWsdl} {blocks : List (List RawSchema)}
    (run : resolveWsdl src bytes visited = .ok (resolved, visited'))
    (blocksOf : Blocks src bytes visited blocks) (q : QName) :
    (resolved.typeRegistry.lookup q).isSome ↔ HasEntry blocks q := by
  obtain ⟨registries, resolutions, merged⟩ := resolveWsdl_blocks run blocksOf
  rw [merged, List.findSome?_isSome_iff]
  clear merged blocksOf
  unfold HasEntry
  induction resolutions with
  | nil => simp
  | cons here _ ih => simp only [List.exists_mem_cons_iff, ih, resolveFlat_isSome_iff here q]

/-! The entry a name leads to. -/

/-- The first set of documents with an entry for the name. -/
def FirstWithEntry (blocks : List (List RawSchema)) (q : QName) (block : List RawSchema) : Prop :=
  ∃ before after, blocks = before ++ block :: after ∧ Names (.ofDocuments block) q ∧
    ∀ earlier ∈ before, ¬ Names (.ofDocuments earlier) q

theorem findSome?_entry_iff {iter : MapOrder} {blocks : List (List RawSchema)}
    {registries : List TypeRegistry}
    (resolved : List.Forall₂ (BlockRegistry iter) blocks registries) {q : QName} {t : XsdType} :
    (registries.findSome? fun registry => registry.lookup q) = some t ↔
      ∃ block, FirstWithEntry blocks q block ∧ Entry (.ofDocuments block) q t := by
  induction resolved with
  | nil =>
    simp only [List.findSome?_nil, reduceCtorEq, false_iff, not_exists, not_and]
    rintro block ⟨before, after, split, _⟩
    simp at split
  | @cons first registry blocks registries here _ ih =>
    have named := resolveFlat_isSome_iff here q
    rw [List.findSome?_cons]
    -- the first registry that has the name is that of the first block that names it
    cases found : registry.lookup q with
    | some t' =>
      have named : Names (.ofDocuments first) q := named.mp (by rw [found]; rfl)
      simp only [Option.some.injEq]
      constructor
      · rintro rfl
        exact ⟨first, ⟨[], blocks, rfl, named, fun _ member => absurd member List.not_mem_nil⟩,
          (resolveFlat_lookup here q t').mp found⟩
      · rintro ⟨block, ⟨before, after, split, _, unnamed⟩, entry⟩
        cases before with
        | nil =>
          obtain ⟨rfl, _⟩ := List.cons.inj split
          exact ((resolveFlat_lookup here q t').mp found).unique entry
        -- a later block cannot be the first: this one names it already
        | cons head before =>
          obtain ⟨rfl, _⟩ := List.cons.inj split
          exact absurd named (unnamed first (.head _))
    | none =>
      rw [found, Option.isSome_none] at named
      have unnamed : ¬ Names (.ofDocuments first) q :=
        fun names => Bool.false_ne_true (named.mpr names)
      simp only
      rw [ih]
      refine exists_congr fun block => and_congr_left fun _ => ?_
      constructor
      · rintro ⟨before, after, rfl, names, earlier⟩
        exact ⟨first :: before, after, rfl, names, List.forall_mem_cons.mpr ⟨unnamed, earlier⟩⟩
      · rintro ⟨before, after, split, names, earlier⟩
        cases before with
        | nil =>
          obtain ⟨rfl, _⟩ := List.cons.inj split
          exact absurd names unnamed
        | cons head before =>
          obtain ⟨rfl, rfl⟩ := List.cons.inj split
          exact ⟨before, after, rfl, names, (List.forall_mem_cons.mp earlier).2⟩

variable {bytes : Text} {visited visited' : List Text} {resolved : ResolvedWsdl}
    {loaded : LoadedWsdl}
  {blocks : List (List RawSchema)}

theorem typeRegistry_iff (run : resolveWsdl src bytes visited = .ok (resolved, visited'))
    (blocksOf : Blocks src bytes visited blocks) {q : QName} {t : XsdType} :
    resolved.typeRegistry.lookup q = some t ↔ ∃ block, FirstWithEntry blocks q block ∧ Entry (.ofDocuments block) q t := by
  obtain ⟨registries, resolutions, merged⟩ := resolveWsdl_blocks run blocksOf
  rw [merged, findSome?_entry_iff resolutions]

/-! The type an element declares. -/

/-- The complex type that a declaration of a set of documents gives its element, with the
documents that the type is declared in. -/
inductive OwnType (blocks : List (List RawSchema)) (block : List RawSchema) (el : XsdElement) :
    List RawSchema → ComplexType → Prop
  | inline {raw : ComplexType} (typed : el.inlineType = some (.complex raw)) : OwnType blocks block el block raw
  | named {t : QName} {home : List RawSchema} {raw : ComplexType} (untyped : el.inlineType = none)
      (ref : el.typeRef = some t) (member : home ∈ blocks)
      (declared : (FlatTypeMap.ofDocuments home).complexType t = some raw) : OwnType blocks block el home raw

/-- A top-level declaration, with a complex type, of an inline schema. That schema stands first
among the documents it is resolved with. -/
structure ComplexDeclaration (blocks : List (List RawSchema)) where
  name : QName
  block : List RawSchema
  element : XsdElement
  member : block ∈ blocks
  own : ∃ inline others, block = inline :: others ∧ inline.elements.lookup name = some element
  complex : ∃ scope raw, OwnType blocks block element scope raw

/-- What the type that the element declares resolves to. -/
def ResolvesAsOwn (d : ComplexDeclaration blocks) (ct : ComplexType) : Prop :=
  ∃ scope raw, OwnType blocks d.block d.element scope raw ∧ ResolvesTo (.ofDocuments scope) raw ct

/-- The element's entry is the resolution of the type that it declares. -/
def ValidatedAsDeclared (resolved : ResolvedWsdl) (d : ComplexDeclaration blocks) : Prop :=
  ∀ q t, resolved.elementTypeMap.lookup d.name = some q → resolved.typeRegistry.lookup q = some t →
    ∃ ct, t = .complex ct ∧ ResolvesAsOwn d ct

/-- The definition that a set of documents has under a name is the element's own, or resolves
to what that resolves to. -/
def DefinesAsOwn (d : ComplexDeclaration blocks) (q : QName) (found : List RawSchema) : Prop :=
  ∃ raw, (FlatTypeMap.ofDocuments found).Defines q raw ∧ (OwnType blocks d.block d.element found raw ∨
    ∃ ct, ResolvesTo (.ofDocuments found) raw ct ∧ ResolvesAsOwn d ct)

/-- A first entry is registered. -/
theorem registered_of_first (run : resolveWsdl src bytes visited = .ok (resolved, visited'))
    (blocksOf : Blocks src bytes visited blocks) {q : QName} {block : List RawSchema}
    (first : FirstWithEntry blocks q block) :
    ∃ t, resolved.typeRegistry.lookup q = some t ∧ Entry (.ofDocuments block) q t := by
  obtain ⟨registries, resolutions, _⟩ := resolveWsdl_blocks run blocksOf
  obtain ⟨before, after, split, names, earlier⟩ := first
  obtain ⟨registry, _, here⟩ := registry_of_block resolutions (by rw [split]; simp : block ∈ blocks)
  obtain ⟨t, known⟩ := Option.isSome_iff_exists.mp ((resolveFlat_isSome_iff here q).mpr names)
  have entry := (resolveFlat_lookup here q t).mp known
  exact ⟨t, (typeRegistry_iff run blocksOf).mpr ⟨block, ⟨before, after, split, names, earlier⟩, entry⟩, entry⟩

/-- An element is validated as it declares exactly when the first entry under the name that is
recorded for it is defined by its own type, or by one that resolves alike. -/
theorem validated_as_declared_iff (run : resolveWsdl src bytes visited = .ok (resolved, visited'))
    (loads : Loads src bytes visited loaded)
    (blocksOf : schemaBlocks src [] loaded.schemas = some blocks) (d : ComplexDeclaration blocks) :
    ValidatedAsDeclared resolved d ↔
      ∀ q found, (firstTyping src loaded d.name).bind (typeName d.name) = some q → FirstWithEntry blocks q found →
        DefinesAsOwn d q found := by
  have blocksOf : Blocks src bytes visited blocks := ⟨loaded, loads, blocksOf⟩
  constructor
  · intro validated q found recorded first
    obtain ⟨t, known, entry⟩ := registered_of_first run blocksOf first
    obtain ⟨ct, rfl, own⟩ := validated q t ((elementTypeMap_eq run loads d.name).trans recorded) known
    obtain ⟨raw, defines, resolves⟩ := entry.defines
    exact ⟨raw, defines, .inr ⟨ct, resolves, own⟩⟩
  · intro defined q t recorded known
    obtain ⟨found, first, entry⟩ := (typeRegistry_iff run blocksOf).mp known
    obtain ⟨raw, defines, own⟩ := defined q found ((elementTypeMap_eq run loads d.name).symm.trans recorded) first
    rcases own with own | ⟨ct, resolves, own⟩
    · obtain ⟨ct, rfl, resolves⟩ := entry.of_defines defines
      exact ⟨ct, rfl, found, raw, own, resolves⟩
    · exact ⟨ct, entry.unique (entry_of_resolvesTo defines resolves), own⟩

/-- An inline schema that loads nothing is a set of documents by itself. -/
theorem schemaBlocks_single {schemaStr : Text} {doc : DomNode} {alreadyLoaded : List Text}
    (parsed : src.parseXml schemaStr = .ok doc) (loadsNothing : (parseSchema doc).references = [])
    (fuel : 0 < src.fuel) :
    schemaBlocks src alreadyLoaded [schemaStr] = some [[parseSchema doc]] := by
  obtain ⟨n, enough⟩ := Nat.exists_eq_succ_of_ne_zero (Nat.ne_of_gt fuel)
  simp only [schemaBlocks, parsed, enough, gatherLoop, loadsNothing, List.foldlM_nil, pure,
    Except.pure, bind, Except.bind]
  cases n <;> rfl

/-! An element and a type of one name. -/

def clashElement : DomNode :=
  schemaNode "element" [attr "name" "Order"]
    [schemaNode "complexType" [] [schemaNode "sequence" [] [schemaNode "element" [attr "name" "total"] []]]]

def clashSchema : DomNode :=
  schemaNode "schema" [attr "targetNamespace" "urn:a"]
    [schemaNode "complexType" [attr "name" "Order"]
      [schemaNode "sequence" [] [schemaNode "element" [attr "name" "id"] []]], clashElement]

def clashWsdl : DomNode := definitionsNode [wsdlNode "types" [] [clashSchema]]

def clashSources : Sources := .ofDocuments [clashWsdl, clashSchema] []

def clashQName : QName := .new "urn:a".toList "Order".toList

def clashBlocks : List (List RawSchema) := [[parseSchema clashSchema]]

def clashDeclaration : ComplexDeclaration clashBlocks where
  name := clashQName
  block := [parseSchema clashSchema]
  element := visitElement clashElement
  member := .head _
  own := ⟨_, [], rfl, rfl⟩
  complex := ⟨_, _, .inline rfl⟩

/-- The name that a registered complex type is declared with. -/
def declaredName (registry : TypeRegistry) (q : QName) : Option Text :=
  match registry.lookup q with
  | some (.complex ct) => ct.name
  | some (.simple _) | none => none

theorem clashWsdl_resolved : ∃ resolved visited loaded,
    resolveWsdl clashSources (nodeToString clashWsdl) [] = .ok (resolved, visited) ∧
      Loads clashSources (nodeToString clashWsdl) [] loaded ∧
      schemaBlocks clashSources [] loaded.schemas = some clashBlocks ∧
      resolved.elementTypeMap.lookup clashQName = some clashQName ∧
      (resolved.typeRegistry.lookup clashQName).isSome ∧
      declaredName resolved.typeRegistry clashQName = some "Order".toList := by
  have evaluated : ∃ resolved, resolveWsdl clashSources (nodeToString clashWsdl) [] = .ok resolved ∧
      ∃ loaded, loadDocuments clashSources clashSources.fuel [] (nodeToString clashWsdl) = some loaded ∧
      loaded.schemas = [nodeToString clashSchema] ∧
      resolved.1.elementTypeMap.lookup clashQName = some clashQName ∧
      (resolved.1.typeRegistry.lookup clashQName).isSome ∧
      declaredName resolved.1.typeRegistry clashQName = some "Order".toList := by decide +kernel
  obtain ⟨resolved, run, loaded, loads, inline, recorded, registered, named⟩ := evaluated
  have blocksOf : schemaBlocks clashSources [] loaded.schemas = some clashBlocks := by
    rw [inline]
    exact schemaBlocks_single (by decide +kernel) (by decide +kernel) (by decide)
  exact ⟨resolved.1, resolved.2, loaded, run, loads, blocksOf, recorded, registered, named⟩

/-- The element `Order` is validated against the type `Order`, which it does not declare. -/
theorem clashElement_misvalidated : ∃ resolved visited loaded,
    resolveWsdl clashSources (nodeToString clashWsdl) [] = .ok (resolved, visited) ∧
      Loads clashSources (nodeToString clashWsdl) [] loaded ∧
      schemaBlocks clashSources [] loaded.schemas = some clashBlocks ∧
      ¬ ValidatedAsDeclared resolved clashDeclaration := by
  obtain ⟨resolved, visited, loaded, run, loads, blocksOf, recorded, registered, named⟩ :=
    clashWsdl_resolved
  refine ⟨resolved, visited, loaded, run, loads, blocksOf, fun validated => ?_⟩
  obtain ⟨t, known⟩ := Option.isSome_iff_exists.mp registered
  obtain ⟨ct, rfl, scope, raw, own, resolves⟩ := validated _ t recorded known
  have anonymous : raw.name = none := by
    cases own with
    | inline typed =>
      cases typed
      rfl
    | named untyped => cases untyped
  rw [declaredName, known] at named
  cases (resolves.name.trans anonymous).symm.trans named

theorem clashElement_validated_as_declared_iff : ∃ resolved visited loaded,
    resolveWsdl clashSources (nodeToString clashWsdl) [] = .ok (resolved, visited) ∧
      Loads clashSources (nodeToString clashWsdl) [] loaded ∧
      (ValidatedAsDeclared resolved clashDeclaration ↔
        ∀ q found, (firstTyping clashSources loaded clashQName).bind (typeName clashQName) = some q →
          FirstWithEntry clashBlocks q found → DefinesAsOwn clashDeclaration q found) := by
  obtain ⟨resolved, visited, loaded, run, loads, blocksOf, _⟩ := clashWsdl_resolved
  exact ⟨resolved, visited, loaded, run, loads,
    validated_as_declared_iff run loads blocksOf clashDeclaration⟩

end SoapServer.Wsdl
