import SoapServer.Xsd.Registry

/-! Extension chains in the registry: circular ones are found in any order of the types, and
all others are flattened, ancestors first.
-/

set_option autoImplicit false

namespace SoapServer.Xsd

open Markup (Text)
open Maps Loops Descent

/-- The elements that the registry has for a name. -/
def registeredElements (registry : TypeRegistry) (q : QName) : List XsdElement :=
  match registry.lookup q with
  | some (.complex ct) => extractElements ct.content
  | some (.simple _) | none => []

/-- The elements that a base contributes: none unless it is a declared complex type. -/
def FlatTypeMap.baseElements (flat : FlatTypeMap) (registry : TypeRegistry)
    (base : QName) : List XsdElement :=
  if (flat.complexType base).isSome then registeredElements registry base else []

/-- A complex type that extends another one. -/
def FlatTypeMap.Extends (flat : FlatTypeMap) (q base : QName) : Prop := Step flat.above q base

/-- A registry in which every extension chain is flattened. -/
structure Flattened (flat : FlatTypeMap) (registry : TypeRegistry) : Prop where
  registered : ∀ q, (flat.complexType q).isSome → ∃ ct, registry.lookup q = some (.complex ct)
  extension : ∀ q raw base content, flat.complexType q = some raw →
    raw.content = .complexExtension base content →
    ∃ own, Resolves flat content own ∧
      registeredElements registry q = flat.baseElements registry base ++ extractElements own
  chain : ∀ q, (flat.complexType q).isSome → Contributes flat [q] (registeredElements registry q)

variable {flat : FlatTypeMap}

theorem registeredElements_of_resolves {registry : TypeRegistry} {iter : MapOrder}
    (run : resolveFlat iter flat = .ok registry) {q : QName} {raw ct : ComplexType}
    (declared : flat.complexType q = some raw) (resolves : ResolvesTo flat raw ct) :
    registeredElements registry q = extractElements ct.content := by
  rw [registeredElements, (resolveFlat_lookup run q _).mpr (.complex declared resolves)]

theorem resolveFlat_flattened {registry : TypeRegistry} {iter : MapOrder}
    (run : resolveFlat iter flat = .ok registry) : Flattened flat registry := by
  have all := ((exists_registry_iff iter).mp ⟨registry, run⟩).1
  refine ⟨fun q declared => ?_, fun q raw base content declared extends_ => ?_,
    fun q declared => ?_⟩
  · obtain ⟨raw, declared⟩ := Option.isSome_iff_exists.mp declared
    obtain ⟨ct, resolves⟩ := all q raw declared
    exact ⟨ct, (resolveFlat_lookup run q _).mpr (.complex declared resolves)⟩
  · obtain ⟨ct, resolves⟩ := all q raw declared
    have content' := resolves.content
    rw [registeredElements_of_resolves run declared resolves]
    rw [extends_] at content'
    generalize ct.content = out at content'
    cases content' with
    | @extension _ rawBase _ above own found ancestor attributes inner =>
      obtain ⟨baseAttributes, expanded⟩ := attributes
      have base : ResolvesTo flat rawBase ⟨rawBase.name, above, baseAttributes⟩ :=
        ⟨rfl, ancestor, expanded⟩
      refine ⟨own, inner, ?_⟩
      rw [FlatTypeMap.baseElements, if_pos (by rw [found]; rfl),
        registeredElements_of_resolves run found base]
      rfl
    -- an undeclared base has no elements
    | opaqueExtension absent inner =>
      refine ⟨_, inner, ?_⟩
      rw [FlatTypeMap.baseElements, if_neg (by rw [absent]; simp), List.nil_append]
      rfl
  · obtain ⟨raw, declared⟩ := Option.isSome_iff_exists.mp declared
    obtain ⟨ct, resolves⟩ := all q raw declared
    obtain ⟨ancestors, own, above, particles, split⟩ := resolves.content.contributes
    rw [registeredElements_of_resolves run declared resolves, split]
    simpa using Contributes.declared declared above particles .nil

theorem resolveFlat_error {iter : MapOrder} {e : Failure SchemaError}
    (run : resolveFlat iter flat = .error e) (returns : e ≠ .hang) :
    ∃ q r, Relation.TransGen flat.Extends q q ∧ e = .error (.cycleDetected r) := by
  rcases resolveFlat_cases iter flat with ⟨registry, ok, _⟩ | ⟨e', q, failed, _, fails⟩ | ⟨raw, hangs, _⟩
  · cases run.symm.trans ok
  · cases run.symm.trans failed
    cases fails with
    | cycle reached cycle => exact ⟨_, _, cycle, rfl⟩
    | stuck => exact absurd rfl returns
  · cases run.symm.trans hangs
    exact absurd rfl returns

/-- Where there is a registry no type comes back to itself. -/
theorem not_circular {iter : MapOrder} {registry : TypeRegistry}
    (run : resolveFlat iter flat = .ok registry) (q : QName) :
    ¬ Relation.TransGen flat.Extends q q := by
  intro cycle
  obtain ⟨base, step, _⟩ := Relation.TransGen.head'_iff.mp cycle
  obtain ⟨raw, declared⟩ := above_declared step
  obtain ⟨ct, resolves⟩ := ((exists_registry_iff iter).mp ⟨registry, run⟩).1 q raw declared
  exact resolves.not_meetsCycle declared ⟨q, .refl, cycle⟩

/-- Where resolving returns, it reports a circle of extensions if there is one, and otherwise
flattens every chain, in whatever order it visits the types. -/
theorem resolveSchema_exact {iter : MapOrder} {parseXml : TreeParser} {loader : SchemaLoader}
    {fuel : Nat} {raw : RawSchema} {alreadyLoaded loaded : List Text}
    (collected : collectAllSchemas parseXml loader fuel raw alreadyLoaded = .ok (flat, loaded))
    (returns : resolveSchema iter parseXml loader fuel raw alreadyLoaded ≠ .error .hang) :
    ((∃ name, resolveSchema iter parseXml loader fuel raw alreadyLoaded = .error (.error (.cycleDetected name))) ↔
      ∃ q, Relation.TransGen flat.Extends q q) ∧
    ((∀ q, ¬ Relation.TransGen flat.Extends q q) → ∃ registry,
      resolveSchema iter parseXml loader fuel raw alreadyLoaded = .ok (registry, loaded) ∧
        Flattened flat registry ∧
        ∀ iter', ∃ registry', resolveSchema iter' parseXml loader fuel raw alreadyLoaded = .ok (registry', loaded) ∧
          ∀ q, registry'.lookup q = registry.lookup q) := by
  have result (iter : MapOrder) : resolveSchema iter parseXml loader fuel raw alreadyLoaded =
      (resolveFlat iter flat).map fun registry => (registry, loaded) := by
    rw [resolveSchema, collected]
    rfl
  simp only [result] at returns ⊢
  cases run : resolveFlat iter flat with
  | error e =>
    have notHang : e ≠ .hang := fun hang => returns (by rw [run, hang]; rfl)
    obtain ⟨q, r, cycle, rfl⟩ := resolveFlat_error run notHang
    exact ⟨iff_of_true ⟨r, rfl⟩ ⟨q, cycle⟩, fun acyclic => absurd cycle (acyclic q)⟩
  | ok registry =>
    refine ⟨iff_of_false (fun ⟨_, failed⟩ => by cases failed) fun ⟨q, cycle⟩ => not_circular run q cycle, fun _ => ?_⟩
    refine ⟨registry, rfl, resolveFlat_flattened run, fun iter' => ?_⟩
    -- that the types resolve does not depend on the order, and neither does an entry
    obtain ⟨registry', run'⟩ := (exists_registry_iff iter').mpr ((exists_registry_iff iter).mp ⟨registry, run⟩)
    refine ⟨registry', by rw [run']; rfl, fun q => Option.ext fun t => ?_⟩
    rw [resolveFlat_lookup run', resolveFlat_lookup run]

/-! A chain of three types, in no order. -/

/-- An element of the schema language. -/
def xsNode (name : String) (attributes : List (String × String))
    (children : List DomNode) : DomNode :=
  .plain xsNs name.toList [(some "xs".toList, xsNs), (some "t".toList, "urn:t".toList)]
    (attributes.map fun a => (a.1.toList, a.2.toList)) children

def extensionNode (name base element : String) : DomNode :=
  xsNode "complexType" [("name", name)]
    [xsNode "complexContent" []
      [xsNode "extension" [("base", base)] [xsNode "sequence" [] [xsNode "element" [("name", element)] []]]]]

def chainSchema : DomNode :=
  xsNode "schema" [("targetNamespace", "urn:t")]
    [extensionNode "Leaf" "t:Middle" "c", extensionNode "Middle" "t:Base" "b",
      xsNode "complexType" [("name", "Base")] [xsNode "sequence" [] [xsNode "element" [("name", "a")] []]]]

/-- The loader for schemas without imports. -/
def nullSchemaLoader : SchemaLoader :=
  fun _ location => .error (.unknownRef ("NullSchemaLoader cannot load: ".toList ++ location))

def noTrees : TreeParser := fun _ => .error []

theorem chainSchema_exact :
    let flat := FlatTypeMap.empty.merge (parseSchema chainSchema)
    let resolved := resolveSchema .stored noTrees nullSchemaLoader 1 (parseSchema chainSchema) []
    ((∃ name, resolved = .error (.error (.cycleDetected name))) ↔ ∃ q, Relation.TransGen flat.Extends q q) ∧
      ((∀ q, ¬ Relation.TransGen flat.Extends q q) → ∃ registry, resolved = .ok (registry, []) ∧
        Flattened flat registry ∧
        ∀ iter', ∃ registry', resolveSchema iter' noTrees nullSchemaLoader 1 (parseSchema chainSchema) [] =
            .ok (registry', []) ∧ ∀ q, registry'.lookup q = registry.lookup q) := by
  have returns : resolveSchema .stored noTrees nullSchemaLoader 1 (parseSchema chainSchema) [] ≠ .error .hang := by
    have evaluated :
        (match resolveSchema .stored noTrees nullSchemaLoader 1 (parseSchema chainSchema) [] with
          | .error .hang => false
          | _ => true) = true := by decide +kernel
    intro hangs
    rw [hangs] at evaluated
    cases evaluated
  exact resolveSchema_exact rfl returns

end SoapServer.Xsd
