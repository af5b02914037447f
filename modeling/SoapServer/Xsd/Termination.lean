import SoapServer.Library.Search
import SoapServer.Xsd.Flattening

/-! When resolving returns. Loading always ends, as a location is loaded once, and so does the
flattening of extensions, which stops at a type it is already resolving. References from group to
group have no such guard.
-/

set_option autoImplicit false

namespace SoapServer.Xsd

open Markup (Text)
open Maps Loops Descent Search

/-- A loader that serves finitely many locations. -/
def Finite (loader : SchemaLoader) : Prop :=
  ∃ locations : List Text, ∀ ns location xmlText, loader ns location = .ok xmlText → location ∈ locations

section loading

variable {parseXml : TreeParser} {loader : SchemaLoader} {locations : List Text}

/-- What is left to load or to process. -/
def remaining (locations : List Text)
    (st : LoadState) : Nat := st.2.length + unvisited locations st.1

theorem loadReference_remaining
    (served : ∀ ns location xmlText, loader ns location = .ok xmlText → location ∈ locations)
    {st st' : LoadState} {reference : Option Text × Text}
    (run : loadReference parseXml loader st reference = .ok st') :
    remaining locations st' ≤ remaining locations st := by
  obtain ⟨alreadyLoaded, queue⟩ := st
  obtain ⟨ns, location⟩ := reference
  simp only [loadReference] at run
  split at run
  next => exact (congrArg (remaining locations) (Except.ok.inj run)).ge
  next fresh =>
    split at run
    next => cases run
    next xmlText given =>
      split at run
      next => cases run
      next doc _ =>
        obtain rfl := Except.ok.inj run
        have := unvisited_cons_lt (served _ _ _ given) fresh
        simp only [remaining, List.length_cons] at this ⊢
        omega

theorem loadReference_error {st : LoadState} {reference : Option Text × Text}
    {e : Failure SchemaError} (run : loadReference parseXml loader st reference = .error e) :
    e ≠ .hang := by
  obtain ⟨alreadyLoaded, queue⟩ := st
  obtain ⟨ns, location⟩ := reference
  simp only [loadReference, resolutionError] at run
  split at run
  next => cases run
  next =>
    split at run
    next => cases run; simp
    next =>
      split at run
      next => cases run; simp
      next => cases run

/-- Enough fuel for all that is left is enough. -/
theorem collectLoop_returns
    (served : ∀ ns location xmlText, loader ns location = .ok xmlText → location ∈ locations)
    {fuel : Nat} {flat : FlatTypeMap} {st : LoadState} (enough : remaining locations st ≤ fuel) :
    collectLoop parseXml loader fuel flat st ≠ .error .hang := by
  induction fuel generalizing flat st with
  | zero =>
    obtain ⟨alreadyLoaded, queue⟩ := st
    cases queue with
    | nil => simp [collectLoop]
    | cons schema queue =>
      simp only [remaining, List.length_cons] at enough
      omega
  | succ fuel ih =>
    obtain ⟨alreadyLoaded, queue⟩ := st
    cases queue with
    | nil => simp [collectLoop]
    | cons schema queue =>
      intro hangs
      rcases bind_eq_error.mp hangs with failed | ⟨st', loaded, rest⟩
      · obtain ⟨_, reference, _, mid, _, _, failed⟩ := foldlM_eq_error failed
        exact loadReference_error failed rfl
      · refine ih ?_ rest
        -- a reference that is loaded moves from the locations to the queue
        have less : remaining locations st' ≤ remaining locations (alreadyLoaded, queue) :=
          foldlM_invariant (fun st => remaining locations st ≤ remaining locations (alreadyLoaded, queue))
            (fun reference _ s t bound step => (loadReference_remaining served step).trans bound) le_rfl loaded
        simp only [remaining, List.length_cons] at enough less ⊢
        omega

/-- More fuel than enough changes nothing. -/
theorem collectLoop_more {fuel : Nat} {flat : FlatTypeMap} {st : LoadState}
    (returns : collectLoop parseXml loader fuel flat st ≠ .error .hang) (extra : Nat) :
    collectLoop parseXml loader (fuel + extra) flat st = collectLoop parseXml loader fuel flat st := by
  induction fuel generalizing flat st with
  | zero =>
    obtain ⟨alreadyLoaded, queue⟩ := st
    cases queue with
    | nil => cases extra <;> rfl
    | cons schema queue => exact absurd rfl returns
  | succ fuel ih =>
    obtain ⟨alreadyLoaded, queue⟩ := st
    cases queue with
    | nil => rw [Nat.add_right_comm]; rfl
    | cons schema queue =>
      rw [Nat.add_right_comm]
      simp only [collectLoop] at returns ⊢
      cases loaded : schema.references.foldlM (loadReference parseXml loader) (alreadyLoaded, queue) with
      | error e => rfl
      | ok st' =>
        rw [loaded] at returns
        exact ih returns

end loading

/-! Types. -/

/-- References come to an end: those of every type whose extensions do, and, where all
extensions do, those of the inline types that are visited then. -/
structure FlatTypeMap.ReferencesEnd (flat : FlatTypeMap) : Prop where
  types : ∀ q raw, flat.complexType q = some raw → ¬ MeetsCycle flat.above q → flat.Grounded raw
  inlineTypes : (∀ q, ¬ Relation.TransGen flat.Extends q q) → ∀ raw, flat.InlineType raw → flat.Grounded raw

variable {flat : FlatTypeMap}

theorem FlatTypeMap.Stuck.not_meetsCycle {q : QName} {raw : ComplexType} (stuck : flat.Stuck raw)
    (declared : flat.complexType q = some raw) : ¬ MeetsCycle flat.above q := by
  intro meets
  obtain ⟨base, step, meets⟩ := meets.step
  obtain ⟨member, rawBase, found⟩ := (mem_above declared).mp step
  obtain ⟨ct, resolves⟩ := stuck.1 base member rawBase found
  exact resolves.not_meetsCycle found meets

/-- The type that is visited first decides how resolving ends if it does not resolve. -/
theorem exists_first_fails {q : QName} {raw : ComplexType}
    (declared : flat.complexType q = some raw) (unresolved : ¬ ∃ ct, ResolvesTo flat raw ct) :
    ∃ iter e, resolveFlat iter flat = .error e ∧ Fails flat q e := by
  rcases resolveNamedType_cases (exact_empty flat) declared
      with ⟨ct, _, _, _, resolves⟩ | ⟨e, failed, fails⟩
  · exact absurd ⟨ct, resolves⟩ unresolved
  · obtain ⟨n, rest, first⟩ := Iteration.stored.exists_first_entry MapSite.types
      (FlatTypeMap.complexType_eq_some.mp declared)
    refine ⟨Iteration.stored.rotating MapSite.types n, e, ?_, fails⟩
    have here : resolveNext flat ∅ q = .error e := by
      rw [resolveNext, if_neg (by simp), failed]
      rfl
    simp only [resolveFlat, first, List.filter_cons, XsdType.isComplex, if_true, List.map_cons,
      List.foldlM_cons, here]
    rfl

/-- Resolving ends in every order of the types exactly if the references end. -/
theorem resolveFlat_returns_iff :
    (∀ iter, resolveFlat iter flat ≠ .error .hang) ↔ flat.ReferencesEnd := by
  constructor
  · intro returns
    have types : ∀ q raw, flat.complexType q = some raw → ¬ MeetsCycle flat.above q → ∃ ct, ResolvesTo flat raw ct := by
      intro q raw declared free
      by_contra unresolved
      -- some order comes to that type first, and fails there
      obtain ⟨iter, e, failed, fails⟩ := exists_first_fails declared unresolved
      cases fails with
      | cycle reached cycle => exact free ⟨_, reached, cycle⟩
      | stuck => exact returns iter failed
    refine ⟨fun q raw declared free => ?_, fun acyclic raw inline => ?_⟩
    · obtain ⟨ct, resolves⟩ := types q raw declared free
      exact resolves.grounded
    · rcases resolveFlat_cases .stored flat
          with ⟨_, _, _, all, _⟩ | ⟨e, q, failed, _, fails⟩ | ⟨_, hangs, _⟩
      · obtain ⟨ct, resolves⟩ := all raw inline
        exact resolves.grounded
      · cases fails with
        | cycle _ cycle => exact absurd cycle (acyclic _)
        | stuck => exact absurd failed (returns .stored)
      · exact absurd hangs (returns .stored)
  · intro ends iter hangs
    rcases resolveFlat_cases iter flat with ⟨_, ok, _⟩ | ⟨e, q, failed, _, fails⟩ | ⟨raw, _, all, inline, stuck⟩
    · cases hangs.symm.trans ok
    · cases hangs.symm.trans failed
      cases fails with
      | stuck _ declared stuck => exact stuck.2 (ends.types _ _ declared (stuck.not_meetsCycle declared))
    · -- all types are resolved, so none of them derives from itself
      refine stuck.2 (ends.inlineTypes (fun q cycle => ?_) raw inline)
      obtain ⟨base, step, _⟩ := Relation.TransGen.head'_iff.mp cycle
      obtain ⟨raw', declared⟩ := above_declared step
      obtain ⟨ct, resolves⟩ := all q raw' declared
      exact resolves.not_meetsCycle declared ⟨q, .refl, cycle⟩

/-- Resolving a schema returns, given time, in every order in which its maps may be visited. -/
def Returns (parseXml : TreeParser) (loader : SchemaLoader) (raw : RawSchema)
    (alreadyLoaded : List Text) : Prop :=
  ∃ steps, ∀ fuel, steps ≤ fuel → ∀ iter, resolveSchema iter parseXml loader fuel raw alreadyLoaded ≠ .error .hang

/-- Resolving a schema returns exactly if the references among the declarations that it loads
come to an end. -/
theorem resolveSchema_returns_iff {parseXml : TreeParser} {loader : SchemaLoader}
    (finite : Finite loader) (raw : RawSchema) (alreadyLoaded : List Text) :
    Returns parseXml loader raw alreadyLoaded ↔
      ∀ fuel flat loaded, collectAllSchemas parseXml loader fuel raw alreadyLoaded = .ok (flat, loaded) →
        flat.ReferencesEnd := by
  obtain ⟨locations, served⟩ := finite
  have result {iter : MapOrder} {fuel : Nat} {flat : FlatTypeMap} {loaded : List Text}
      (collected : collectAllSchemas parseXml loader fuel raw alreadyLoaded = .ok (flat, loaded)) :
      resolveSchema iter parseXml loader fuel raw alreadyLoaded =
        (resolveFlat iter flat).map fun registry => (registry, loaded) := by
    rw [resolveSchema, collected]
    rfl
  constructor
  · rintro ⟨steps, returns⟩ fuel flat loaded collected
    rw [← resolveFlat_returns_iff]
    intro iter hangs
    -- what was collected is collected again with more fuel
    have more : collectAllSchemas parseXml loader (fuel + steps) raw alreadyLoaded = .ok (flat, loaded) := by
      rw [← collected]
      refine collectLoop_more (fun hangs => ?_) steps
      cases collected.symm.trans hangs
    refine returns (fuel + steps) (Nat.le_add_left _ _) iter ?_
    rw [result more, hangs]
    rfl
  · intro ends
    -- each round takes a schema from the queue, and only an unvisited location adds one
    refine ⟨remaining locations (alreadyLoaded, [raw]), fun fuel enough iter hangs => ?_⟩
    cases collected : collectAllSchemas parseXml loader fuel raw alreadyLoaded with
    | error e =>
      rw [resolveSchema, collected] at hangs
      cases hangs
      exact collectLoop_returns served enough collected
    | ok done =>
      obtain ⟨flat, loaded⟩ := done
      rw [result collected] at hangs
      cases run : resolveFlat iter flat with
      | ok registry =>
        rw [run] at hangs
        cases hangs
      | error e =>
        rw [run] at hangs
        cases hangs
        exact resolveFlat_returns_iff.mpr (ends fuel flat loaded collected) iter run

/-! An attribute group that refers to itself. -/

def circularSchema : DomNode :=
  xsNode "schema" [("targetNamespace", "urn:t")]
    [xsNode "attributeGroup" [("name", "g")] [xsNode "attributeGroup" [("ref", "t:g")] []],
      xsNode "complexType" [("name", "T")] [xsNode "attributeGroup" [("ref", "t:g")] []]]

theorem circularSchema_hangs :
    ¬ Returns noTrees nullSchemaLoader (parseSchema circularSchema) [] := by
  rintro ⟨steps, returns⟩
  refine returns (steps + 1) (Nat.le_succ _) .stored ?_
  have evaluated :
      (match resolveFlat .stored (FlatTypeMap.empty.merge (parseSchema circularSchema)) with
        | .error .hang => true
        | _ => false) = true := by decide +kernel
  split at evaluated
  next hangs =>
    have collected : collectAllSchemas noTrees nullSchemaLoader (steps + 1) (parseSchema circularSchema) [] =
        .ok (FlatTypeMap.empty.merge (parseSchema circularSchema), []) := by
      cases steps <;> rfl
    rw [resolveSchema, collected]
    exact bind_eq_error.mpr (.inr ⟨_, rfl, bind_eq_error.mpr (.inl hangs)⟩)
  next => cases evaluated

/-! A type whose groups are in another document. -/

def groupsSchema : DomNode :=
  xsNode "schema" [("targetNamespace", "urn:t")]
    [xsNode "group" [("name", "g")] [xsNode "sequence" [] [xsNode "element" [("ref", "t:inner")] []]],
      xsNode "group" [("name", "inner")] [xsNode "sequence" [] [xsNode "element" [("name", "a")] []]],
      xsNode "attributeGroup" [("name", "g")] [xsNode "attributeGroup" [("ref", "t:inner")] []],
      xsNode "attributeGroup" [("name", "inner")] [xsNode "attribute" [("name", "b")] []]]

def includingGroups : DomNode :=
  xsNode "schema" [("targetNamespace", "urn:t")]
    [xsNode "include" [("schemaLocation", "groups.xsd")] [],
      xsNode "complexType" [("name", "T")]
        [xsNode "sequence" [] [xsNode "element" [("ref", "t:g")] []], xsNode "attributeGroup" [("ref", "t:g")] []]]

/-- The one document that is loaded, under the name of its file. -/
def groupsLoader : SchemaLoader := fun _ location =>
  if location = "groups.xsd".toList then .ok "<groups>".toList else .error (.unknownRef location)

def groupsTrees : TreeParser := fun text => if text = "<groups>".toList then .ok groupsSchema else .error []

/-- What is collected does not depend on the time that is given. -/
theorem collectLoop_unique {parseXml : TreeParser} {loader : SchemaLoader} {fuel fuel' : Nat}
    {flat : FlatTypeMap} {st : LoadState} {first second : FlatTypeMap × List Text}
    (one : collectLoop parseXml loader fuel flat st = .ok first)
    (two : collectLoop parseXml loader fuel' flat st = .ok second) : first = second := by
  have more := collectLoop_more (by rw [one]; exact fun wrong => by cases wrong) fuel'
  have more' := collectLoop_more (by rw [two]; exact fun wrong => by cases wrong) fuel
  rw [Nat.add_comm, more', one, two] at more
  exact (Except.ok.inj more).symm

/-- References that resolve come to an end. -/
theorem referencesEnd_of_resolve {flat : FlatTypeMap}
    (types : ∀ e ∈ flat.types.entries, ∀ raw ∈ flat.complexType e.1,
      (resolveElementList flat raw.content.particles).isOk = true ∧
        (resolveAttributes flat raw.attributes).isOk = true)
    (inline : ∀ e ∈ flat.elements.entries, e.2.inlineType.isNone) : flat.ReferencesEnd where
  types q raw declared _ := by
    have entry := AList.mem_lookup_iff.mp (FlatTypeMap.complexType_eq_some.mp declared)
    obtain ⟨elements, attributes⟩ := types _ entry raw declared
    have given {ε α : Type} {x : Except ε α} (isOk : x.isOk = true) : ∃ a, x = .ok a := by
      cases x with
      | error e => cases isOk
      | ok a => exact ⟨a, rfl⟩
    exact grounded_iff.mpr ⟨given elements, given attributes⟩
  inlineTypes _ raw given := by
    obtain ⟨q, el, _, known, type⟩ := given
    have none_ := inline _ (AList.mem_lookup_iff.mp known)
    rw [type] at none_
    cases none_

theorem includingGroups_returns : ∃ done,
    collectAllSchemas groupsTrees groupsLoader 2 (parseSchema includingGroups) [] = .ok done ∧
      (done.1.groupReferences [(visitElement (xsNode "element" [("ref", "t:g")] []))]).length = 1 ∧
      Returns groupsTrees groupsLoader (parseSchema includingGroups) [] := by
  have evaluated : ∃ done, collectAllSchemas groupsTrees groupsLoader 2 (parseSchema includingGroups) [] = .ok done ∧
      (done.1.groupReferences [(visitElement (xsNode "element" [("ref", "t:g")] []))]).length = 1 ∧
      (∀ e ∈ done.1.types.entries, ∀ raw ∈ done.1.complexType e.1,
        (resolveElementList done.1 raw.content.particles).isOk = true ∧
          (resolveAttributes done.1 raw.attributes).isOk = true) ∧
      ∀ e ∈ done.1.elements.entries, e.2.inlineType.isNone := by
    decide +kernel
  obtain ⟨done, collected, refers, types, inline⟩ := evaluated
  have finite : Finite groupsLoader := by
    refine ⟨["groups.xsd".toList], fun ns location xmlText given => ?_⟩
    unfold groupsLoader at given
    split at given
    next here => exact List.mem_singleton.mpr here
    next => cases given
  refine ⟨done, collected, refers, (resolveSchema_returns_iff finite _ _).mpr ?_⟩
  intro fuel flat loaded again
  cases collectLoop_unique again collected
  exact referencesEnd_of_resolve types inline

end SoapServer.Xsd
