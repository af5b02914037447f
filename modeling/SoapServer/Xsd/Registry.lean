import SoapServer.Xsd.Entries
import SoapServer.Xsd.ResolvedTypes

/-! The registry of a set of declarations: which there is, and when there is one, whatever the
order in which the resolver visits them.
-/

set_option autoImplicit false

namespace SoapServer.Xsd

open Maps Loops Descent

/-- The entry of a name: what its type resolves to or, where no type has the name, the inline
type of the element of that name. -/
inductive Entry (flat : FlatTypeMap) (q : QName) : XsdType → Prop
  | complex {raw ct : ComplexType} (declared : flat.complexType q = some raw) (resolves : ResolvesTo flat raw ct) :
      Entry flat q (.complex ct)
  | simple {st : SimpleType} (declared : flat.types.lookup q = some (.simple st)) : Entry flat q (.simple st)
  | inline {el : XsdElement} {raw ct : ComplexType} (unnamed : flat.types.lookup q = none)
      (declared : flat.elements.lookup q = some el) (typed : el.inlineType = some (.complex raw))
      (resolves : ResolvesTo flat raw ct) : Entry flat q (.complex ct)

/-- All named types resolve. -/
def FlatTypeMap.AllResolve (flat : FlatTypeMap) : Prop :=
  ∀ q raw, flat.complexType q = some raw → ∃ ct, ResolvesTo flat raw ct

/-- A definition that the resolver visits after the types: the inline type of an element whose
name no type has. -/
def FlatTypeMap.InlineType (flat : FlatTypeMap) (raw : ComplexType) : Prop :=
  ∃ q el, flat.types.lookup q = none ∧ flat.elements.lookup q = some el ∧ el.inlineType = some (.complex raw)

/-- All inline types that the resolver visits resolve. -/
def FlatTypeMap.InlineResolve (flat : FlatTypeMap) : Prop :=
  ∀ raw, flat.InlineType raw → ∃ ct, ResolvesTo flat raw ct

variable {flat : FlatTypeMap}

/-! The types. -/

theorem resolveNext_exact {memo memo' : Resolved} {q : QName} {raw : ComplexType}
    (exact : Exact flat memo) (declared : flat.complexType q = some raw)
    (run : resolveNext flat memo q = .ok memo') :
    Exact flat memo' := by
  unfold resolveNext at run
  split at run
  next => exact Except.ok.inj run ▸ exact
  next =>
    obtain ⟨⟨ct, mid⟩, resolved, same⟩ := bind_eq_ok.mp run
    rcases resolveNamedType_cases exact declared
        with ⟨ct', mid', run', midExact, resolves⟩ | ⟨e, failed, _⟩
    · cases resolved.symm.trans run'
      exact Except.ok.inj same ▸ midExact.insert declared resolves
    · cases resolved.symm.trans failed

theorem resolveNext_fails {memo : Resolved} {q : QName} {raw : ComplexType}
    {e : Failure SchemaError} (exact : Exact flat memo) (declared : flat.complexType q = some raw)
    (run : resolveNext flat memo q = .error e) :
    Fails flat q e := by
  unfold resolveNext at run
  split at run
  next => cases run
  next =>
    rcases bind_eq_error.mp run with failed | ⟨_, _, done⟩
    · rcases resolveNamedType_cases exact declared with ⟨_, _, run', _⟩ | ⟨e', failed', fails⟩
      · cases failed.symm.trans run'
      · cases failed.symm.trans failed'
        exact fails
    · cases done

/-- The loop over the types gives all that they resolve to, or fails as one of them does. -/
theorem resolveTypes_cases {qs : List QName} (declared : ∀ q ∈ qs, (flat.complexType q).isSome) :
    (∃ memo, qs.foldlM (resolveNext flat) ∅ = .ok memo ∧ Exact flat memo ∧ ∀ q ∈ qs, (memo.lookup q).isSome) ∨
      ∃ e, qs.foldlM (resolveNext flat) ∅ = .error e ∧ ∃ q ∈ qs, Fails flat q e := by
  have named (q : QName) (member : q ∈ qs) : ∃ raw, flat.complexType q = some raw :=
    Option.isSome_iff_exists.mp (declared q member)
  cases run : qs.foldlM (resolveNext flat) ∅ with
  | ok memo =>
    refine .inl ⟨memo, rfl, ?_, (resolveNext_run declared run).2⟩
    refine foldlM_invariant (Exact flat) (fun q member s t exact step => ?_) (exact_empty flat) run
    obtain ⟨raw, declared⟩ := named q member
    exact resolveNext_exact exact declared step
  | error e =>
    obtain ⟨done, q, rest, mid, split, before, failed⟩ := foldlM_eq_error run
    obtain ⟨raw, here⟩ := named q (by rw [split]; simp)
    refine .inr ⟨e, rfl, q, by rw [split]; simp, resolveNext_fails ?_ here failed⟩
    refine foldlM_invariant (Exact flat) (fun q member s t exact step => ?_) (exact_empty flat) before
    obtain ⟨raw, declared⟩ := named q (by rw [split]; simp [member])
    exact resolveNext_exact exact declared step

/-! The elements. -/

theorem resolveNamedType_exacting (flat : FlatTypeMap) : Exacting flat (resolveNamedType flat) :=
  resolveNamedTypeWithin_exacting flat _ _

/-- Once all types resolve, a definition does so too, or it is stuck. -/
theorem resolveComplexType_cases (all : flat.AllResolve) (raw : ComplexType) :
    (∃ ct, resolveComplexType flat raw = .ok ct ∧ ResolvesTo flat raw ct) ∨
      resolveComplexType flat raw = .error .hang ∧ flat.Stuck raw := by
  cases run : resolveComplexType flat raw with
  | ok ct =>
    obtain ⟨⟨made, memo⟩, run, same⟩ := bind_eq_ok.mp run
    cases same
    exact .inl ⟨ct, rfl, (resolveComplexTypeWith_resolves (resolveNamedType_exacting flat) (exact_empty flat) run).2⟩
  | error e =>
    rcases bind_eq_error.mp run with failed | ⟨_, _, done⟩
    · rcases resolveComplexTypeWith_fails (resolveNamedType_exacting flat) (exact_empty flat) failed with
        ⟨base, _, memo, exact, failed⟩ | ⟨rfl, stuck⟩
      · have fails : Fails flat base e :=
          resolveNamedTypeWithin_fails (pending_nil flat base) exact failed
        obtain ⟨rawBase, declared⟩ := fails.declared
        obtain ⟨ct, resolves⟩ := all base rawBase declared
        exact absurd resolves (fails.not_resolves declared)
      · exact .inr ⟨rfl, stuck⟩
    · cases done

/-- The entry that an element makes under its own name. -/
def Inline (flat : FlatTypeMap) (el : XsdElement) (t : XsdType) : Prop :=
  ∃ raw ct, el.inlineType = some (.complex raw) ∧ ResolvesTo flat raw ct ∧ t = .complex ct

/-- An element makes its entry unless its name is taken. -/
def Settled (flat : FlatTypeMap) (registry : TypeRegistry) (q : QName) (el : XsdElement) : Prop :=
  registry.lookup q = none → ∀ raw, el.inlineType = some (.complex raw) → ∃ ct, ResolvesTo flat raw ct

theorem registerElement_cases (all : flat.AllResolve) (registry : TypeRegistry) (q : QName)
    (el : XsdElement) :
    (∃ grown, registerElement flat registry q el = .ok grown ∧ Settled flat registry q el ∧
      ∀ other t, grown.lookup other = some t ↔
        registry.lookup other = some t ∨ registry.lookup other = none ∧ other = q ∧ Inline flat el t) ∨
    registerElement flat registry q el = .error .hang ∧ registry.lookup q = none ∧
      ∃ raw, el.inlineType = some (.complex raw) ∧ flat.Stuck raw := by
  -- what registers nothing leaves every entry as it is
  have unchanged (nothing : ∀ t, registry.lookup q = none → ¬ Inline flat el t) (other : QName) (t : XsdType) :
      registry.lookup other = some t ↔
        registry.lookup other = some t ∨ registry.lookup other = none ∧ other = q ∧ Inline flat el t := by
    refine ⟨.inl, fun found => found.elim id fun ⟨free, here, inline⟩ => ?_⟩
    exact absurd inline (nothing t (here ▸ free))
  unfold registerElement
  by_cases taken : (registry.lookup q).isSome
  · rw [if_pos taken]
    have notFree (free : registry.lookup q = none) : False := by
      rw [free] at taken
      cases taken
    exact .inl ⟨registry, rfl, fun free => (notFree free).elim,
      unchanged fun t free => (notFree free).elim⟩
  · rw [if_neg taken]
    have free : registry.lookup q = none := by simpa using taken
    cases typed : el.inlineType with
    | none =>
      refine .inl ⟨registry, rfl, fun _ raw inline => (by cases typed.symm.trans inline),
        unchanged fun t _ => ?_⟩
      rintro ⟨_, _, inline, _⟩
      cases typed.symm.trans inline
    | some t =>
      cases t with
      -- a simple inline type is not registered
      | simple st =>
        refine .inl ⟨registry, rfl, fun _ raw inline => (by cases typed.symm.trans inline),
          unchanged fun t _ => ?_⟩
        rintro ⟨_, _, inline, _⟩
        cases typed.symm.trans inline
      | complex raw =>
        rcases resolveComplexType_cases all raw with ⟨ct, run, resolves⟩ | ⟨run, stuck⟩
        · refine .inl ⟨registry.insert q (.complex ct), by simp only [run], fun _ raw' inline => ?_,
            fun other t => ?_⟩
          · cases typed.symm.trans inline
            exact ⟨ct, resolves⟩
          -- the entry is made under the name of the element and nowhere else
          by_cases here : other = q
          · subst here
            rw [AList.lookup_insert, free]
            constructor
            · intro same
              exact .inr ⟨rfl, rfl, raw, ct, typed, resolves, (Option.some.inj same).symm⟩
            · rintro (taken | ⟨_, _, raw', ct', inline, resolves', rfl⟩)
              · cases taken
              · cases typed.symm.trans inline
                rw [resolves.unique resolves']
          · rw [AList.lookup_insert_ne here]
            exact ⟨.inl, fun found => found.elim id fun ⟨_, same, _⟩ => absurd same here⟩
        · exact .inr ⟨by simp only [run], free, raw, rfl, stuck⟩

/-- The loop over the elements adds their entries under the names that are free. -/
theorem registerElements_cases (all : flat.AllResolve)
    {entries : List (Sigma fun _ : QName => XsdElement)} (nodup : entries.NodupKeys)
    (registry : TypeRegistry) :
    (∃ grown, entries.foldlM (fun registry e => registerElement flat registry e.1 e.2) registry = .ok grown ∧
      (∀ e ∈ entries, Settled flat registry e.1 e.2) ∧ ∀ q t, grown.lookup q = some t ↔ registry.lookup q = some t ∨ registry.lookup q = none ∧
        ∃ e ∈ entries, q = e.1 ∧ Inline flat e.2 t) ∨
    entries.foldlM (fun registry e => registerElement flat registry e.1 e.2) registry = .error .hang ∧
      ∃ e ∈ entries, registry.lookup e.1 = none ∧ ∃ raw, e.2.inlineType = some (.complex raw) ∧ flat.Stuck raw := by
  induction entries generalizing registry with
  | nil =>
    refine .inl ⟨registry, rfl, fun e member => (by cases member),
      fun q t => ⟨.inl, fun found => found.elim id ?_⟩⟩
    rintro ⟨_, e, member, _⟩
    cases member
  | cons e rest ih =>
    obtain ⟨q, el⟩ := e
    obtain ⟨fresh, nodup⟩ := List.nodupKeys_cons.mp nodup
    -- the names of the elements differ, so the first does not take the place of a later one
    have different (e : Sigma fun _ : QName => XsdElement) (member : e ∈ rest) : e.1 ≠ q := by
      rintro rfl
      exact fresh (List.mem_map.mpr ⟨e, member, rfl⟩)
    rw [List.foldlM_cons]
    rcases registerElement_cases all registry q el
        with ⟨mid, step, settled, found⟩ | ⟨step, free, raw, typed, stuck⟩
    · rw [step]
      have same (other : QName) (apart : other ≠ q) : mid.lookup other = registry.lookup other := by
        refine Option.ext fun t => ?_
        rw [found]
        exact ⟨fun known => known.elim id fun ⟨_, here, _⟩ => absurd here apart, .inl⟩
      rcases ih nodup mid with ⟨grown, run, others, later⟩ | ⟨run, e, member, free, raw, typed, stuck⟩
      · refine .inl ⟨grown, run, List.forall_mem_cons.mpr ⟨settled, fun e member free => ?_⟩,
          fun other t => ?_⟩
        · exact others e member (same e.1 (different e member) ▸ free)
        rw [later, List.exists_mem_cons_iff]
        by_cases here : other = q
        · subst here
          have none : ¬ ∃ e ∈ rest, other = e.1 ∧ Inline flat e.2 t := fun ⟨e, member, same, _⟩ =>
            different e member same.symm
          rw [or_iff_left (fun later => none later.2), or_iff_left none, found]
        · have apart : ¬ (other = q ∧ Inline flat el t) := fun first => here first.1
          rw [same other here, or_iff_right apart]
      · exact .inr ⟨run, e, .tail _ member, same e.1 (different e member) ▸ free, raw, typed, stuck⟩
    · rw [step]
      exact .inr ⟨rfl, ⟨q, el⟩, .head _, free, raw, typed, stuck⟩

/-! The whole. -/

theorem dlookup_simple {iter : MapOrder} {q : QName} {t : XsdType} :
    ((iter.order .types flat.types).entries.filter fun e => !e.2.isComplex).dlookup q = some t ↔
      flat.types.lookup q = some t ∧ t.isComplex = false := by
  have nodup := List.NodupKeys.sublist (List.filter_sublist (p := fun e => !e.2.isComplex))
    (iter.order .types flat.types).nodupKeys
  have member := List.mem_dlookup_iff (a := q) (b := t) nodup
  rw [Option.mem_def] at member
  rw [member, List.mem_filter, iter.mem_order]
  simp

/-- Before the elements the registry has the entries of the types. -/
theorem beforeElements_iff {iter : MapOrder} {resolved : Resolved} (exact : Exact flat resolved)
    (known : ∀ q, (flat.complexType q).isSome → (resolved.lookup q).isSome) (q : QName)
    (t : XsdType) :
    ((resolved.lookup q).map XsdType.complex).or
        (((iter.order .types flat.types).entries.filter fun e => !e.2.isComplex).dlookup q) = some t ↔
      (flat.types.lookup q).isSome ∧ Entry flat q t := by
  cases found : resolved.lookup q with
  | some ct =>
    obtain ⟨raw, declared, resolves⟩ := exact q ct found
    have typed := FlatTypeMap.complexType_eq_some.mp declared
    rw [Option.map_some, Option.some_or, Option.some.injEq]
    constructor
    · rintro rfl
      exact ⟨by rw [typed]; rfl, .complex declared resolves⟩
    · rintro ⟨_, entry⟩
      cases entry with
      | complex declared' resolves' =>
        obtain rfl := Option.some.inj (declared.symm.trans declared')
        rw [resolves.unique resolves']
      | simple simple => cases typed.symm.trans simple
      | inline unnamed => cases typed.symm.trans unnamed
  | none =>
    rw [Option.map_none, Option.none_or, dlookup_simple]
    constructor
    · rintro ⟨declared, simple⟩
      cases t with
      | complex ct => cases simple
      | simple st => exact ⟨by rw [declared]; rfl, .simple declared⟩
    · rintro ⟨named, entry⟩
      cases entry with
      | complex declared resolves =>
        -- a complex type that is declared would have been resolved
        have := known q (by rw [declared]; rfl)
        rw [found] at this
        cases this
      | simple declared => exact ⟨declared, rfl⟩
      | inline unnamed =>
        rw [unnamed] at named
        cases named

theorem beforeElements_eq_none {iter : MapOrder} {resolved : Resolved} (exact : Exact flat resolved)
    (known : ∀ q, (flat.complexType q).isSome → (resolved.lookup q).isSome) {q : QName} :
    ((resolved.lookup q).map XsdType.complex).or
        (((iter.order .types flat.types).entries.filter fun e => !e.2.isComplex).dlookup q) = none ↔
      flat.types.lookup q = none := by
  constructor
  · intro free
    cases named : flat.types.lookup q with
    | none => rfl
    | some t =>
      have entry : ∃ t, Entry flat q t := by
        cases t with
        | simple st => exact ⟨_, .simple named⟩
        | complex raw =>
          have declared := FlatTypeMap.complexType_eq_some.mpr named
          obtain ⟨ct, found⟩ := Option.isSome_iff_exists.mp (known q (by rw [declared]; rfl))
          obtain ⟨raw', declared', resolves⟩ := exact q ct found
          exact ⟨_, .complex declared' resolves⟩
      obtain ⟨t', entry⟩ := entry
      rw [(beforeElements_iff exact known q t').mpr ⟨by rw [named]; rfl, entry⟩] at free
      cases free
  · intro unnamed
    by_contra taken
    obtain ⟨t, taken⟩ := Option.ne_none_iff_exists'.mp taken
    have := ((beforeElements_iff exact known q t).mp taken).1
    rw [unnamed] at this
    cases this

/-- Resolving declarations gives their entries, or fails as some type does or, when all of them
resolve, as an inline type does. -/
theorem resolveFlat_cases (iter : MapOrder) (flat : FlatTypeMap) :
    (∃ registry, resolveFlat iter flat = .ok registry ∧ flat.AllResolve ∧ flat.InlineResolve ∧
      ∀ q t, registry.lookup q = some t ↔ Entry flat q t) ∨
    (∃ e q, resolveFlat iter flat = .error e ∧ (flat.complexType q).isSome ∧ Fails flat q e) ∨
    (∃ raw, resolveFlat iter flat = .error .hang ∧ flat.AllResolve ∧ flat.InlineType raw ∧ flat.Stuck raw) := by
  have names (q : QName) : q ∈ ((iter.order .types flat.types).entries.filter fun e => e.2.isComplex).map Sigma.fst ↔
      (flat.complexType q).isSome := mem_complexQnames
  rcases resolveTypes_cases fun q member => (names q).mp member with
    ⟨resolved, types, exact, known⟩ | ⟨e, types, q, member, fails⟩
  · have known (q : QName) (declared : (flat.complexType q).isSome) : (resolved.lookup q).isSome :=
      known q ((names q).mpr declared)
    -- the first loop came to its end, so each declared type was resolved
    have all : flat.AllResolve := by
      intro q raw declared
      obtain ⟨ct, found⟩ := Option.isSome_iff_exists.mp (known q (by rw [declared]; rfl))
      obtain ⟨raw', declared', resolves⟩ := exact q ct found
      exact ⟨ct, Option.some.inj (declared.symm.trans declared') ▸ resolves⟩
    -- what the loop over the elements finds: the types, simple and resolved
    have before := lookup_beforeElements iter flat resolved
    rcases registerElements_cases all (iter.order .elements flat.elements).nodupKeys
      ((iter.order .resolved resolved).entries.foldl (fun registry e => registry.insert e.1 (.complex e.2))
        (((iter.order .types flat.types).entries.filter fun e => !e.2.isComplex).foldl
          (fun registry e => registry.insert e.1 e.2) (∅ : TypeRegistry))) with
      ⟨registry, run, settled, found⟩ | ⟨run, e, member, free, raw, typed, stuck⟩
    · refine .inl ⟨registry, by simp only [resolveFlat, types]; exact run, all, ?_, fun q t => ?_⟩
      · rintro raw ⟨q, el, unnamed, declared, typed⟩
        refine settled ⟨q, el⟩ (iter.mem_order.mpr declared) ?_ raw typed
        rw [before, beforeElements_eq_none exact known]
        exact unnamed
      rw [found, before, beforeElements_iff exact known, beforeElements_eq_none exact known]
      constructor
      · rintro (⟨_, entry⟩ | ⟨unnamed, e, member, rfl, raw, ct, typed, resolves, rfl⟩)
        · exact entry
        · exact .inline unnamed (iter.mem_order.mp member) typed resolves
      · intro entry
        cases entry with
        | complex declared resolves =>
          exact .inl ⟨by rw [FlatTypeMap.complexType_eq_some.mp declared]; rfl,
            .complex declared resolves⟩
        | simple declared => exact .inl ⟨by rw [declared]; rfl, .simple declared⟩
        | inline unnamed declared typed resolves =>
          exact .inr ⟨unnamed, ⟨q, _⟩, iter.mem_order.mpr declared, rfl, _, _, typed, resolves, rfl⟩
    · refine .inr (.inr ⟨raw, by simp only [resolveFlat, types]; exact run, all, ?_, stuck⟩)
      rw [before, beforeElements_eq_none exact known] at free
      exact ⟨e.1, e.2, free, iter.mem_order.mp member, typed⟩
  · refine .inr (.inl ⟨e, q, ?_, (names q).mp member, fails⟩)
    simp only [resolveFlat, types]
    rfl

theorem Entry.unique {q : QName} {t t' : XsdType} (one : Entry flat q t) (two : Entry flat q t') :
    t = t' := by
  cases one with
  | complex declared resolves =>
    cases two with
    | complex declared' resolves' =>
      obtain rfl := Option.some.inj (declared.symm.trans declared')
      rw [resolves.unique resolves']
    | simple simple => cases (FlatTypeMap.complexType_eq_some.mp declared).symm.trans simple
    | inline unnamed => cases (FlatTypeMap.complexType_eq_some.mp declared).symm.trans unnamed
  | simple declared =>
    cases two with
    | complex declared' => cases (FlatTypeMap.complexType_eq_some.mp declared').symm.trans declared
    | simple declared' =>
      cases declared.symm.trans declared'
      rfl
    | inline unnamed => cases declared.symm.trans unnamed
  | inline unnamed declared typed resolves =>
    cases two with
    | complex declared' => cases (FlatTypeMap.complexType_eq_some.mp declared').symm.trans unnamed
    | simple declared' => cases declared'.symm.trans unnamed
    | inline _ declared' typed' resolves' =>
      obtain rfl := Option.some.inj (declared.symm.trans declared')
      cases typed.symm.trans typed'
      rw [resolves.unique resolves']

/-- There is a registry exactly if all definitions resolve; it has their entries, in whatever
order they are visited. -/
theorem exists_registry_iff (iter : MapOrder) :
    (∃ registry, resolveFlat iter flat = .ok registry) ↔ flat.AllResolve ∧ flat.InlineResolve := by
  rcases resolveFlat_cases iter flat with ⟨registry, run, all, inline, _⟩ | ⟨e, q, run, declared, fails⟩ |
    ⟨raw, run, _, inline, stuck⟩
  · exact iff_of_true ⟨registry, run⟩ ⟨all, inline⟩
  · refine iff_of_false (fun ⟨_, ok⟩ => by cases run.symm.trans ok) fun ⟨all, _⟩ => ?_
    obtain ⟨raw, declared⟩ := Option.isSome_iff_exists.mp declared
    obtain ⟨ct, resolves⟩ := all q raw declared
    exact fails.not_resolves declared resolves
  · refine iff_of_false (fun ⟨_, ok⟩ => by cases run.symm.trans ok) fun ⟨_, all⟩ => ?_
    obtain ⟨ct, resolves⟩ := all raw inline
    exact stuck.2 resolves.grounded

theorem resolveFlat_lookup {iter : MapOrder} {registry : TypeRegistry}
    (run : resolveFlat iter flat = .ok registry) (q : QName) (t : XsdType) :
    registry.lookup q = some t ↔ Entry flat q t := by
  rcases resolveFlat_cases iter flat with ⟨registry', run', _, _, found⟩ | ⟨e, q, failed, _⟩ | ⟨raw, failed, _⟩
  · obtain rfl := Except.ok.inj (run.symm.trans run')
    exact found q t
  · cases run.symm.trans failed
  · cases run.symm.trans failed

/-! Entries and definitions. -/

theorem entry_of_resolvesTo {q : QName} {raw ct : ComplexType} (defines : flat.Defines q raw)
    (resolves : ResolvesTo flat raw ct) : Entry flat q (.complex ct) := by
  rcases defines with named | ⟨unnamed, el, declared, typed⟩
  · exact .complex (FlatTypeMap.complexType_eq_some.mpr named) resolves
  · exact .inline unnamed declared typed resolves

theorem Entry.defines {q : QName} {ct : ComplexType} (entry : Entry flat q (.complex ct)) :
    ∃ raw, flat.Defines q raw ∧ ResolvesTo flat raw ct := by
  cases entry with
  | complex declared resolves => exact ⟨_, .inl (FlatTypeMap.complexType_eq_some.mp declared), resolves⟩
  | inline unnamed declared typed resolves => exact ⟨_, .inr ⟨unnamed, _, declared, typed⟩, resolves⟩

/-- The entry of a name is what the definition of the name resolves to. -/
theorem Entry.of_defines {q : QName} {raw : ComplexType} {t : XsdType} (entry : Entry flat q t)
    (defines : flat.Defines q raw) : ∃ ct, t = .complex ct ∧ ResolvesTo flat raw ct := by
  rcases defines with named | ⟨unnamed, el, declared, typed⟩
  · have declared := FlatTypeMap.complexType_eq_some.mpr named
    cases entry with
    | complex declared' resolves => exact ⟨_, rfl, Option.some.inj (declared'.symm.trans declared) ▸ resolves⟩
    | simple simple => cases named.symm.trans simple
    | inline unnamed => cases named.symm.trans unnamed
  · cases entry with
    | complex declared' => cases (FlatTypeMap.complexType_eq_some.mp declared').symm.trans unnamed
    | simple simple => cases simple.symm.trans unnamed
    | inline _ declared' typed' resolves =>
      obtain rfl := Option.some.inj (declared.symm.trans declared')
      cases typed.symm.trans typed'
      exact ⟨_, rfl, resolves⟩

end SoapServer.Xsd
