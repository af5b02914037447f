import SoapServer.Xsd.Contributions

/-! The registry's entries: each is the outcome of resolving one definition. -/

set_option autoImplicit false

namespace SoapServer.Xsd

open Markup (Text)
open Maps Loops

variable {flat : FlatTypeMap}

/-- The outcome of resolving the content of a definition, in whatever state of the memo. -/
def MadeFrom (flat : FlatTypeMap) (raw ct : ComplexType) : Prop :=
  ∃ resolveBase memo memo', resolveContent flat resolveBase raw.content memo = .ok (ct.content, memo')

/-- A memo of types made from their definitions. -/
def Made (flat : FlatTypeMap) (memo : Resolved) : Prop :=
  ∀ q ct, memo.lookup q = some ct → ∃ raw, flat.complexType q = some raw ∧ MadeFrom flat raw ct

theorem made_empty (flat : FlatTypeMap) : Made flat ∅ := fun q ct known => by simp at known

theorem Made.insert {memo : Resolved} (made : Made flat memo) {q : QName} {raw ct : ComplexType}
    (declared : flat.complexType q = some raw) (from_ : MadeFrom flat raw ct) :
    Made flat (memo.insert q ct) := by
  intro other found known
  by_cases here : other = q
  · subst here
    rw [AList.lookup_insert] at known
    exact Option.some.inj known ▸ ⟨raw, declared, from_⟩
  · rw [AList.lookup_insert_ne here] at known
    exact made other found known

/-- A way of resolving names that makes what it returns from its definition. -/
def KeepsMade (flat : FlatTypeMap)
    (resolve : Resolved → QName → Resolution (ComplexType × Resolved)) : Prop :=
  ∀ memo q ct memo', Made flat memo → resolve memo q = .ok (ct, memo') →
    Made flat memo' ∧ ∀ raw, flat.complexType q = some raw → MadeFrom flat raw ct

theorem resolveContent_made {resolveBase : Resolved → QName → Resolution (ComplexType × Resolved)}
    (keeps : KeepsMade flat resolveBase) {content content' : ComplexContent} {memo memo' : Resolved}
    (made : Made flat memo)
    (run : resolveContent flat resolveBase content memo = .ok (content', memo')) :
    Made flat memo' := by
  induction content, memo using resolveContent.induct generalizing content' memo' with
  | case1 base content memo ih =>
    simp only [resolveContent, bind_eq_ok] at run
    obtain ⟨⟨baseCt, mid⟩, baseRun, ⟨child, after⟩, childRun, same⟩ := run
    cases same
    exact ih mid (keeps _ _ _ _ made baseRun).1 childRun
  | case2 base content memo ih => exact ih made run
  | case3 els memo | case4 els memo | case5 els memo =>
    simp only [resolveContent, bind_eq_ok] at run
    obtain ⟨_, _, same⟩ := run
    cases same
    exact made
  | case6 definition memo | case7 memo =>
    cases run
    exact made

theorem resolveComplexTypeWith_made {resolveBase : Resolved → QName → Resolution (ComplexType × Resolved)}
    (keeps : KeepsMade flat resolveBase) {raw ct : ComplexType} {memo memo' : Resolved}
    (made : Made flat memo)
    (run : resolveComplexTypeWith flat resolveBase raw memo = .ok (ct, memo')) :
    Made flat memo' ∧ MadeFrom flat raw ct := by
  simp only [resolveComplexTypeWith, bind_eq_ok] at run
  obtain ⟨⟨content, after⟩, contentRun, attributes, _, same⟩ := run
  cases same
  exact ⟨resolveContent_made keeps made contentRun, resolveBase, memo, _, contentRun⟩

theorem resolveNamedTypeWithin_made (flat : FlatTypeMap) (fuel : Nat) (resolving : List QName) :
    KeepsMade flat (resolveNamedTypeWithin flat fuel resolving) := by
  induction fuel generalizing resolving with
  | zero =>
    intro memo q ct memo' _ run
    cases run
  | succ fuel ih =>
    intro memo q ct memo' made run
    rw [resolveNamedTypeWithin] at run
    cases known : memo.lookup q with
    | some found =>
      simp only [known] at run
      cases run
      obtain ⟨raw, declared, from_⟩ := made q _ known
      exact ⟨made, fun other also => Option.some.inj (declared.symm.trans also) ▸ from_⟩
    | none =>
      simp only [known] at run
      split at run
      next => cases run
      next =>
        split at run
        next absent =>
          cases run
          exact ⟨made, fun raw also => by rw [FlatTypeMap.complexType, absent] at also; cases also⟩
        next st simple =>
          cases run
          exact ⟨made, fun raw also => by rw [FlatTypeMap.complexType, simple] at also; cases also⟩
        next raw declared =>
          rw [bind_eq_ok] at run
          obtain ⟨⟨resolvedCt, mid⟩, typeRun, inserted⟩ := run
          cases inserted
          obtain ⟨midMade, from_⟩ := resolveComplexTypeWith_made (ih (q :: resolving)) made typeRun
          have declared := FlatTypeMap.complexType_eq_some.mpr declared
          exact ⟨midMade.insert declared from_,
            fun other also => Option.some.inj (declared.symm.trans also) ▸ from_⟩

/-! The registry. -/

theorem resolveNext_made {memo memo' : Resolved} {q : QName} (made : Made flat memo)
    (declared : (flat.complexType q).isSome) (run : resolveNext flat memo q = .ok memo') :
    Made flat memo' := by
  unfold resolveNext at run
  split at run
  next => exact Except.ok.inj run ▸ made
  next =>
    rw [bind_eq_ok] at run
    obtain ⟨⟨ct, mid⟩, resolved, same⟩ := run
    obtain ⟨midMade, from_⟩ := resolveNamedTypeWithin_made flat _ _ memo q ct mid made resolved
    obtain ⟨raw, declared⟩ := Option.isSome_iff_exists.mp declared
    exact Except.ok.inj same ▸ midMade.insert declared (from_ raw declared)

theorem resolveComplexType_made {raw ct : ComplexType}
    (run : resolveComplexType flat raw = .ok ct) :
    MadeFrom flat raw ct := by
  simp only [resolveComplexType, bind_eq_ok] at run
  obtain ⟨⟨made, memo⟩, run, same⟩ := run
  exact Except.ok.inj same ▸
    (resolveComplexTypeWith_made (resolveNamedTypeWithin_made flat _ _) (made_empty flat) run).2

/-- The definition behind an entry of an element: its inline type. -/
def InlineEntry (flat : FlatTypeMap) (el : XsdElement) (t : XsdType) : Prop :=
  ∃ raw ct, el.inlineType = some (.complex raw) ∧ MadeFrom flat raw ct ∧ t = .complex ct

theorem registerElement_entry {registry grown : TypeRegistry} {q other : QName} {el : XsdElement}
    {t : XsdType} (run : registerElement flat registry q el = .ok grown)
    (found : grown.lookup other = some t) :
    registry.lookup other = some t ∨ registry.lookup other = none ∧ other = q ∧ InlineEntry flat el t := by
  unfold registerElement at run
  split at run
  next => exact .inl (Except.ok.inj run ▸ found)
  next free =>
    split at run
    next raw inline =>
      split at run
      next ct made =>
        obtain rfl := Except.ok.inj run
        by_cases here : other = q
        · subst here
          rw [AList.lookup_insert] at found
          exact .inr ⟨by simpa using free, rfl, raw, ct, inline, resolveComplexType_made made,
            (Option.some.inj found).symm⟩
        · rw [AList.lookup_insert_ne here] at found
          exact .inl found
      next => exact .inl (Except.ok.inj run ▸ found)
      next => cases run
    next => exact .inl (Except.ok.inj run ▸ found)
    next => exact .inl (Except.ok.inj run ▸ found)

theorem registerElements_entry {entries : List (Sigma fun _ : QName => XsdElement)}
    {registry grown : TypeRegistry} {q : QName} {t : XsdType}
    (run : entries.foldlM (fun registry e => registerElement flat registry e.1 e.2) registry = .ok grown)
    (found : grown.lookup q = some t) :
    registry.lookup q = some t ∨ registry.lookup q = none ∧ ∃ e ∈ entries, q = e.1 ∧ InlineEntry flat e.2 t := by
  induction entries generalizing registry with
  | nil => exact .inl (foldlM_nil_eq_ok.mp run ▸ found)
  | cons e rest ih =>
    obtain ⟨mid, step, run⟩ := foldlM_cons_eq_ok.mp run
    rcases ih run with known | ⟨free, e', member, same⟩
    · rcases registerElement_entry step known with known | ⟨free, same, inline⟩
      · exact .inl known
      · exact .inr ⟨free, e, .head _, same, inline⟩
    · refine .inr ⟨?_, e', .tail _ member, same⟩
      by_contra taken
      obtain ⟨t', taken⟩ := Option.ne_none_iff_exists'.mp taken
      rw [(registerElement_kept step).1 q t' taken] at free
      cases free

/-- The definition of a name: a named type or, where no type has the name, the inline type of
an element. -/
def FlatTypeMap.Defines (flat : FlatTypeMap) (q : QName) (raw : ComplexType) : Prop :=
  flat.types.lookup q = some (.complex raw) ∨
    flat.types.lookup q = none ∧ ∃ el, flat.elements.lookup q = some el ∧ el.inlineType = some (.complex raw)

/-- The registry before the elements: the resolved types over the simple ones. -/
theorem lookup_beforeElements (iter : MapOrder) (flat : FlatTypeMap) (resolved : Resolved)
    (q : QName) :
    ((iter.order .resolved resolved).entries.foldl (fun registry e => registry.insert e.1 (.complex e.2))
      (((iter.order .types flat.types).entries.filter fun e => !e.2.isComplex).foldl
        (fun registry e => registry.insert e.1 e.2) (∅ : TypeRegistry))).lookup q =
      ((resolved.lookup q).map XsdType.complex).or
        (((iter.order .types flat.types).entries.filter fun e => !e.2.isComplex).dlookup q) := by
  have simple := lookup_foldl_insert (id : XsdType → XsdType)
    (List.NodupKeys.sublist (List.filter_sublist (p := fun e => !e.2.isComplex))
      (iter.order .types flat.types).nodupKeys) ∅ q
  simp only [id, Option.map_id, AList.lookup_empty, Option.or_none] at simple
  rw [lookup_foldl_insert XsdType.complex (iter.order .resolved resolved).nodupKeys, simple]
  congr 2
  exact iter.lookup_order .resolved resolved q

/-- The entry of a name is made from the definition of the name. -/
theorem resolveFlat_entry {iter : MapOrder} {registry : TypeRegistry}
    (run : resolveFlat iter flat = .ok registry) {q : QName} {raw : ComplexType}
    (defines : flat.Defines q raw) {t : XsdType} (found : registry.lookup q = some t) :
    ∃ ct, t = .complex ct ∧ MadeFrom flat raw ct := by
  simp only [resolveFlat, bind_eq_ok] at run
  obtain ⟨resolved, types, elements⟩ := run
  -- each entry of the memo is made from the type of its name
  have made : Made flat resolved := foldlM_invariant (Made flat)
    (fun r member memo memo' made step => resolveNext_made made (mem_complexQnames.mp member) step) (made_empty flat) types
  have before := lookup_beforeElements iter flat resolved q
  rcases defines with named | ⟨unnamed, el, declared, inline⟩
  · have named := FlatTypeMap.complexType_eq_some.mpr named
    obtain ⟨ct, known⟩ := Option.isSome_iff_exists.mp
      ((resolveNext_run (fun q member => mem_complexQnames.mp member) types).2 q (mem_complexQnames.mpr (by rw [named]; rfl)))
    obtain ⟨raw', also, from_⟩ := made q ct known
    obtain rfl := Option.some.inj (named.symm.trans also)
    rw [known, Option.map_some, Option.some_or] at before
    exact ⟨ct, Option.some.inj (found.symm.trans ((registerElements_kept elements).1 q _ before)),
      from_⟩
  · -- a name without a type gets its entry from the element
    have unresolved : resolved.lookup q = none := by
      by_contra known
      obtain ⟨ct, known⟩ := Option.ne_none_iff_exists'.mp known
      obtain ⟨raw', also, _⟩ := made q ct known
      rw [FlatTypeMap.complexType, unnamed] at also
      cases also
    have notSimple : ((iter.order .types flat.types).entries.filter fun e => !e.2.isComplex).dlookup q = none := by
      by_contra known
      obtain ⟨t', known⟩ := Option.ne_none_iff_exists'.mp known
      have member := List.mem_filter.mp (List.of_mem_dlookup known)
      rw [iter.mem_order.mp member.1] at unnamed
      cases unnamed
    rw [unresolved, notSimple] at before
    rcases registerElements_entry elements found
        with known | ⟨_, e, member, rfl, raw', ct, inline', from_, same⟩
    · cases before.symm.trans known
    · obtain rfl := Option.some.inj (declared.symm.trans (iter.mem_order.mp member))
      rw [inline] at inline'
      cases inline'
      exact ⟨ct, same, from_⟩

end SoapServer.Xsd
