import SoapServer.Xsd.Resolver

/-! The elements a named type has over a set of declarations, as the extension chain gives
them: what every ancestor contributes, ancestors first.

The relation is stated without the resolver's memo and fuel; the resolver is shown to
compute it.
-/

set_option autoImplicit false

namespace SoapServer.Xsd

open Maps Loops

/-! Declarations. -/

/-- The bases a content extends, each before what extends it. -/
def ComplexContent.bases : ComplexContent → List QName
  | .complexExtension base content => base :: content.bases
  | .complexRestriction _ content => content.bases
  | .sequence _ | .all _ | .choice _ | .empty | .simpleContent _ => []

/-- The particles a content declares itself. -/
def ComplexContent.particles : ComplexContent → List XsdElement
  | .complexExtension _ content | .complexRestriction _ content => content.particles
  | .sequence els | .all els | .choice els => els
  | .empty | .simpleContent _ => []

def FlatTypeMap.complexType (flat : FlatTypeMap) (q : QName) : Option ComplexType :=
  match flat.types.lookup q with
  | some (.complex raw) => some raw
  | some (.simple _) | none => none

/-- What a referenced name stands for: a group before an element. -/
def FlatTypeMap.referent (flat : FlatTypeMap) (q : QName) : Option (Group ⊕ XsdElement) :=
  ((flat.groups.lookup q).map .inl).or ((flat.elements.lookup q).map .inr)

/-- The name an element refers to; a wildcard refers to nothing. -/
def XsdElement.reference (el : XsdElement) : Option QName :=
  if el.name = some anyName then none else el.refAttr

/-- Particles with their references replaced by what they stand for. -/
inductive Expands (flat : FlatTypeMap) : List XsdElement → List XsdElement → Prop
  | nil : Expands flat [] []
  | own {el : XsdElement} {rest out : List XsdElement} (plain : el.reference = none)
      (after : Expands flat rest out) : Expands flat (el :: rest) (el :: out)
  | group {el : XsdElement} {q : QName} {group : Group} {rest inner out : List XsdElement}
      (refers : el.reference = some q) (found : flat.referent q = some (.inl group))
      (inside : Expands flat group.content.elements inner) (after : Expands flat rest out) :
      Expands flat (el :: rest) (inner ++ out)
  | element {el declared : XsdElement} {q : QName} {rest out : List XsdElement}
      (refers : el.reference = some q) (found : flat.referent q = some (.inr declared))
      (after : Expands flat rest out) : Expands flat (el :: rest) (declared :: out)
  | missing {el : XsdElement} {q : QName} {rest out : List XsdElement}
      (refers : el.reference = some q) (absent : flat.referent q = none)
      (after : Expands flat rest out) : Expands flat (el :: rest) out

/-- The elements that named types contribute, one after the other; a name without a complex
type contributes none. -/
inductive Contributes (flat : FlatTypeMap) : List QName → List XsdElement → Prop
  | nil : Contributes flat [] []
  | undeclared {q : QName} {rest : List QName} {out : List XsdElement} (absent : flat.complexType q = none)
      (after : Contributes flat rest out) : Contributes flat (q :: rest) out
  | declared {q : QName} {raw : ComplexType} {rest : List QName} {ancestors own out : List XsdElement}
      (found : flat.complexType q = some raw) (above : Contributes flat raw.content.bases ancestors)
      (particles : Expands flat raw.content.particles own) (after : Contributes flat rest out) :
      Contributes flat (q :: rest) (ancestors ++ own ++ out)

variable {flat : FlatTypeMap}

theorem Expands.unique {els first second : List XsdElement} (one : Expands flat els first)
    (two : Expands flat els second) : first = second := by
  induction one generalizing second with
  | nil => cases two; rfl
  | own plain after ih =>
    cases two with
    | own _ after' => rw [ih after']
    | group refers | element refers | missing refers => rw [plain] at refers; cases refers
  | group refers found inside after insideIH afterIH =>
    cases two with
    | own plain => rw [refers] at plain; cases plain
    | group refers' found' inside' after' =>
      obtain rfl := Option.some.inj (refers.symm.trans refers')
      cases found.symm.trans found'
      rw [insideIH inside', afterIH after']
    | element refers' found' | missing refers' found' =>
      obtain rfl := Option.some.inj (refers.symm.trans refers')
      cases found.symm.trans found'
  | element refers found after ih =>
    cases two with
    | own plain => rw [refers] at plain; cases plain
    | element refers' found' after' =>
      obtain rfl := Option.some.inj (refers.symm.trans refers')
      cases found.symm.trans found'
      rw [ih after']
    | group refers' found' | missing refers' found' =>
      obtain rfl := Option.some.inj (refers.symm.trans refers')
      cases found.symm.trans found'
  | missing refers absent after ih =>
    cases two with
    | own plain => rw [refers] at plain; cases plain
    | missing _ _ after' => exact ih after'
    | group refers' found' | element refers' found' =>
      obtain rfl := Option.some.inj (refers.symm.trans refers')
      cases absent.symm.trans found'

theorem Contributes.unique {qs : List QName} {first second : List XsdElement}
    (one : Contributes flat qs first) (two : Contributes flat qs second) : first = second := by
  induction one generalizing second with
  | nil => cases two; rfl
  | undeclared absent after ih =>
    cases two with
    | undeclared _ after' => exact ih after'
    | declared found' => cases absent.symm.trans found'
  | declared found above particles after aboveIH afterIH =>
    cases two with
    | undeclared absent' => cases found.symm.trans absent'
    | declared found' above' particles' after' =>
      obtain rfl := Option.some.inj (found.symm.trans found')
      rw [aboveIH above', particles.unique particles', afterIH after']

theorem Expands.append {els more first second : List XsdElement} (one : Expands flat els first)
    (two : Expands flat more second) : Expands flat (els ++ more) (first ++ second) := by
  induction one with
  | nil => exact two
  | own plain after ih => exact .own plain ih
  | group refers found inside after _ ih =>
    rw [List.append_assoc]
    exact .group refers found inside ih
  | element refers found after ih => exact .element refers found ih
  | missing refers absent after ih => exact .missing refers absent ih

/-- Particles are expanded one after the other. -/
theorem expands_append_iff {els more out : List XsdElement} :
    Expands flat (els ++ more) out ↔ ∃ first second, Expands flat els first ∧ Expands flat more second ∧
      out = first ++ second := by
  constructor
  · intro expands
    induction els generalizing out with
    | nil => exact ⟨[], out, .nil, expands, rfl⟩
    | cons el rest ih =>
      cases expands with
      | own plain after =>
        obtain ⟨first, second, one, two, rfl⟩ := ih after
        exact ⟨_, second, .own plain one, two, rfl⟩
      | group refers found inside after =>
        obtain ⟨first, second, one, two, rfl⟩ := ih after
        exact ⟨_, second, .group refers found inside one, two, (List.append_assoc _ _ _).symm⟩
      | element refers found after =>
        obtain ⟨first, second, one, two, rfl⟩ := ih after
        exact ⟨_, second, .element refers found one, two, rfl⟩
      | missing refers absent after =>
        obtain ⟨first, second, one, two, rfl⟩ := ih after
        exact ⟨first, second, .missing refers absent one, two, rfl⟩
  · rintro ⟨first, second, one, two, rfl⟩
    exact one.append two

theorem Contributes.append {qs more : List QName} {first second : List XsdElement}
    (one : Contributes flat qs first) (two : Contributes flat more second) :
    Contributes flat (qs ++ more) (first ++ second) := by
  induction one with
  | nil => exact two
  | undeclared absent after ih => exact .undeclared absent ih
  | declared found above particles after _ ih =>
    rw [List.append_assoc]
    exact .declared found above particles ih

/-! The resolver computes them. -/

/-- One reference, as a list of one particle. -/
theorem resolveElement_expands {inline : List XsdElement → Resolution (List XsdElement)}
    (inlined : ∀ els out, inline els = .ok out → Expands flat els out) {el : XsdElement}
    {out : List XsdElement} (run : resolveElement flat inline el = .ok out) :
    Expands flat [el] out := by
  unfold resolveElement at run
  -- a wildcard is no reference, whatever its attribute says
  by_cases wildcard : el.name = some anyName
  · rw [if_pos wildcard] at run
    obtain rfl := Except.ok.inj run
    exact .own (if_pos wildcard) .nil
  · rw [if_neg wildcard] at run
    have reference : el.reference = el.refAttr := if_neg wildcard
    cases refers : el.refAttr with
    | none =>
      simp only [refers] at run
      obtain rfl := Except.ok.inj run
      exact .own (reference.trans refers) .nil
    | some q =>
      simp only [refers] at run
      -- a group of the name comes before an element of the name
      cases grouped : flat.groups.lookup q with
      | some group =>
        simp only [grouped] at run
        have found : flat.referent q = some (.inl group) :=
          by rw [FlatTypeMap.referent, grouped]; rfl
        simpa using Expands.group (reference.trans refers) found (inlined _ _ run) .nil
      | none =>
        simp only [grouped] at run
        cases declared : flat.elements.lookup q with
        | some globalEl =>
          simp only [declared] at run
          obtain rfl := Except.ok.inj run
          have found : flat.referent q = some (.inr globalEl) := by
            rw [FlatTypeMap.referent, grouped, declared]; rfl
          exact .element (reference.trans refers) found .nil
        | none =>
          simp only [declared] at run
          obtain rfl := Except.ok.inj run
          have absent : flat.referent q = none :=
            by rw [FlatTypeMap.referent, grouped, declared]; rfl
          exact .missing (reference.trans refers) absent .nil

theorem resolveElements_expands {fuel : Nat} {els out : List XsdElement}
    (run : resolveElements flat fuel els = .ok out) : Expands flat els out := by
  induction fuel generalizing els out with
  | zero => cases run
  | succ fuel fuelIH =>
    rw [resolveElements] at run
    induction els generalizing out with
    | nil =>
      obtain rfl := Except.ok.inj run
      exact .nil
    | cons el rest ih =>
      obtain ⟨first, others, given, rest, rfl⟩ := appendAll_cons_eq_ok.mp run
      exact (resolveElement_expands (fun _ _ => fuelIH) given).append (ih rest)

/-- A memo of types that declarations justify. -/
def Justified (flat : FlatTypeMap) (memo : Resolved) : Prop :=
  ∀ q ct, memo.lookup q = some ct →
    (flat.complexType q).isSome ∧ Contributes flat [q] (extractElements ct.content)

theorem justified_empty (flat : FlatTypeMap) :
    Justified flat ∅ := fun q ct known => by simp at known

theorem Justified.insert {memo : Resolved} (justified : Justified flat memo) {q : QName}
    {ct : ComplexType} (declared : (flat.complexType q).isSome)
    (contributes : Contributes flat [q] (extractElements ct.content)) :
    Justified flat (memo.insert q ct) := by
  intro other found known
  by_cases here : other = q
  · subst here
    rw [AList.lookup_insert] at known
    exact Option.some.inj known ▸ ⟨declared, contributes⟩
  · rw [AList.lookup_insert_ne here] at known
    exact justified other found known

/-- A memo that keeps every name of another. -/
def Grows (memo memo' : Resolved) : Prop := ∀ q, (memo.lookup q).isSome → (memo'.lookup q).isSome

theorem Grows.refl (memo : Resolved) : Grows memo memo := fun _ known => known

theorem Grows.trans {first second third : Resolved} (one : Grows first second)
    (two : Grows second third) :
    Grows first third := fun q known => two q (one q known)

theorem grows_insert (memo : Resolved) (q : QName) (ct : ComplexType) :
    Grows memo (memo.insert q ct) := by
  intro other known
  by_cases here : other = q
  · rw [here, AList.lookup_insert]
    rfl
  · rwa [AList.lookup_insert_ne here]

/-- A way of resolving bases that keeps memos justified and computes contributions. -/
def Sound (flat : FlatTypeMap)
    (resolve : Resolved → QName → Resolution (ComplexType × Resolved)) : Prop :=
  ∀ memo q ct memo', Justified flat memo → resolve memo q = .ok (ct, memo') →
    Justified flat memo' ∧ Grows memo memo' ∧ Contributes flat [q] (extractElements ct.content)

theorem resolveContent_contributes {resolveBase : Resolved → QName → Resolution (ComplexType × Resolved)}
    (sound : Sound flat resolveBase) {content content' : ComplexContent} {memo memo' : Resolved}
    (justified : Justified flat memo)
    (run : resolveContent flat resolveBase content memo = .ok (content', memo')) :
    Justified flat memo' ∧ Grows memo memo' ∧ ∃ ancestors own, Contributes flat content.bases ancestors ∧
      Expands flat content.particles own ∧ extractElements content' = ancestors ++ own := by
  induction content, memo using resolveContent.induct generalizing content' memo' with
  | case1 base content memo ih =>
    simp only [resolveContent, bind_eq_ok] at run
    obtain ⟨⟨baseCt, mid⟩, baseRun, ⟨child, after⟩, childRun, same⟩ := run
    cases same
    -- first the base, whose elements come first, and then the extension
    obtain ⟨midJustified, grows, fromBase⟩ := sound _ _ _ _ justified baseRun
    obtain ⟨afterJustified, grown, ancestors, own, above, particles, split⟩ :=
      ih mid midJustified childRun
    refine ⟨afterJustified, grows.trans grown, extractElements baseCt.content ++ ancestors, own,
      fromBase.append above, particles, ?_⟩
    rw [List.append_assoc, ← split]
    rfl
  | case2 base content memo ih => exact ih justified run
  | case3 els memo | case4 els memo | case5 els memo =>
    simp only [resolveContent, bind_eq_ok] at run
    obtain ⟨out, resolved, same⟩ := run
    cases same
    exact ⟨justified, .refl _, [], out, .nil, resolveElements_expands resolved, rfl⟩
  | case6 definition memo | case7 memo =>
    cases run
    exact ⟨justified, .refl _, [], [], .nil, .nil, rfl⟩

theorem resolveNamedTypeWithin_sound (flat : FlatTypeMap) (fuel : Nat) (resolving : List QName) :
    Sound flat (resolveNamedTypeWithin flat fuel resolving) := by
  -- on the depth: what is above is resolved one level deeper, with this name on the path
  induction fuel generalizing resolving with
  | zero =>
    intro memo q ct memo' _ run
    cases run
  | succ fuel ih =>
    intro memo q ct memo' justified run
    rw [resolveNamedTypeWithin] at run
    cases known : memo.lookup q with
    | some found =>
      simp only [known] at run
      cases run
      exact ⟨justified, .refl _, (justified q _ known).2⟩
    | none =>
      simp only [known] at run
      split at run
      next => cases run
      next =>
        cases declared : flat.types.lookup q with
        | none =>
          simp only [declared] at run
          cases run
          exact ⟨justified, .refl _, .undeclared (by rw [FlatTypeMap.complexType, declared]) .nil⟩
        | some t =>
          cases t with
          | simple st =>
            simp only [declared] at run
            cases run
            exact ⟨justified, .refl _, .undeclared (by rw [FlatTypeMap.complexType, declared]) .nil⟩
          | complex raw =>
            simp only [declared, resolveComplexTypeWith, bind_eq_ok] at run
            obtain ⟨⟨resolvedCt, mid⟩, ⟨⟨content, after⟩, contentRun, attributes, _, same⟩, inserted⟩ := run
            cases same
            cases inserted
            have found : flat.complexType q = some raw := by rw [FlatTypeMap.complexType, declared]
            obtain ⟨midJustified, grows, ancestors, own, above, particles, split⟩ :=
              resolveContent_contributes (ih (q :: resolving)) justified contentRun
            have contributes : Contributes flat [q] (extractElements content) := by
              rw [split]
              simpa using Contributes.declared found above particles .nil
            -- the type itself enters the memo with what it contributes
            exact ⟨midJustified.insert (by rw [found]; rfl) contributes,
              grows.trans (grows_insert _ _ _), contributes⟩

/-! The registry. -/

theorem resolveNext_justified {memo memo' : Resolved} {q : QName} (justified : Justified flat memo)
    (declared : (flat.complexType q).isSome) (run : resolveNext flat memo q = .ok memo') :
    Justified flat memo' ∧ Grows memo memo' ∧ (memo'.lookup q).isSome := by
  unfold resolveNext at run
  by_cases known : (memo.lookup q).isSome
  · rw [if_pos known] at run
    obtain rfl := Except.ok.inj run
    exact ⟨justified, .refl _, known⟩
  · rw [if_neg known, bind_eq_ok] at run
    obtain ⟨⟨ct, mid⟩, resolved, same⟩ := run
    obtain rfl := Except.ok.inj same
    obtain ⟨midJustified, grows, contributes⟩ :=
      resolveNamedTypeWithin_sound flat _ _ memo q ct mid justified resolved
    exact ⟨midJustified.insert declared contributes, grows.trans (grows_insert _ _ _),
      by rw [AList.lookup_insert]; rfl⟩

theorem resolveNext_run {qs : List QName} {memo : Resolved}
    (declared : ∀ q ∈ qs, (flat.complexType q).isSome)
    (run : qs.foldlM (resolveNext flat) ∅ = .ok memo) :
    Justified flat memo ∧ ∀ q ∈ qs, (memo.lookup q).isSome := by
  suffices ∀ start, Justified flat start → qs.foldlM (resolveNext flat) start = .ok memo →
      Justified flat memo ∧ Grows start memo ∧ ∀ q ∈ qs, (memo.lookup q).isSome from
    ⟨(this ∅ (justified_empty flat) run).1, (this ∅ (justified_empty flat) run).2.2⟩
  clear run
  induction qs with
  | nil =>
    intro start justified run
    obtain rfl := foldlM_nil_eq_ok.mp run
    exact ⟨justified, .refl _, fun _ member => by cases member⟩
  | cons q rest ih =>
    intro start justified run
    obtain ⟨mid, step, run⟩ := foldlM_cons_eq_ok.mp run
    obtain ⟨midJustified, grows, here⟩ :=
      resolveNext_justified justified (declared q (.head _)) step
    obtain ⟨done, grown, later⟩ := ih (fun r member => declared r (.tail _ member)) mid midJustified run
    refine ⟨done, grows.trans grown, fun r member => ?_⟩
    rcases List.mem_cons.mp member with rfl | member
    · exact grown r here
    · exact later r member

/-- Where the registry of a flat map has its entries from: a complex type contributes what
its declaration does, and every other name belongs to a simple type or to an element. -/
structure Registered (flat : FlatTypeMap) (registry : TypeRegistry) : Prop where
  complex : ∀ q, (flat.complexType q).isSome →
    ∃ ct, registry.lookup q = some (.complex ct) ∧ Contributes flat [q] (extractElements ct.content)
  other : ∀ q, (registry.lookup q).isSome → (flat.types.lookup q).isSome ∨
    ∃ el raw, flat.elements.lookup q = some el ∧ el.inlineType = some (.complex raw)

theorem FlatTypeMap.complexType_eq_some {q : QName} {raw : ComplexType} :
    flat.complexType q = some raw ↔ flat.types.lookup q = some (.complex raw) := by
  unfold complexType
  split
  next known => simp [known]
  next known => simp [known]
  next known => simp [known]

/-- The names that the registry resolves are those of the complex types. -/
theorem mem_complexQnames {iter : MapOrder} {q : QName} :
    q ∈ ((iter.order .types flat.types).entries.filter fun e => e.2.isComplex).map Sigma.fst ↔
      (flat.complexType q).isSome := by
  simp only [List.mem_map, List.mem_filter, Sigma.exists, iter.mem_order, Option.isSome_iff_exists,
    FlatTypeMap.complexType_eq_some]
  constructor
  · rintro ⟨_, t, ⟨known, complex⟩, rfl⟩
    cases t with
    | simple st => cases complex
    | complex raw => exact ⟨raw, known⟩
  · rintro ⟨raw, known⟩
    exact ⟨q, .complex raw, ⟨known, rfl⟩, rfl⟩

/-- What an element adds to the registry: nothing that was there changes, and a new entry
stands under the element's name. -/
theorem registerElement_kept {registry grown : TypeRegistry} {q : QName} {el : XsdElement}
    (run : registerElement flat registry q el = .ok grown) :
    (∀ other t, registry.lookup other = some t → grown.lookup other = some t) ∧
      ∀ other, (grown.lookup other).isSome → (registry.lookup other).isSome ∨
        other = q ∧ ∃ raw, el.inlineType = some (.complex raw) := by
  have unchanged {registry grown : TypeRegistry} (run : (.ok registry : Resolution TypeRegistry) = .ok grown)
      {P : QName → Prop} : (∀ other t, registry.lookup other = some t → grown.lookup other = some t) ∧
        ∀ other, (grown.lookup other).isSome → (registry.lookup other).isSome ∨ P other := by
    obtain rfl := Except.ok.inj run
    exact ⟨fun _ _ known => known, fun _ known => .inl known⟩
  unfold registerElement at run
  by_cases taken : (registry.lookup q).isSome
  · rw [if_pos taken] at run
    exact unchanged run
  · rw [if_neg taken] at run
    split at run
    next raw inline =>
      split at run
      next ct _ =>
        obtain rfl := Except.ok.inj run
        constructor
        · intro other t known
          have different : other ≠ q := by
            rintro rfl
            exact taken (by rw [known]; rfl)
          rwa [AList.lookup_insert_ne different]
        · intro other known
          by_cases here : other = q
          · exact .inr ⟨here, raw, inline⟩
          · rw [AList.lookup_insert_ne here] at known
            exact .inl known
      next => exact unchanged run
      next => cases run
    next => exact unchanged run
    next => exact unchanged run

theorem registerElements_kept {entries : List (Sigma fun _ : QName => XsdElement)}
    {registry grown : TypeRegistry}
    (run : entries.foldlM (fun registry e => registerElement flat registry e.1 e.2) registry = .ok grown) :
    (∀ other t, registry.lookup other = some t → grown.lookup other = some t) ∧
      ∀ other, (grown.lookup other).isSome → (registry.lookup other).isSome ∨
        ∃ e ∈ entries, other = e.1 ∧ ∃ raw, e.2.inlineType = some (.complex raw) := by
  induction entries generalizing registry with
  | nil =>
    obtain rfl := foldlM_nil_eq_ok.mp run
    exact ⟨fun _ _ known => known, fun _ known => .inl known⟩
  | cons e rest ih =>
    obtain ⟨mid, step, run⟩ := foldlM_cons_eq_ok.mp run
    obtain ⟨kept, fresh⟩ := registerElement_kept step
    obtain ⟨laterKept, laterFresh⟩ := ih run
    refine ⟨fun other t known => laterKept other t (kept other t known), fun other known => ?_⟩
    rcases laterFresh other known with before | ⟨e', member, same⟩
    · rcases fresh other before with before | same
      · exact .inl before
      · exact .inr ⟨e, .head _, same⟩
    · exact .inr ⟨e', .tail _ member, same⟩

theorem resolveFlat_registered {iter : MapOrder} {registry : TypeRegistry}
    (run : resolveFlat iter flat = .ok registry) : Registered flat registry := by
  simp only [resolveFlat, bind_eq_ok] at run
  obtain ⟨resolved, types, elements⟩ := run
  obtain ⟨justified, all⟩ := resolveNext_run (fun q member => mem_complexQnames.mp member) types
  obtain ⟨kept, fresh⟩ := registerElements_kept elements
  -- before the elements, the resolved types stand over the simple ones
  have before (q : QName) := lookup_foldl_insert XsdType.complex (iter.order .resolved resolved).nodupKeys
    (((iter.order .types flat.types).entries.filter fun e => !e.2.isComplex).foldl
      (fun registry e => registry.insert e.1 e.2) ∅) q
  have found (q : QName) : (iter.order .resolved resolved).entries.dlookup q = resolved.lookup q :=
    iter.lookup_order .resolved resolved q
  constructor
  · intro q declared
    obtain ⟨ct, known⟩ := Option.isSome_iff_exists.mp (all q (mem_complexQnames.mpr declared))
    refine ⟨ct, kept q _ ?_, (justified q ct known).2⟩
    rw [before, found, known]
    rfl
  · intro q known
    rcases fresh q known with known | ⟨e, member, rfl, raw, inline⟩
    · left
      rw [before, found, Option.isSome_or] at known
      rcases Bool.or_eq_true_iff.mp known with known | known
      · obtain ⟨ct, known⟩ := Option.isSome_iff_exists.mp (by simpa using known)
        obtain ⟨raw, declared⟩ := Option.isSome_iff_exists.mp (justified q ct known).1
        rw [FlatTypeMap.complexType_eq_some.mp declared]
        rfl
      · have simple := lookup_foldl_insert (id : XsdType → XsdType)
          (List.NodupKeys.sublist (List.filter_sublist (p := fun e => !e.2.isComplex))
            (iter.order .types flat.types).nodupKeys) ∅ q
        simp only [id] at simple
        rw [simple] at known
        obtain ⟨t, known⟩ := Option.isSome_iff_exists.mp known
        simp only [Option.map_id, id_eq, AList.lookup_empty, Option.or_none] at known
        have member := List.mem_filter.mp (List.of_mem_dlookup known)
        rw [iter.mem_order.mp member.1]
        rfl
    · exact .inr ⟨e.2, raw, iter.mem_order.mp member, inline⟩

/-- Every type of a flat map has an entry. -/
theorem resolveFlat_declared {iter : MapOrder} {registry : TypeRegistry}
    (run : resolveFlat iter flat = .ok registry) {q : QName}
    (declared : (flat.types.lookup q).isSome) :
    (registry.lookup q).isSome := by
  obtain ⟨t, known⟩ := Option.isSome_iff_exists.mp declared
  cases t with
  -- a complex type enters with what it resolves to
  | complex raw =>
    obtain ⟨ct, found, _⟩ := (resolveFlat_registered run).complex q
      (by rw [FlatTypeMap.complexType_eq_some.mpr known]; rfl)
    rw [found]
    rfl
  -- a simple type enters first, and what comes later may only replace it
  | simple st =>
    simp only [resolveFlat, bind_eq_ok] at run
    obtain ⟨resolved, _, elements⟩ := run
    have simple : (⟨q, .simple st⟩ : Sigma fun _ : QName => XsdType) ∈
        (iter.order .types flat.types).entries.filter fun e => !e.2.isComplex :=
      List.mem_filter.mpr ⟨iter.mem_order.mpr known, rfl⟩
    have before := lookup_foldl_insert (id : XsdType → XsdType)
      (List.NodupKeys.sublist (List.filter_sublist (p := fun e => !e.2.isComplex))
        (iter.order .types flat.types).nodupKeys) ∅ q
    rw [List.mem_dlookup (List.NodupKeys.sublist List.filter_sublist
      (iter.order .types flat.types).nodupKeys) simple] at before
    simp only [id] at before
    obtain ⟨kept, _⟩ := registerElements_kept elements
    obtain ⟨t, found⟩ : ∃ t, ((iter.order .resolved resolved).entries.foldl
        (fun registry e => registry.insert e.1 (.complex e.2))
        (((iter.order .types flat.types).entries.filter fun e => !e.2.isComplex).foldl
          (fun registry e => registry.insert e.1 e.2) (∅ : TypeRegistry))).lookup q = some t := by
      rw [lookup_foldl_insert XsdType.complex (iter.order .resolved resolved).nodupKeys, before]
      cases (iter.order .resolved resolved).entries.dlookup q <;> exact ⟨_, rfl⟩
    rw [kept q t found]
    rfl

end SoapServer.Xsd
