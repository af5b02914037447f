import SoapServer.Xsd.References

/-! What a content model resolves to, stated without the memo, the fuel and the order of the
resolver; and how the resolver ends: with that, with an error where extension goes round, or
never where references do.
-/

set_option autoImplicit false

namespace SoapServer.Xsd

open Markup (Text)
open Maps Loops Descent

/-- The bases of a type that are complex types themselves. -/
def FlatTypeMap.above (flat : FlatTypeMap) (q : QName) : List QName :=
  match flat.complexType q with
  | some raw => raw.content.bases.filter fun base => (flat.complexType base).isSome
  | none => []

/-- What a content model resolves to: an extension to what its base has, followed by what it
adds, and a restriction to its own content. -/
inductive Resolves (flat : FlatTypeMap) : ComplexContent → ComplexContent → Prop
  | sequence {els out : List XsdElement} (resolved : resolveElementList flat els = .ok out) :
      Resolves flat (.sequence els) (.sequence out)
  | all {els out : List XsdElement} (resolved : resolveElementList flat els = .ok out) :
      Resolves flat (.all els) (.all out)
  | choice {els out : List XsdElement} (resolved : resolveElementList flat els = .ok out) :
      Resolves flat (.choice els) (.choice out)
  | simpleContent (definition : SimpleContentDef) :
      Resolves flat (.simpleContent definition) (.simpleContent definition)
  | empty : Resolves flat .empty .empty
  | restriction {base : QName} {content out : ComplexContent} (inner : Resolves flat content out) :
      Resolves flat (.complexRestriction base content) out
  | extension {base : QName} {raw : ComplexType} {content above own : ComplexContent}
      (declared : flat.complexType base = some raw) (ancestor : Resolves flat raw.content above)
      (attributes : ∃ attributes, resolveAttributes flat raw.attributes = .ok attributes)
      (inner : Resolves flat content own) :
      Resolves flat (.complexExtension base content) (.sequence (extractElements above ++ extractElements own))
  | opaqueExtension {base : QName} {content own : ComplexContent} (absent : flat.complexType base = none)
      (inner : Resolves flat content own) :
      Resolves flat (.complexExtension base content) (.sequence (extractElements own))

/-- What a definition resolves to. -/
structure ResolvesTo (flat : FlatTypeMap) (raw ct : ComplexType) : Prop where
  name : ct.name = raw.name
  content : Resolves flat raw.content ct.content
  attributes : resolveAttributes flat raw.attributes = .ok ct.attributes

variable {flat : FlatTypeMap}

theorem Resolves.unique {content first second : ComplexContent} (one : Resolves flat content first)
    (two : Resolves flat content second) : first = second := by
  induction one generalizing second with
  | sequence resolved =>
    cases two with
    | sequence resolved' => rw [Except.ok.inj (resolved.symm.trans resolved')]
  | all resolved =>
    cases two with
    | all resolved' => rw [Except.ok.inj (resolved.symm.trans resolved')]
  | choice resolved =>
    cases two with
    | choice resolved' => rw [Except.ok.inj (resolved.symm.trans resolved')]
  | simpleContent | empty => cases two; rfl
  | restriction _ ih =>
    cases two with
    | restriction inner => exact ih inner
  | extension declared _ _ _ aboveIH innerIH =>
    cases two with
    | extension declared' ancestor _ inner =>
      obtain rfl := Option.some.inj (declared.symm.trans declared')
      rw [aboveIH ancestor, innerIH inner]
    | opaqueExtension absent => cases declared.symm.trans absent
  | opaqueExtension absent _ ih =>
    cases two with
    | extension declared => cases declared.symm.trans absent
    | opaqueExtension _ inner => rw [ih inner]

theorem ResolvesTo.unique {raw first second : ComplexType} (one : ResolvesTo flat raw first)
    (two : ResolvesTo flat raw second) : first = second := by
  obtain ⟨name, content, attributes⟩ := first
  obtain ⟨name', content', attributes'⟩ := second
  have := one.content.unique two.content
  have := Except.ok.inj (one.attributes.symm.trans two.attributes)
  have := one.name.trans two.name.symm
  simp_all

/-- The elements of what a content resolves to: those of its bases, then its own. -/
theorem Resolves.contributes {content out : ComplexContent} (resolves : Resolves flat content out) :
    ∃ ancestors own, Contributes flat content.bases ancestors ∧ Expands flat content.particles own ∧
      extractElements out = ancestors ++ own := by
  induction resolves with
  | sequence resolved | all resolved | choice resolved =>
    exact ⟨[], _, .nil, resolveElements_expands resolved, rfl⟩
  | simpleContent | empty => exact ⟨[], [], .nil, .nil, rfl⟩
  | restriction _ ih => exact ih
  | @extension base raw content above own declared _ _ _ aboveIH innerIH =>
    obtain ⟨ancestors, particles, higher, expands, split⟩ := aboveIH
    obtain ⟨ancestors', particles', higher', expands', split'⟩ := innerIH
    have here : Contributes flat [base] (extractElements above) := by
      rw [split]
      simpa using Contributes.declared declared higher expands .nil
    refine ⟨extractElements above ++ ancestors', particles', here.append higher', expands', ?_⟩
    rw [List.append_assoc, ← split']
    rfl
  | opaqueExtension absent _ ih =>
    obtain ⟨ancestors, particles, higher, expands, split⟩ := ih
    exact ⟨ancestors, particles, .undeclared absent higher, expands, split⟩

/-- Every base of a content that resolves does so itself. -/
theorem Resolves.base {content out : ComplexContent} (resolves : Resolves flat content out)
    {base : QName} (member : base ∈ content.bases) {raw : ComplexType}
    (declared : flat.complexType base = some raw) :
    ∃ ct, ResolvesTo flat raw ct := by
  induction resolves with
  | sequence | all | choice | simpleContent | empty => cases member
  | restriction _ ih => exact ih member
  | @extension _ raw' _ above _ declared' ancestor attributes _ _ innerIH =>
    rcases List.mem_cons.mp member with rfl | member
    · obtain rfl := Option.some.inj (declared'.symm.trans declared)
      obtain ⟨attributes, resolved⟩ := attributes
      exact ⟨⟨raw'.name, above, attributes⟩, rfl, ancestor, resolved⟩
    · exact innerIH member
  | opaqueExtension absent _ ih =>
    rcases List.mem_cons.mp member with rfl | member
    · cases declared.symm.trans absent
    · exact ih member

theorem Resolves.particles {content out : ComplexContent} (resolves : Resolves flat content out) :
    ∃ els, resolveElementList flat content.particles = .ok els := by
  induction resolves with
  | sequence resolved | all resolved | choice resolved => exact ⟨_, resolved⟩
  | simpleContent | empty => exact ⟨[], rfl⟩
  | restriction _ ih => exact ih
  | extension _ _ _ _ _ innerIH => exact innerIH
  | opaqueExtension _ _ ih => exact ih

theorem mem_above {q base : QName} {raw : ComplexType} (declared : flat.complexType q = some raw) :
    base ∈ flat.above q ↔ base ∈ raw.content.bases ∧ ∃ rawBase, flat.complexType base = some rawBase := by
  simp only [FlatTypeMap.above, declared, List.mem_filter, Option.isSome_iff_exists]

/-- Above a content that resolves every chain of bases has an end. -/
theorem Resolves.acc {content out : ComplexContent} (resolves : Resolves flat content out)
    {base : QName} (member : base ∈ content.bases) : Acc (fun b a => Step flat.above a b) base := by
  induction resolves generalizing base with
  | sequence | all | choice | simpleContent | empty => cases member
  | restriction _ ih => exact ih member
  | extension declared _ _ _ aboveIH innerIH =>
    rcases List.mem_cons.mp member with rfl | member
    · exact ⟨_, fun b step => aboveIH ((mem_above declared).mp step).1⟩
    · exact innerIH member
  | opaqueExtension absent _ ih =>
    rcases List.mem_cons.mp member with rfl | member
    · refine ⟨_, fun b step => ?_⟩
      rw [Step, FlatTypeMap.above, absent] at step
      cases step
    · exact ih member

theorem ResolvesTo.not_meetsCycle {q : QName} {raw ct : ComplexType}
    (declared : flat.complexType q = some raw) (resolves : ResolvesTo flat raw ct) :
    ¬ MeetsCycle flat.above q :=
  not_meetsCycle_of_acc ⟨q, fun _ step => resolves.content.acc ((mem_above declared).mp step).1⟩

theorem ResolvesTo.grounded {raw ct : ComplexType} (resolves : ResolvesTo flat raw ct) :
    flat.Grounded raw :=
  grounded_iff.mpr ⟨resolves.content.particles, ct.attributes, resolves.attributes⟩

/-! The resolver computes it. -/

/-- A memo of types each of which is what its definition resolves to. -/
def Exact (flat : FlatTypeMap) (memo : Resolved) : Prop :=
  ∀ q ct, memo.lookup q = some ct → ∃ raw, flat.complexType q = some raw ∧ ResolvesTo flat raw ct

theorem exact_empty (flat : FlatTypeMap) : Exact flat ∅ := fun q ct known => by simp at known

theorem Exact.insert {memo : Resolved} (exact : Exact flat memo) {q : QName} {raw ct : ComplexType}
    (declared : flat.complexType q = some raw) (resolves : ResolvesTo flat raw ct) :
    Exact flat (memo.insert q ct) := by
  intro other found known
  by_cases here : other = q
  · subst here
    rw [AList.lookup_insert] at known
    exact Option.some.inj known ▸ ⟨raw, declared, resolves⟩
  · rw [AList.lookup_insert_ne here] at known
    exact exact other found known

/-- A way of resolving names that keeps memos exact: a complex type gives what it resolves to,
and any other name the opaque type. -/
def Exacting (flat : FlatTypeMap)
    (resolve : Resolved → QName → Resolution (ComplexType × Resolved)) : Prop :=
  ∀ memo q ct memo', Exact flat memo → resolve memo q = .ok (ct, memo') →
    Exact flat memo' ∧ ((∃ raw, flat.complexType q = some raw ∧ ResolvesTo flat raw ct) ∨
      flat.complexType q = none ∧ ct = opaqueType)

theorem resolveContent_resolves {resolveBase : Resolved → QName → Resolution (ComplexType × Resolved)}
    (exacting : Exacting flat resolveBase) {content content' : ComplexContent}
    {memo memo' : Resolved} (exact : Exact flat memo)
    (run : resolveContent flat resolveBase content memo = .ok (content', memo')) :
    Exact flat memo' ∧ Resolves flat content content' := by
  induction content, memo using resolveContent.induct generalizing content' memo' with
  | case1 base content memo ih =>
    simp only [resolveContent, bind_eq_ok] at run
    obtain ⟨⟨baseCt, mid⟩, baseRun, ⟨child, after⟩, childRun, same⟩ := run
    cases same
    obtain ⟨midExact, base⟩ := exacting _ _ _ _ exact baseRun
    obtain ⟨afterExact, inner⟩ := ih mid midExact childRun
    -- a base that is not declared contributes nothing
    rcases base with ⟨raw, declared, resolves⟩ | ⟨absent, rfl⟩
    · exact ⟨afterExact, .extension declared resolves.content ⟨_, resolves.attributes⟩ inner⟩
    · exact ⟨afterExact, .opaqueExtension absent inner⟩
  | case2 base content memo ih =>
    obtain ⟨after, inner⟩ := ih exact run
    exact ⟨after, .restriction inner⟩
  | case3 els memo =>
    simp only [resolveContent, bind_eq_ok] at run
    obtain ⟨out, resolved, same⟩ := run
    cases same
    exact ⟨exact, .sequence resolved⟩
  | case4 els memo =>
    simp only [resolveContent, bind_eq_ok] at run
    obtain ⟨out, resolved, same⟩ := run
    cases same
    exact ⟨exact, .all resolved⟩
  | case5 els memo =>
    simp only [resolveContent, bind_eq_ok] at run
    obtain ⟨out, resolved, same⟩ := run
    cases same
    exact ⟨exact, .choice resolved⟩
  | case6 definition memo =>
    cases run
    exact ⟨exact, .simpleContent definition⟩
  | case7 memo =>
    cases run
    exact ⟨exact, .empty⟩

theorem resolveComplexTypeWith_resolves {resolveBase : Resolved → QName → Resolution (ComplexType × Resolved)}
    (exacting : Exacting flat resolveBase) {raw ct : ComplexType} {memo memo' : Resolved}
    (exact : Exact flat memo)
    (run : resolveComplexTypeWith flat resolveBase raw memo = .ok (ct, memo')) :
    Exact flat memo' ∧ ResolvesTo flat raw ct := by
  simp only [resolveComplexTypeWith, bind_eq_ok] at run
  obtain ⟨⟨content, after⟩, contentRun, attributes, attributesRun, same⟩ := run
  cases same
  obtain ⟨afterExact, resolves⟩ := resolveContent_resolves exacting exact contentRun
  exact ⟨afterExact, rfl, resolves, attributesRun⟩

theorem resolveNamedTypeWithin_exacting (flat : FlatTypeMap) (fuel : Nat) (resolving : List QName) :
    Exacting flat (resolveNamedTypeWithin flat fuel resolving) := by
  induction fuel generalizing resolving with
  | zero =>
    intro memo q ct memo' _ run
    cases run
  | succ fuel ih =>
    intro memo q ct memo' exact run
    rw [resolveNamedTypeWithin] at run
    cases known : memo.lookup q with
    | some found =>
      simp only [known] at run
      cases run
      exact ⟨exact, .inl (exact q _ known)⟩
    | none =>
      simp only [known] at run
      split at run
      next => cases run
      next =>
        split at run
        next absent =>
          cases run
          exact ⟨exact, .inr ⟨by rw [FlatTypeMap.complexType, absent], rfl⟩⟩
        next st simple =>
          cases run
          exact ⟨exact, .inr ⟨by rw [FlatTypeMap.complexType, simple], rfl⟩⟩
        next raw declared =>
          rw [bind_eq_ok] at run
          obtain ⟨⟨resolvedCt, mid⟩, typeRun, inserted⟩ := run
          cases inserted
          obtain ⟨midExact, resolves⟩ :=
            resolveComplexTypeWith_resolves (ih (q :: resolving)) exact typeRun
          have declared := FlatTypeMap.complexType_eq_some.mpr declared
          exact ⟨midExact.insert declared resolves, .inl ⟨raw, declared, resolves⟩⟩

/-! How it ends otherwise. -/

/-- A definition whose bases resolve but whose own references go round. -/
def FlatTypeMap.Stuck (flat : FlatTypeMap) (raw : ComplexType) : Prop :=
  (∀ base ∈ raw.content.bases, ∀ rawBase, flat.complexType base = some rawBase → ∃ ct, ResolvesTo flat rawBase ct) ∧
    ¬ flat.Grounded raw

/-- How resolving a name ends without a result: at a base that comes back to itself, which the
error names, or at a definition that is stuck. -/
inductive Fails (flat : FlatTypeMap) (q : QName) : Failure SchemaError → Prop
  | cycle {r : QName} (reached : Relation.ReflTransGen (Step flat.above) q r)
      (cycle : Relation.TransGen (Step flat.above) r r) : Fails flat q (.error (.cycleDetected r.toText))
  | stuck {r : QName} {raw : ComplexType} (reached : Relation.ReflTransGen (Step flat.above) q r)
      (declared : flat.complexType r = some raw) (stuck : flat.Stuck raw) : Fails flat q .hang

theorem Fails.back {q base : QName} {e : Failure SchemaError} (step : Step flat.above q base)
    (fails : Fails flat base e) : Fails flat q e := by
  cases fails with
  | cycle reached cycle => exact .cycle (.head step reached) cycle
  | stuck reached declared stuck => exact .stuck (.head step reached) declared stuck

theorem above_declared {q base : QName} (step : Step flat.above q base) :
    ∃ raw, flat.complexType q = some raw := by
  cases declared : flat.complexType q with
  | some raw => exact ⟨raw, rfl⟩
  | none =>
    rw [Step, FlatTypeMap.above, declared] at step
    cases step

/-- Only a complex type fails. -/
theorem Fails.declared {q : QName} {e : Failure SchemaError} (fails : Fails flat q e) :
    ∃ raw, flat.complexType q = some raw := by
  have reaches {r : QName} (reached : Relation.ReflTransGen (Step flat.above) q r)
      (declared : ∃ raw, flat.complexType r = some raw) : ∃ raw, flat.complexType q = some raw := by
    rcases Relation.ReflTransGen.cases_head reached with rfl | ⟨base, step, _⟩
    · exact declared
    · exact above_declared step
  cases fails with
  | cycle reached cycle =>
    obtain ⟨base, step, _⟩ := Relation.TransGen.head'_iff.mp cycle
    exact reaches reached (above_declared step)
  | stuck reached declared => exact reaches reached ⟨_, declared⟩

/-- The names being resolved on the way to a name, with fuel for all that are not among them. -/
structure Pending (flat : FlatTypeMap) (resolving : List QName) (fuel : Nat) (q : QName) :
    Prop where
  distinct : resolving.Nodup
  declared : ∀ r ∈ resolving, (flat.complexType r).isSome
  below : (flat.complexType q).isSome → ∀ r ∈ resolving, Relation.TransGen (Step flat.above) r q
  enough : flat.types.entries.length < fuel + resolving.length

theorem pending_nil (flat : FlatTypeMap) (q : QName) :
    Pending flat [] (flat.types.entries.length + 1) q :=
  ⟨.nil, fun r member => (by cases member), fun _ r member => (by cases member), Nat.lt_succ_self _⟩

theorem complexType_known {r : QName} (declared : (flat.complexType r).isSome) :
    r ∈ flat.types.keys := by
  obtain ⟨raw, declared⟩ := Option.isSome_iff_exists.mp declared
  refine AList.mem_keys.mp (AList.lookup_isSome.mp ?_)
  rw [FlatTypeMap.complexType_eq_some.mp declared]
  rfl

theorem Pending.fuel_pos {resolving : List QName} {q : QName} : ¬ Pending flat resolving 0 q := by
  intro pending
  have among : resolving ⊆ flat.types.keys :=
    fun r member => complexType_known (pending.declared r member)
  have := (pending.distinct.subperm among).length_le
  have := pending.enough
  rw [keys_length] at *
  omega

theorem Pending.push {resolving : List QName} {fuel : Nat} {q base : QName} {raw : ComplexType}
    (pending : Pending flat resolving (fuel + 1) q) (declared : flat.complexType q = some raw)
    (fresh : q ∉ resolving) (member : base ∈ raw.content.bases) :
    Pending flat (q :: resolving) fuel base where
  distinct := List.nodup_cons.mpr ⟨fresh, pending.distinct⟩
  declared := List.forall_mem_cons.mpr ⟨by rw [declared]; rfl, pending.declared⟩
  below known := by
    have step : Step flat.above q base :=
      (mem_above declared).mpr ⟨member, Option.isSome_iff_exists.mp known⟩
    refine List.forall_mem_cons.mpr ⟨.single step, fun r among => ?_⟩
    exact (pending.below (by rw [declared]; rfl) r among).tail step
  enough := by
    have := pending.enough
    rw [List.length_cons]
    omega

/-- A content fails as one of its bases does, or its own references go round. -/
theorem resolveContent_fails {resolveBase : Resolved → QName → Resolution (ComplexType × Resolved)}
    (exacting : Exacting flat resolveBase) {content : ComplexContent} {memo : Resolved}
    {e : Failure SchemaError} (exact : Exact flat memo)
    (run : resolveContent flat resolveBase content memo = .error e) :
    (∃ base ∈ content.bases, ∃ memo, Exact flat memo ∧ resolveBase memo base = .error e) ∨
      e = .hang ∧
        (∀ base ∈ content.bases, ∀ raw, flat.complexType base = some raw → ∃ ct, ResolvesTo flat raw ct) ∧
        ¬ ∃ out, resolveElementList flat content.particles = .ok out := by
  have ownFails {els : List XsdElement} {e : Failure SchemaError} (failed : resolveElementList flat els = .error e) :
      e = .hang ∧ ¬ ∃ out, resolveElementList flat els = .ok out :=
    ⟨resolveElements_eq_error failed, fun ⟨out, resolved⟩ => by cases failed.symm.trans resolved⟩
  induction content, memo using resolveContent.induct with
  | case1 base content memo ih =>
    simp only [resolveContent, bind_eq_error] at run
    rcases run with failed | ⟨⟨baseCt, mid⟩, baseRun, failed | ⟨_, _, done⟩⟩
    · exact .inl ⟨base, .head _, memo, exact, failed⟩
    · obtain ⟨midExact, resolved⟩ := exacting _ _ _ _ exact baseRun
      rcases ih mid midExact failed with ⟨other, member, rest⟩ | ⟨hang, others, stuck⟩
      · exact .inl ⟨other, .tail _ member, rest⟩
      · refine .inr ⟨hang, fun other member raw declared => ?_, stuck⟩
        rcases List.mem_cons.mp member with rfl | member
        · rcases resolved with ⟨raw', declared', resolves⟩ | ⟨absent, _⟩
          · obtain rfl := Option.some.inj (declared.symm.trans declared')
            exact ⟨_, resolves⟩
          · cases declared.symm.trans absent
        · exact others other member raw declared
    · cases done
  | case2 base content memo ih => exact ih exact run
  | case3 els memo | case4 els memo | case5 els memo =>
    simp only [resolveContent, bind_eq_error] at run
    rcases run with failed | ⟨_, _, done⟩
    · exact .inr ⟨(ownFails failed).1, fun _ member => (by cases member), (ownFails failed).2⟩
    · cases done
  | case6 definition memo | case7 memo => cases run

/-- A definition fails as one of its bases does, or it is stuck. -/
theorem resolveComplexTypeWith_fails {resolveBase : Resolved → QName → Resolution (ComplexType × Resolved)}
    (exacting : Exacting flat resolveBase) {raw : ComplexType} {memo : Resolved}
    {e : Failure SchemaError} (exact : Exact flat memo)
    (run : resolveComplexTypeWith flat resolveBase raw memo = .error e) :
    (∃ base ∈ raw.content.bases, ∃ memo, Exact flat memo ∧ resolveBase memo base = .error e) ∨
      e = .hang ∧ flat.Stuck raw := by
  simp only [resolveComplexTypeWith, bind_eq_error] at run
  rcases run with failed | ⟨⟨content, after⟩, contentRun, failed | ⟨_, _, done⟩⟩
  · rcases resolveContent_fails exacting exact failed with base | ⟨hang, bases, stuck⟩
    · exact .inl base
    · exact .inr ⟨hang, bases, fun grounded => stuck (grounded_iff.mp grounded).1⟩
  · obtain ⟨_, resolves⟩ := resolveContent_resolves exacting exact contentRun
    refine .inr ⟨resolveAttributes_eq_error failed,
      fun base member rawBase declared => resolves.base member declared, ?_⟩
    intro grounded
    obtain ⟨attributes, resolved⟩ := (grounded_iff.mp grounded).2
    cases failed.symm.trans resolved
  · cases done

theorem resolveNamedTypeWithin_fails {fuel : Nat} {resolving : List QName} {memo : Resolved}
    {q : QName} {e : Failure SchemaError} (pending : Pending flat resolving fuel q)
    (exact : Exact flat memo) (run : resolveNamedTypeWithin flat fuel resolving memo q = .error e) :
    Fails flat q e := by
  induction fuel generalizing resolving memo q with
  | zero => exact absurd pending Pending.fuel_pos
  | succ fuel ih =>
    rw [resolveNamedTypeWithin] at run
    split at run
    next => cases run
    next =>
      split at run
      -- the name is on the path already, so it derives from itself
      next member =>
        cases run
        exact .cycle .refl (pending.below (pending.declared q member) q member)
      next fresh =>
        split at run
        next => cases run
        next => cases run
        next raw declared =>
          have declared := FlatTypeMap.complexType_eq_some.mpr declared
          rcases bind_eq_error.mp run with failed | ⟨_, _, done⟩
          · rcases resolveComplexTypeWith_fails (resolveNamedTypeWithin_exacting flat fuel (q :: resolving)) exact failed
              with ⟨base, member, mid, midExact, failed⟩ | ⟨rfl, stuck⟩
            · -- the base failed, and the circle that it meets is met from here
              have fails := ih (pending.push declared fresh member) midExact failed
              exact fails.back ((mem_above declared).mpr ⟨member, fails.declared⟩)
            · exact .stuck .refl declared stuck
          · cases done

/-- All above a type that resolves does so. -/
theorem ResolvesTo.reached {q r : QName} {raw ct rawR : ComplexType}
    (declared : flat.complexType q = some raw) (resolves : ResolvesTo flat raw ct)
    (reached : Relation.ReflTransGen (Step flat.above) q r)
    (found : flat.complexType r = some rawR) : ∃ ct, ResolvesTo flat rawR ct := by
  induction reached generalizing rawR with
  | refl => exact ⟨ct, Option.some.inj (declared.symm.trans found) ▸ resolves⟩
  | tail _ step ih =>
    obtain ⟨rawMid, foundMid⟩ := above_declared step
    obtain ⟨ctMid, mid⟩ := ih foundMid
    exact mid.content.base ((mem_above foundMid).mp step).1 found

/-- A name that fails does not resolve. -/
theorem Fails.not_resolves {q : QName} {e : Failure SchemaError} (fails : Fails flat q e)
    {raw ct : ComplexType} (declared : flat.complexType q = some raw) :
    ¬ ResolvesTo flat raw ct := by
  intro resolves
  cases fails with
  | cycle reached cycle => exact resolves.not_meetsCycle declared ⟨_, reached, cycle⟩
  | stuck reached found stuck =>
    obtain ⟨_, top⟩ := resolves.reached declared reached found
    exact stuck.2 top.grounded

/-- A complex type is resolved exactly if it resolves, whatever the memo. -/
theorem resolveNamedType_cases {memo : Resolved} (exact : Exact flat memo) {q : QName}
    {raw : ComplexType} (declared : flat.complexType q = some raw) :
    (∃ ct memo', resolveNamedType flat memo q = .ok (ct, memo') ∧ Exact flat memo' ∧ ResolvesTo flat raw ct) ∨
      ∃ e, resolveNamedType flat memo q = .error e ∧ Fails flat q e := by
  cases run : resolveNamedType flat memo q with
  | ok done =>
    obtain ⟨ct, memo'⟩ := done
    obtain ⟨after, ⟨raw', declared', resolves⟩ | ⟨absent, _⟩⟩ :=
      resolveNamedTypeWithin_exacting flat _ _ _ _ _ _ exact run
    · obtain rfl := Option.some.inj (declared.symm.trans declared')
      exact .inl ⟨ct, memo', rfl, after, resolves⟩
    · cases declared.symm.trans absent
  | error e => exact .inr ⟨e, rfl, resolveNamedTypeWithin_fails (pending_nil flat q) exact run⟩

end SoapServer.Xsd
