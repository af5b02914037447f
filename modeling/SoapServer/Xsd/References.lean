import SoapServer.Library.Descent
import SoapServer.Xsd.Contributions

/-! References from group to group and from attribute group to attribute group: resolving
them ends exactly where no group comes back to itself.
-/

set_option autoImplicit false

namespace SoapServer.Xsd

open Maps Loops Descent

/-- The groups that some particles refer to. -/
def FlatTypeMap.groupReferences (flat : FlatTypeMap) (els : List XsdElement) : List QName :=
  els.filterMap fun el => el.reference.filter fun q => (flat.groups.lookup q).isSome

/-- The groups that a group refers to. -/
def FlatTypeMap.groupsWithin (flat : FlatTypeMap) (q : QName) : List QName :=
  match flat.groups.lookup q with
  | some group => flat.groupReferences group.content.elements
  | none => []

/-- The attribute groups that some attributes refer to. -/
def FlatTypeMap.attributeGroupReferences (flat : FlatTypeMap)
    (attributes : List XsdAttribute) : List QName :=
  attributes.filterMap fun attr => attr.refAttr.filter fun q =>
    (flat.attributeGroups.lookup q).isSome

/-- The attribute groups that an attribute group refers to. -/
def FlatTypeMap.attributeGroupsWithin (flat : FlatTypeMap) (q : QName) : List QName :=
  match flat.attributeGroups.lookup q with
  | some ag => ag.attributeGroups.filter fun q => (flat.attributeGroups.lookup q).isSome
  | none => []

/-- No reference of a definition leads into a circle of groups or of attribute groups. -/
structure FlatTypeMap.Grounded (flat : FlatTypeMap) (raw : ComplexType) : Prop where
  groups : ∀ q ∈ flat.groupReferences raw.content.particles, ¬ MeetsCycle flat.groupsWithin q
  attributeGroups : ∀ q ∈ flat.attributeGroupReferences raw.attributes, ¬ MeetsCycle flat.attributeGroupsWithin q

variable {flat : FlatTypeMap}

/-! Groups. -/

theorem resolveElement_reference {inline : List XsdElement → Resolution (List XsdElement)}
    {el : XsdElement} :
    resolveElement flat inline el =
      match el.reference with
      | none => .ok [el]
      | some q =>
        match flat.groups.lookup q with
        | some group => inline group.content.elements
        | none => .ok (flat.elements.lookup q).toList := by
  unfold resolveElement XsdElement.reference
  by_cases wildcard : el.name = some anyName
  · rw [if_pos wildcard, if_pos wildcard]
  · rw [if_neg wildcard, if_neg wildcard]
    cases el.refAttr with
    | none => rfl
    | some q =>
      cases grouped : flat.groups.lookup q with
      | some group => simp only [grouped]
      | none => cases declared : flat.elements.lookup q <;> simp [grouped, declared]

theorem mem_groupReferences {els : List XsdElement} {q : QName} :
    q ∈ flat.groupReferences els ↔ (∃ el ∈ els, el.reference = some q) ∧ ∃ group, flat.groups.lookup q = some group := by
  simp only [FlatTypeMap.groupReferences, List.mem_filterMap, Option.filter_eq_some_iff,
    Option.isSome_iff_exists]
  constructor
  · rintro ⟨el, member, refers, found⟩
    exact ⟨⟨el, member, refers⟩, found⟩
  · rintro ⟨⟨el, member, refers⟩, found⟩
    exact ⟨el, member, refers, found⟩

theorem exists_resolveElements_succ_iff {fuel : Nat} {els : List XsdElement} :
    (∃ out, resolveElements flat (fuel + 1) els = .ok out) ↔
      ∀ q ∈ flat.groupReferences els, ∀ group, flat.groups.lookup q = some group →
        ∃ out, resolveElements flat fuel group.content.elements = .ok out := by
  rw [resolveElements, exists_appendAll_iff]
  simp only [resolveElement_reference]
  constructor
  · intro all q refers group found
    obtain ⟨⟨el, member, refers⟩, _⟩ := mem_groupReferences.mp refers
    simpa only [refers, found] using all el member
  · intro all el member
    cases refers : el.reference with
    | none => exact ⟨[el], rfl⟩
    | some q =>
      cases found : flat.groups.lookup q with
      | none => exact ⟨(flat.elements.lookup q).toList, by simp only [found]⟩
      | some group => simpa only [found] using all q (mem_groupReferences.mpr ⟨⟨el, member, refers⟩, group, found⟩) group found

theorem groups_known {q : QName} {els : List XsdElement} (refers : q ∈ flat.groupReferences els) :
    q ∈ flat.groups.keys := by
  obtain ⟨_, group, found⟩ := mem_groupReferences.mp refers
  exact AList.mem_keys.mp (AList.lookup_isSome.mp (Option.isSome_iff_exists.mpr ⟨group, found⟩))

theorem groups_closed (q r : QName) (step : Step flat.groupsWithin q r) : r ∈ flat.groups.keys := by
  unfold Step FlatTypeMap.groupsWithin at step
  split at step
  next group _ => exact groups_known step
  next => cases step

/-- Particles resolve when the groups they refer to end within the fuel that is left. -/
theorem exists_resolveElements_iff {k : Nat} {els : List XsdElement} :
    (∃ out, resolveElements flat (k + 1) els = .ok out) ↔
      ∀ q ∈ flat.groupReferences els, EndsWithin flat.groupsWithin k q := by
  rw [exists_resolveElements_succ_iff]
  refine forall₂_congr fun q refers => iff_endsWithin (R := fun k q => ∀ group, flat.groups.lookup q = some group →
    ∃ out, resolveElements flat k group.content.elements = .ok out) groups_closed ?_ ?_ (groups_known refers)
  · intro q known all
    obtain ⟨group, found⟩ := Option.isSome_iff_exists.mp (AList.lookup_isSome.mpr (AList.mem_keys.mp known))
    obtain ⟨out, run⟩ := all group found
    cases run
  · intro k q known
    obtain ⟨group, found⟩ := Option.isSome_iff_exists.mp (AList.lookup_isSome.mpr (AList.mem_keys.mp known))
    simp only [found, Option.some.injEq, forall_eq', FlatTypeMap.groupsWithin]
    exact exists_resolveElements_succ_iff

theorem keys_length {V : Type} (m : HashMap QName V) : m.keys.length = m.entries.length := by
  simp [AList.keys, List.keys]

/-- Particles resolve exactly when no reference leads into a circle of groups. -/
theorem exists_resolveElementList_iff {els : List XsdElement} :
    (∃ out, resolveElementList flat els = .ok out) ↔
      ∀ q ∈ flat.groupReferences els, ¬ MeetsCycle flat.groupsWithin q := by
  rw [resolveElementList, exists_resolveElements_iff, ← keys_length]
  exact forall₂_congr fun q refers => endsWithin_iff (groups_known refers) groups_closed

theorem resolveElements_eq_error {fuel : Nat} {els : List XsdElement} {e : Failure SchemaError}
    (run : resolveElements flat fuel els = .error e) : e = .hang := by
  induction fuel generalizing els with
  | zero => cases run; rfl
  | succ fuel ih =>
    obtain ⟨el, _, failed⟩ := appendAll_eq_error run
    rw [resolveElement_reference] at failed
    split at failed
    next => cases failed
    next =>
      split at failed
      next => exact ih failed
      next => cases failed

/-- More fuel than there are groups changes nothing. -/
theorem resolveElements_stable (els : List XsdElement) (extra : Nat) :
    resolveElements flat (flat.groups.entries.length + extra + 1) els = resolveElementList flat els := by
  have same : (∃ out, resolveElements flat (flat.groups.entries.length + extra + 1) els = .ok out) ↔
      ∃ out, resolveElementList flat els = .ok out := by
    rw [resolveElementList, exists_resolveElements_iff, exists_resolveElements_iff]
    refine forall₂_congr fun q refers => ⟨fun ends => ?_,
      fun ends => ends.mono (Nat.le_add_right _ _)⟩
    rw [← keys_length]
    exact (endsWithin_iff (groups_known refers) groups_closed).mpr (not_meetsCycle_of_acc ends.acc)
  cases run : resolveElementList flat els with
  | ok out =>
    obtain ⟨out', run'⟩ := same.mpr ⟨out, run⟩
    rw [run', (resolveElements_expands run').unique (resolveElements_expands run)]
  | error e =>
    cases run' : resolveElements flat (flat.groups.entries.length + extra + 1) els with
    | ok out =>
      obtain ⟨out', ended⟩ := same.mp ⟨out, run'⟩
      cases run.symm.trans ended
    | error e' => rw [resolveElements_eq_error run, resolveElements_eq_error run']

/-! Attribute groups. -/

theorem mem_attributeGroupsWithin {q r : QName} {ag : AttributeGroup}
    (found : flat.attributeGroups.lookup q = some ag) :
    r ∈ flat.attributeGroupsWithin q ↔ r ∈ ag.attributeGroups ∧ ∃ nested, flat.attributeGroups.lookup r = some nested := by
  simp only [FlatTypeMap.attributeGroupsWithin, found, List.mem_filter, Option.isSome_iff_exists]

theorem exists_expandAttributeGroupWithin_iff {fuel : Nat} {ag : AttributeGroup} :
    (∃ out, expandAttributeGroupWithin flat (fuel + 1) ag = .ok out) ↔
      ∀ q ∈ ag.attributeGroups, ∀ nested, flat.attributeGroups.lookup q = some nested →
        ∃ out, expandAttributeGroupWithin flat fuel nested = .ok out := by
  simp only [expandAttributeGroupWithin, bind_eq_ok]
  constructor
  · rintro ⟨_, nested, run, -⟩ q member nestedAg found
    simpa only [found] using exists_appendAll_iff.mp ⟨nested, run⟩ q member
  · intro all
    have each : ∃ nested, appendAll (fun q =>
        match flat.attributeGroups.lookup q with
        | some nestedAg => expandAttributeGroupWithin flat fuel nestedAg
        | none => .ok []) ag.attributeGroups = .ok nested := by
      refine exists_appendAll_iff.mpr fun q member => ?_
      cases found : flat.attributeGroups.lookup q with
      | none => exact ⟨[], rfl⟩
      | some nestedAg => exact all q member nestedAg found
    obtain ⟨nested, run⟩ := each
    exact ⟨_, nested, run, rfl⟩

theorem attributeGroups_known {q : QName} {attributes : List XsdAttribute}
    (refers : q ∈ flat.attributeGroupReferences attributes) : q ∈ flat.attributeGroups.keys := by
  obtain ⟨attr, _, found⟩ := List.mem_filterMap.mp refers
  exact AList.mem_keys.mp (AList.lookup_isSome.mp (Option.filter_eq_some_iff.mp found).2)

theorem attributeGroups_closed (q r : QName) (step : Step flat.attributeGroupsWithin q r) :
    r ∈ flat.attributeGroups.keys := by
  unfold Step FlatTypeMap.attributeGroupsWithin at step
  split at step
  next ag _ => exact AList.mem_keys.mp (AList.lookup_isSome.mp (of_decide_eq_true (by simpa using (List.mem_filter.mp step).2)))
  next => cases step

theorem exists_expandWithin_iff {k : Nat} {q : QName} {ag : AttributeGroup}
    (found : flat.attributeGroups.lookup q = some ag) :
    (∃ out, expandAttributeGroupWithin flat k ag = .ok out) ↔ EndsWithin flat.attributeGroupsWithin k q := by
  have iff := iff_endsWithin (n := q) (k := k) (R := fun k q => ∀ ag, flat.attributeGroups.lookup q = some ag →
    ∃ out, expandAttributeGroupWithin flat k ag = .ok out) attributeGroups_closed ?_ ?_
    (AList.mem_keys.mp (AList.lookup_isSome.mp (Option.isSome_iff_exists.mpr ⟨ag, found⟩)))
  · simpa only [found, Option.some.injEq, forall_eq'] using iff
  · intro q known all
    obtain ⟨ag, found⟩ := Option.isSome_iff_exists.mp (AList.lookup_isSome.mpr (AList.mem_keys.mp known))
    obtain ⟨out, run⟩ := all ag found
    cases run
  · intro k q known
    obtain ⟨ag, found⟩ := Option.isSome_iff_exists.mp (AList.lookup_isSome.mpr (AList.mem_keys.mp known))
    simp only [found, Option.some.injEq, forall_eq', mem_attributeGroupsWithin found]
    rw [exists_expandAttributeGroupWithin_iff]
    exact ⟨fun all r member => all r member.1,
      fun all r member nested found => all r ⟨member, nested, found⟩ nested found⟩

/-- Attributes resolve exactly when no reference leads into a circle of attribute groups. -/
theorem exists_resolveAttributes_iff {attributes : List XsdAttribute} :
    (∃ out, resolveAttributes flat attributes = .ok out) ↔
      ∀ q ∈ flat.attributeGroupReferences attributes, ¬ MeetsCycle flat.attributeGroupsWithin q := by
  rw [resolveAttributes, exists_appendAll_iff]
  constructor
  · intro all q refers
    obtain ⟨attr, member, filtered⟩ := List.mem_filterMap.mp refers
    obtain ⟨refers, known⟩ := Option.filter_eq_some_iff.mp filtered
    obtain ⟨ag, found⟩ := Option.isSome_iff_exists.mp known
    have given := all attr member
    simp only [refers, Option.bind_some, found] at given
    exact not_meetsCycle_of_acc ((exists_expandWithin_iff found).mp given).acc
  · intro free attr member
    cases refers : attr.refAttr with
    | none => exact ⟨[attr], rfl⟩
    | some q =>
      cases found : flat.attributeGroups.lookup q with
      | none => exact ⟨[attr], by simp only [Option.bind_some, found]⟩
      | some ag =>
        have refers : q ∈ flat.attributeGroupReferences attributes :=
          List.mem_filterMap.mpr ⟨attr, member,
            Option.filter_eq_some_iff.mpr ⟨refers, by rw [found]; rfl⟩⟩
        simp only [Option.bind_some, found]
        -- the fuel is the number of groups, and a chain without a circle is no longer than that
        refine (exists_expandWithin_iff found).mpr (EndsWithin.mono ?_ (Nat.le_succ _))
        rw [← keys_length]
        exact (endsWithin_iff (attributeGroups_known refers) attributeGroups_closed).mpr (free q refers)

theorem expandAttributeGroupWithin_eq_error {fuel : Nat} {ag : AttributeGroup}
    {e : Failure SchemaError} (run : expandAttributeGroupWithin flat fuel ag = .error e) :
    e = .hang := by
  induction fuel generalizing ag with
  | zero => cases run; rfl
  | succ fuel ih =>
    rw [expandAttributeGroupWithin, bind_eq_error] at run
    rcases run with failed | ⟨_, _, done⟩
    · obtain ⟨q, _, failed⟩ := appendAll_eq_error failed
      split at failed
      next => exact ih failed
      next => cases failed
    · cases done

theorem resolveAttributes_eq_error {attributes : List XsdAttribute} {e : Failure SchemaError}
    (run : resolveAttributes flat attributes = .error e) : e = .hang := by
  obtain ⟨attr, _, failed⟩ := appendAll_eq_error run
  split at failed
  next => exact expandAttributeGroupWithin_eq_error failed
  next => cases failed

/-- The references of a definition resolve exactly when it is grounded. -/
theorem grounded_iff {raw : ComplexType} : flat.Grounded raw ↔
    (∃ out, resolveElementList flat raw.content.particles = .ok out) ∧
      ∃ attributes, resolveAttributes flat raw.attributes = .ok attributes := by
  rw [exists_resolveElementList_iff, exists_resolveAttributes_iff]
  exact ⟨fun grounded => ⟨grounded.groups, grounded.attributeGroups⟩,
    fun ⟨groups, attributeGroups⟩ => ⟨groups, attributeGroups⟩⟩

end SoapServer.Xsd
