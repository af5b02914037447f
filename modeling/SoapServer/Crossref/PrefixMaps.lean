import SoapServer.Crossref.Prefixes
import SoapServer.Library.Associations

/-! The canonical prefixes: each namespace has one, no two have the same, and the root declares
them all.
-/

set_option autoImplicit false

namespace SoapServer.Crossref

open Markup hiding localName
open Associations

theorem indexPrefix_inj {i j : Nat} (same : indexPrefix i = indexPrefix j) : i = j := by
  have digits : Nat.toDigits 10 i = Nat.toDigits 10 j := (List.cons.inj same).2
  rw [← @Nat.ofDigitChars_ten_toDigits i, digits, Nat.ofDigitChars_ten_toDigits]

theorem indexPrefix_ncName (i : Nat) : IsNcName (indexPrefix i) := by
  refine ⟨by decide, fun c member => ?_⟩
  have digit : c.isDigit = true := Nat.isDigit_of_mem_toDigits (by decide) (by decide) member
  simp [isNameChar, digit]

/-- The reserved prefixes begin with another letter. -/
theorem indexPrefix_ne {c : Char} (other : 'n' ≠ c) (i : Nat) (rest : Text) :
    indexPrefix i ≠ c :: rest :=
  fun same => other (List.cons.inj same).1

/-- Every namespace has one prefix, and every prefix one namespace. -/
structure ProperMap (prefixes : PrefixMap) : Prop where
  uris : (prefixes.map Prod.fst).Nodup
  distinct : (prefixes.map Prod.snd).Nodup
  named : ∀ d ∈ prefixes, ∃ i, d.2 = indexPrefix i

theorem uriToPrefix_fst (usedUris : List Text) :
    (uriToPrefix usedUris).map Prod.fst = usedUris := by
  rw [uriToPrefix, List.map_map]
  exact List.zipIdx_map_fst 0 usedUris

theorem uriToPrefix_proper {usedUris : List Text} (distinct : usedUris.Nodup) :
    ProperMap (uriToPrefix usedUris) where
  uris := by rwa [uriToPrefix_fst]
  distinct := by
    have indices : (uriToPrefix usedUris).map Prod.snd = (usedUris.zipIdx.map Prod.snd).map indexPrefix := by
      rw [uriToPrefix, List.map_map, List.map_map]
      rfl
    rw [indices, List.zipIdx_map_snd]
    exact (List.nodup_range' 1).map fun i j => indexPrefix_inj
  named d member := by
    obtain ⟨entry, _, rfl⟩ := List.mem_map.mp member
    exact ⟨entry.2, rfl⟩

theorem uriToPrefix_covers {usedUris : List Text} {uri : Text} (used : uri ∈ usedUris) :
    ∃ p, (uriToPrefix usedUris).lookup uri = some p := by
  rw [← uriToPrefix_fst usedUris] at used
  by_contra absent
  have none_ : (uriToPrefix usedUris).lookup uri = none := by
    by_contra found
    exact absent (Option.ne_none_iff_exists'.mp found)
  exact Associations.lookup_eq_none_iff.mp none_ used

theorem uriToPrefix_lookup_none {usedUris : List Text} {uri : Text} (unused : uri ∉ usedUris) :
    (uriToPrefix usedUris).lookup uri = none := by
  rw [← uriToPrefix_fst usedUris] at unused
  exact Associations.lookup_eq_none_iff.mpr unused

variable {prefixes : PrefixMap}

theorem ProperMap.prefix_of_lookup (proper : ProperMap prefixes) {uri p : Text}
    (found : prefixes.lookup uri = some p) :
    ∃ i, p = indexPrefix i :=
  proper.named (uri, p) (mem_of_lookup found)

theorem ProperMap.ncName (proper : ProperMap prefixes) {d : Text × Text} (member : d ∈ prefixes) :
    IsNcName d.2 := by
  obtain ⟨i, isIndex⟩ := proper.named d member
  exact isIndex ▸ indexPrefix_ncName i

theorem ProperMap.ne_reserved (proper : ProperMap prefixes) {d : Text × Text}
    (member : d ∈ prefixes) {c : Char} (other : 'n' ≠ c) (rest : Text) : d.2 ≠ c :: rest := by
  obtain ⟨i, isIndex⟩ := proper.named d member
  exact isIndex ▸ indexPrefix_ne other i rest

/-! The declarations on the root. -/

theorem perm_sortByPrefix (prefixes : PrefixMap) :
    (sortByPrefix prefixes).Perm prefixes := List.perm_insertionSort _ _

theorem declares_prefixed (p value : Text) :
    (Attribute.mk ("xmlns:".toList ++ p) value).declares = some p := by
  have other : "xmlns:".toList ++ p ≠ "xmlns".toList := by simp
  rw [Attribute.declares, if_neg other, stripPrefix_append]

theorem declarations_root (prefixes : PrefixMap) :
    declarations (rootDeclarations prefixes) = (sortByPrefix prefixes).map Prod.swap := by
  rw [declarations, rootDeclarations, List.filterMap_map, ← List.filterMap_eq_map]
  refine List.filterMap_congr fun d _ => ?_
  simp only [Function.comp_apply, declares_prefixed, Option.map_some]
  rfl

/-- The bindings inside a canonical document. -/
def rootScope (prefixes : PrefixMap) : Scope := declarations (rootDeclarations prefixes) ++ Scope.initial

theorem rootScope_lookup (proper : ProperMap prefixes) {uri p : Text}
    (found : prefixes.lookup uri = some p) :
    (rootScope prefixes).lookup p = some uri := by
  have swapped := (lookup_swapped proper.uris proper.distinct (perm_sortByPrefix prefixes)).mpr found
  rw [rootScope, declarations_root, List.lookup_append, swapped]
  rfl

theorem rootScope_lookup_other (proper : ProperMap prefixes) {p : Text}
    (other : ∀ i, p ≠ indexPrefix i) :
    (rootScope prefixes).lookup p = Scope.initial.lookup p := by
  have absent : (declarations (rootDeclarations prefixes)).lookup p = none := by
    rw [declarations_root]
    by_contra found
    obtain ⟨uri, found⟩ := Option.ne_none_iff_exists'.mp found
    have known := (lookup_swapped proper.uris proper.distinct (perm_sortByPrefix prefixes)).mp found
    obtain ⟨i, same⟩ := proper.prefix_of_lookup known
    exact other i same
  rw [rootScope, List.lookup_append, absent, Option.none_or]

theorem rootScope_xml (proper : ProperMap prefixes) :
    (rootScope prefixes).lookup xmlText = some xmlNamespace :=
  (rootScope_lookup_other proper fun i => (indexPrefix_ne (by decide) i _).symm).trans rfl

theorem rootScope_default (proper : ProperMap prefixes) : (rootScope prefixes).lookup [] = none :=
  (rootScope_lookup_other proper fun i same => by cases same).trans rfl

end SoapServer.Crossref
