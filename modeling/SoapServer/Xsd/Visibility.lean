import SoapServer.Xsd.Contributions

/-! A set of declarations inside a larger one: when a type contributes the same elements
over both. -/

set_option autoImplicit false

namespace SoapServer.Xsd

open Maps

/-- One of the names, or a base reached from them over the extension chain. -/
inductive Ancestor (flat : FlatTypeMap) : List QName → QName → Prop
  | self {qs : List QName} {q : QName} (member : q ∈ qs) : Ancestor flat qs q
  | above {qs : List QName} {q b : QName} {raw : ComplexType} (member : b ∈ qs)
      (found : flat.complexType b = some raw) (higher : Ancestor flat raw.content.bases q) : Ancestor flat qs q

/-- One of the particles, or one reached from them over groups. -/
inductive Particle (flat : FlatTypeMap) : List XsdElement → XsdElement → Prop
  | self {els : List XsdElement} {el : XsdElement} (member : el ∈ els) : Particle flat els el
  | inside {els : List XsdElement} {el inner : XsdElement} {q : QName} {group : Group} (member : el ∈ els)
      (refers : el.reference = some q) (found : flat.referent q = some (.inl group))
      (deeper : Particle flat group.content.elements inner) : Particle flat els inner

/-- A name of a type is seen alike, or what is not seen contributes nothing. -/
def TypeSeen (flat whole : FlatTypeMap) (q : QName) : Prop :=
  flat.complexType q = whole.complexType q ∨ flat.complexType q = none ∧ Contributes whole [q] []

/-- What a particle refers to is seen alike, or what is not seen expands to nothing. -/
def ReferenceSeen (flat whole : FlatTypeMap) (el : XsdElement) : Prop :=
  ∀ q, el.reference = some q →
    flat.referent q = whole.referent q ∨ flat.referent q = none ∧ Expands whole [el] []

/-- Everything that resolving the names meets in `flat` is seen as in `whole`. -/
structure Visible (flat whole : FlatTypeMap) (qs : List QName) : Prop where
  types : ∀ q, Ancestor flat qs q → TypeSeen flat whole q
  references : ∀ q raw el, Ancestor flat qs q → flat.complexType q = some raw →
    Particle flat raw.content.particles el → ReferenceSeen flat whole el

/-- The larger set keeps what every name of the smaller one stands for. -/
structure Keeps (flat whole : FlatTypeMap) : Prop where
  types : ∀ q raw, flat.complexType q = some raw → whole.complexType q = some raw
  references : ∀ q referent, flat.referent q = some referent → whole.referent q = some referent

variable {flat whole : FlatTypeMap}

theorem Ancestor.mono {qs more : List QName} {q : QName} (ancestor : Ancestor flat qs q)
    (sub : qs ⊆ more) :
    Ancestor flat more q := by
  cases ancestor with
  | self member => exact .self (sub member)
  | above member found higher => exact .above (sub member) found higher

theorem ancestor_cons {first q : QName} {rest : List QName}
    (ancestor : Ancestor flat (first :: rest) q) :
    q = first ∨ (∃ raw, flat.complexType first = some raw ∧ Ancestor flat raw.content.bases q) ∨
      Ancestor flat rest q := by
  cases ancestor with
  | self member =>
    rcases List.mem_cons.mp member with same | later
    · exact .inl same
    · exact .inr (.inr (.self later))
  | above member found higher =>
    rcases List.mem_cons.mp member with rfl | later
    · exact .inr (.inl ⟨_, found, higher⟩)
    · exact .inr (.inr (.above later found higher))

theorem particle_cons {first el : XsdElement} {rest : List XsdElement}
    (particle : Particle flat (first :: rest) el) :
    el = first ∨ (∃ q group, first.reference = some q ∧ flat.referent q = some (.inl group) ∧
      Particle flat group.content.elements el) ∨ Particle flat rest el := by
  cases particle with
  | self member =>
    rcases List.mem_cons.mp member with same | later
    · exact .inl same
    · exact .inr (.inr (.self later))
  | inside member refers found deeper =>
    rcases List.mem_cons.mp member with rfl | later
    · exact .inr (.inl ⟨_, _, refers, found, deeper⟩)
    · exact .inr (.inr (.inside later refers found deeper))

theorem Particle.tail {first el : XsdElement} {rest : List XsdElement}
    (particle : Particle flat rest el) :
    Particle flat (first :: rest) el := by
  cases particle with
  | self member => exact .self (.tail _ member)
  | inside member refers found deeper => exact .inside (.tail _ member) refers found deeper

/-! What is seen alike contributes alike. -/

theorem Expands.of_seen {els out : List XsdElement} (expands : Expands flat els out)
    (seen : ∀ el, Particle flat els el → ReferenceSeen flat whole el) : Expands whole els out := by
  induction expands with
  | nil => exact .nil
  | own plain after ih => exact .own plain (ih fun el particle => seen el particle.tail)
  | group refers found inside after insideIH afterIH =>
    have after := afterIH fun el particle => seen el particle.tail
    have inside := insideIH fun el particle => seen el (.inside (.head _) refers found particle)
    rcases seen _ (.self (.head _)) _ refers with same | ⟨absent, _⟩
    · exact .group refers (same.symm.trans found) inside after
    · cases found.symm.trans absent
  | element refers found after ih =>
    have after := ih fun el particle => seen el particle.tail
    rcases seen _ (.self (.head _)) _ refers with same | ⟨absent, _⟩
    · exact .element refers (same.symm.trans found) after
    · cases found.symm.trans absent
  | missing refers absent after ih =>
    have after := ih fun el particle => seen el particle.tail
    rcases seen _ (.self (.head _)) _ refers with same | ⟨_, nothing⟩
    · exact .missing refers (same.symm.trans absent) after
    · exact nothing.append after

theorem Visible.rest {q : QName} {qs : List QName} (visible : Visible flat whole (q :: qs)) :
    Visible flat whole qs where
  types r ancestor := visible.types r (ancestor.mono (List.subset_cons_self _ _))
  references r raw el ancestor := visible.references r raw el (ancestor.mono (List.subset_cons_self _ _))

theorem Visible.above {q : QName} {qs : List QName} {raw : ComplexType}
    (visible : Visible flat whole (q :: qs)) (found : flat.complexType q = some raw) :
    Visible flat whole raw.content.bases where
  types r ancestor := visible.types r (.above (.head _) found ancestor)
  references r raw' el ancestor := visible.references r raw' el (.above (.head _) found ancestor)

theorem Contributes.of_visible {qs : List QName} {out : List XsdElement}
    (contributes : Contributes flat qs out) (visible : Visible flat whole qs) :
    Contributes whole qs out := by
  induction contributes with
  | nil => exact .nil
  | undeclared absent after ih =>
    rcases visible.types _ (.self (.head _)) with same | ⟨_, nothing⟩
    · exact .undeclared (same.symm.trans absent) (ih visible.rest)
    · exact nothing.append (ih visible.rest)
  | declared found above particles after aboveIH afterIH =>
    rcases visible.types _ (.self (.head _)) with same | ⟨absent, _⟩
    · exact .declared (same.symm.trans found) (aboveIH (visible.above found))
        (particles.of_seen fun el particle => visible.references _ _ el (.self (.head _)) found particle)
        (afterIH visible.rest)
    · cases found.symm.trans absent

/-! In a larger set nothing is lost, so equal contributions are seen alike. -/

theorem append_eq_append_of_sublist {α : Type} {a a' b b' : List α} (first : a.Sublist a')
    (second : b.Sublist b') (same : a ++ b = a' ++ b') : a = a' ∧ b = b' := by
  have lengths := congrArg List.length same
  rw [List.length_append, List.length_append] at lengths
  have left := first.length_le
  have right := second.length_le
  exact ⟨first.eq_of_length (by omega), second.eq_of_length (by omega)⟩

theorem Expands.sublist {els out out' : List XsdElement} (keeps : Keeps flat whole)
    (expands : Expands flat els out) (wholly : Expands whole els out') :
    out.Sublist out' ∧ (out = out' → ∀ el, Particle flat els el → ReferenceSeen flat whole el) := by
  induction expands generalizing out' with
  | nil =>
    cases wholly
    exact ⟨.slnil, fun _ el particle => by cases particle with
      | self member | inside member => cases member⟩
  | own plain after ih =>
    cases wholly with
    | own _ after' =>
      obtain ⟨sub, seen⟩ := ih after'
      refine ⟨sub.cons_cons _, fun same el particle => ?_⟩
      rcases particle_cons particle with rfl | ⟨q, group, refers, _⟩ | later
      · intro q refers
        rw [plain] at refers
        cases refers
      · rw [plain] at refers
        cases refers
      · exact seen (List.cons.inj same).2 el later
    | group refers | element refers | missing refers => rw [plain] at refers; cases refers
  | group refers found inside after insideIH afterIH =>
    have kept := keeps.references _ _ found
    cases wholly with
    | own plain => rw [refers] at plain; cases plain
    | group refers' found' inside' after' =>
      obtain rfl := Option.some.inj (refers.symm.trans refers')
      cases kept.symm.trans found'
      obtain ⟨insideSub, insideSeen⟩ := insideIH inside'
      obtain ⟨afterSub, afterSeen⟩ := afterIH after'
      refine ⟨insideSub.append afterSub, fun same el particle => ?_⟩
      obtain ⟨insideSame, afterSame⟩ := append_eq_append_of_sublist insideSub afterSub same
      rcases particle_cons particle with rfl | ⟨q, group, again, foundAgain, deeper⟩ | later
      · intro q again
        obtain rfl := Option.some.inj (refers.symm.trans again)
        exact .inl (found.trans kept.symm)
      · obtain rfl := Option.some.inj (refers.symm.trans again)
        cases found.symm.trans foundAgain
        exact insideSeen insideSame el deeper
      · exact afterSeen afterSame el later
    | element refers' found' | missing refers' found' =>
      obtain rfl := Option.some.inj (refers.symm.trans refers')
      cases kept.symm.trans found'
  | element refers found after ih =>
    have kept := keeps.references _ _ found
    cases wholly with
    | own plain => rw [refers] at plain; cases plain
    | element refers' found' after' =>
      obtain rfl := Option.some.inj (refers.symm.trans refers')
      cases kept.symm.trans found'
      obtain ⟨sub, seen⟩ := ih after'
      refine ⟨sub.cons_cons _, fun same el particle => ?_⟩
      rcases particle_cons particle with rfl | ⟨q, group, again, foundAgain, _⟩ | later
      · intro q again
        obtain rfl := Option.some.inj (refers.symm.trans again)
        exact .inl (found.trans kept.symm)
      · obtain rfl := Option.some.inj (refers.symm.trans again)
        cases found.symm.trans foundAgain
      · exact seen (List.cons.inj same).2 el later
    | group refers' found' | missing refers' found' =>
      obtain rfl := Option.some.inj (refers.symm.trans refers')
      cases kept.symm.trans found'
  | @missing first q rest out refers absent after ih =>
    -- the particle stands for nothing here; what it stands for in the larger set may only add
    have later {el : XsdElement} (here : ReferenceSeen flat whole first)
        (seen : ∀ el, Particle flat rest el → ReferenceSeen flat whole el)
        (particle : Particle flat (first :: rest) el) : ReferenceSeen flat whole el := by
      rcases particle_cons particle with rfl | ⟨q, group, again, foundAgain, _⟩ | later
      · exact here
      · obtain rfl := Option.some.inj (refers.symm.trans again)
        cases absent.symm.trans foundAgain
      · exact seen el later
    cases wholly with
    | own plain => rw [refers] at plain; cases plain
    | group refers' found' inside' after' =>
      obtain rfl := Option.some.inj (refers.symm.trans refers')
      obtain ⟨sub, seen⟩ := ih after'
      refine ⟨(List.nil_sublist _).append sub, fun same el particle => ?_⟩
      obtain ⟨nothing, rest⟩ := append_eq_append_of_sublist (List.nil_sublist _) sub same
      refine later (fun q again => ?_) (seen rest) particle
      obtain rfl := Option.some.inj (refers.symm.trans again)
      have expands := Expands.group refers found' inside' .nil
      rw [← nothing] at expands
      exact .inr ⟨absent, expands⟩
    | element refers' found' after' =>
      obtain ⟨sub, _⟩ := ih after'
      refine ⟨sub.cons _, fun same => ?_⟩
      have lengths := sub.length_le
      rw [same, List.length_cons] at lengths
      omega
    | missing refers' absent' after' =>
      obtain ⟨sub, seen⟩ := ih after'
      refine ⟨sub, fun same el particle => later (fun q again => ?_) (seen same) particle⟩
      obtain rfl := Option.some.inj (refers.symm.trans again)
      obtain rfl := Option.some.inj (refers.symm.trans refers')
      exact .inl (absent.trans absent'.symm)

theorem Contributes.sublist {qs : List QName} {out out' : List XsdElement}
    (keeps : Keeps flat whole) (contributes : Contributes flat qs out)
    (wholly : Contributes whole qs out') :
    out.Sublist out' ∧ (out = out' → Visible flat whole qs) := by
  -- on the walk over the flat schemas, which the walk over the whole ones goes along with
  induction contributes generalizing out' with
  | nil =>
    cases wholly
    refine ⟨.slnil, fun _ => ⟨fun q ancestor => ?_, fun q raw el ancestor => ?_⟩⟩
    · cases ancestor with
      | self member | above member => cases member
    · cases ancestor with
      | self member | above member => cases member
  | @undeclared q rest out absent after ih =>
    -- a name without a type has no ancestors, so only the rest of the names matters
    have cons (here : TypeSeen flat whole q) (visible : Visible flat whole rest) :
        Visible flat whole (q :: rest) := by
      constructor
      · intro r ancestor
        rcases ancestor_cons ancestor with rfl | ⟨raw, found, _⟩ | later
        · exact here
        · cases absent.symm.trans found
        · exact visible.types r later
      · intro r raw el ancestor found particle
        rcases ancestor_cons ancestor with rfl | ⟨raw', found', _⟩ | later
        · cases absent.symm.trans found
        · cases absent.symm.trans found'
        · exact visible.references r raw el later found particle
    cases wholly with
    | undeclared absent' after' =>
      obtain ⟨sub, visible⟩ := ih after'
      exact ⟨sub, fun same => cons (.inl (absent.trans absent'.symm)) (visible same)⟩
    | declared found' above' particles' after' =>
      obtain ⟨sub, visible⟩ := ih after'
      refine ⟨(List.nil_sublist _).append sub, fun same => ?_⟩
      obtain ⟨nothing, rest⟩ := append_eq_append_of_sublist (List.nil_sublist _) sub same
      -- the whole schemas declare a type that gives nothing
      have contributes := Contributes.declared found' above' particles' .nil
      rw [← nothing] at contributes
      exact cons (.inr ⟨absent, contributes⟩) (visible rest)
  | @declared q raw rest ancestors own out found above particles after aboveIH afterIH =>
    have kept := keeps.types _ _ found
    cases wholly with
    | undeclared absent' => cases kept.symm.trans absent'
    | declared found' above' particles' after' =>
      obtain rfl := Option.some.inj (kept.symm.trans found')
      obtain ⟨aboveSub, aboveVisible⟩ := aboveIH above'
      obtain ⟨ownSub, ownSeen⟩ := particles.sublist keeps particles'
      obtain ⟨afterSub, afterVisible⟩ := afterIH after'
      refine ⟨(aboveSub.append ownSub).append afterSub, fun same => ?_⟩
      -- equal in all means equal in each of the three parts, as each is a sublist of its own
      obtain ⟨here, afterSame⟩ := append_eq_append_of_sublist (aboveSub.append ownSub) afterSub same
      obtain ⟨aboveSame, ownSame⟩ := append_eq_append_of_sublist aboveSub ownSub here
      constructor
      · intro r ancestor
        rcases ancestor_cons ancestor with rfl | ⟨raw', foundAgain, higher⟩ | later
        · exact .inl (found.trans kept.symm)
        · obtain rfl := Option.some.inj (found.symm.trans foundAgain)
          exact (aboveVisible aboveSame).types r higher
        · exact (afterVisible afterSame).types r later
      · intro r raw' el ancestor declared particle
        rcases ancestor_cons ancestor with rfl | ⟨_, foundAgain, higher⟩ | later
        · obtain rfl := Option.some.inj (found.symm.trans declared)
          exact ownSeen ownSame el particle
        · obtain rfl := Option.some.inj (found.symm.trans foundAgain)
          exact (aboveVisible aboveSame).references r raw' el higher declared particle
        · exact (afterVisible afterSame).references r raw' el later declared particle

end SoapServer.Xsd
