import SoapServer.Crossref.UsedNamespaces
import SoapServer.Markup.Composition

/-! What the harness writes for a document under canonical prefixes: each expanded name under the
one name it gets, whatever its prefix was.
-/

set_option autoImplicit false

namespace SoapServer.Crossref

open Markup hiding localName
open Transducers (run run_nil_eq_ok run_cons_eq_ok run_append_eq_ok)
open Loops

/-- The name that an expanded name gets. -/
def canonName (prefixes : PrefixMap) (x : ExpandedName) : Text :=
  match x.ns with
  | .bound uri =>
    qualified (if uri = xmlNamespace then xmlText else (prefixes.lookup uri).getD []) x.localName
  | .unbound | .unknown _ => x.localName

def canonAttributes (prefixes : PrefixMap)
    (attributes : List (ExpandedName × Text)) : List Attribute :=
  sortByKey (attributes.map fun a => ⟨canonName prefixes a.1, a.2⟩)

/-- The tag of an element by its expanded names and the values of its attributes. -/
def expandedTag (prefixes : PrefixMap) (isRoot : Bool) (x : ExpandedName)
    (attributes : List (ExpandedName × Text)) : Tag :=
  ⟨canonName prefixes x, (if isRoot then rootDeclarations prefixes else []) ++
    (canonAttributes prefixes attributes).map writtenAttribute⟩

def canonicalTag (prefixes : PrefixMap) (isRoot : Bool) (scope : Scope) (tag : Tag) : Tag :=
  expandedTag prefixes isRoot (elementName scope tag.name) (expandedAttributes scope tag.attributes)

/-- Character data stays, the rest is left out. -/
def canonData : Data → Text
  | .text raw => (Data.text raw).write
  | .cdata raw => (Data.cdata raw).write
  | .generalRef name => (Data.generalRef name).write
  | .comment _ | .pi _ | .decl _ | .docType _ => []

/-- A document under canonical prefixes. The first element declares them. -/
def canonContent (prefixes : PrefixMap) : Bool → Scope → Content → Content
  | _, _, .nil => .nil
  | isRoot, scope, .data d rest =>
    match d with
    | .text _ | .cdata _ | .generalRef _ => .data d (canonContent prefixes isRoot scope rest)
    | .comment _ | .pi _ | .decl _ | .docType _ => canonContent prefixes isRoot scope rest
  | isRoot, scope, .empty tag rest =>
    .empty (canonicalTag prefixes isRoot (scope.enter tag.attributes) tag) (canonContent prefixes false scope rest)
  | isRoot, scope, .element tag kids rest =>
    .element (canonicalTag prefixes isRoot (scope.enter tag.attributes) tag)
      (canonContent prefixes false (scope.enter tag.attributes) kids) (canonContent prefixes false scope rest)

/-- The tags that the second pass takes. -/
structure Accepted (scope : Scope) (tag : Tag) : Prop where
  literal : XmlLiteral tag
  notXml : resolveElement (scope.enter tag.attributes) tag.name ≠ .bound xmlNamespace

/-- Every namespace among these has a prefix. -/
def Covers (prefixes : PrefixMap) (uris : List Text) : Prop :=
  ∀ uri ∈ uris, ∃ i, prefixes.lookup uri = some (indexPrefix i)

variable {prefixes : PrefixMap} {scope : Scope} {tag : Tag} {events : List RawEvent} {c : Content}

theorem localNameStr_eq {name : Text} (isQName : IsQName name) :
    localNameStr name = Markup.localName name := by
  have ending {before l : Text} (plain : ':' ∉ l) : localNameStr (before ++ ':' :: l) = l := by
    have inside : ∀ c ∈ l.reverse, decide (c ≠ ':') = true := fun c member => by
      rw [decide_eq_true_eq]
      rintro rfl
      exact plain (List.mem_reverse.mp member)
    rw [localNameStr, List.reverse_append, List.reverse_cons, List.append_assoc,
      List.takeWhile_append_of_pos inside]
    simp
  unfold IsQName at isQName
  unfold Markup.localName
  split
  next pre l split =>
    rw [split] at isQName
    rw [(splitOnce_eq_some split).1]
    exact ending isQName.2.no_colon
  next split =>
    rw [split] at isQName
    have inside : ∀ c ∈ name.reverse, decide (c ≠ ':') = true := fun c member => by
      rw [decide_eq_true_eq]
      rintro rfl
      exact isQName.no_colon (List.mem_reverse.mp member)
    rw [localNameStr, ← List.append_nil name.reverse, List.takeWhile_append_of_pos inside]
    simp

theorem canonAttribute_eq (proper : ProperScope NamespaceName scope) {a : Attribute}
    (known : a.declares = none → (resolveAttribute scope a.key).known = true)
    (covers : a.declares = none → Covers prefixes (nameUris (attributeName scope a.key))) :
    canonAttribute scope prefixes a =
      if a.declares.isNone then some ⟨canonName prefixes (attributeName scope a.key), a.value⟩ else none := by
  unfold canonAttribute
  cases declared : a.declares with
  | some p => rfl
  | none =>
    have known := known declared
    have covers := covers declared
    simp only [Option.isSome_none, Bool.false_eq_true, if_false, Option.isNone_none, if_true]
    -- the prefix `xml` is kept as it is written
    by_cases isXml : isXmlKey a.key = true
    · obtain ⟨l, whole, resolved⟩ := isXmlKey_resolves proper isXml
      have same : canonName prefixes ⟨.bound xmlNamespace, l⟩ = a.key := by
        rw [whole]
        rfl
      rw [if_pos isXml, resolved, same]
    · rw [if_neg isXml]
      cases split : splitOnce ':' a.key with
      | none =>
        -- without a prefix an attribute has no namespace
        have resolved : attributeName scope a.key = ⟨.unbound, a.key⟩ := by
          rw [attributeName, resolveAttribute, Markup.localName, split]
        rw [resolved]
        rfl
      | some parts =>
        obtain ⟨pre, l⟩ := parts
        simp only
        cases resolved : resolveAttribute scope a.key with
        -- a prefix resolves to a namespace or not at all
        | unbound =>
          rw [resolveAttribute, split] at resolved
          simp only at resolved
          unfold resolvePrefix at resolved
          split at resolved <;> cases resolved
        | unknown p =>
          rw [resolved] at known
          cases known
        | bound uri =>
          have name : attributeName scope a.key = ⟨.bound uri, l⟩ := by
            rw [attributeName, resolved, Markup.localName, split]
          have other : pre ≠ xmlText := by
            rintro rfl
            have whole : a.key = "xml:".toList ++ l := (splitOnce_eq_some split).1
            exact isXml (Option.isSome_iff_exists.mpr ⟨l, stripPrefix_eq_some.mpr whole⟩)
          have notXml : uri ≠ xmlNamespace := by
            rw [resolveAttribute, split] at resolved
            exact ((proper.bound resolved).resolve_left fun both => other both.1).notXml
          obtain ⟨i, found⟩ := covers uri (mem_nameUris.mpr ⟨by rw [name], notXml⟩)
          rw [name]
          simp only [found, canonName, if_neg notXml, Option.getD_some]
          rfl

theorem canonAttributes_eq (proper : ProperScope NamespaceName scope) {attributes : List Attribute}
    (known : ∀ a ∈ attributes, a.declares = none → (resolveAttribute scope a.key).known = true)
    (covers : Covers prefixes ((attributeNames scope attributes).flatMap nameUris)) :
    attributes.filterMap (canonAttribute scope prefixes) =
      (expandedAttributes scope attributes).map fun a => ⟨canonName prefixes a.1, a.2⟩ := by
  have each : attributes.filterMap (canonAttribute scope prefixes) = attributes.filterMap fun a =>
      if a.declares.isNone then some ⟨canonName prefixes (attributeName scope a.key), a.value⟩ else none := by
    refine List.filterMap_congr fun a member =>
      canonAttribute_eq proper (known a member) fun declared uri used => ?_
    refine covers uri (List.mem_flatMap.mpr ⟨attributeName scope a.key, ?_, used⟩)
    exact List.mem_map.mpr ⟨a, List.mem_filter.mpr ⟨member, by rw [declared]; rfl⟩, rfl⟩
  rw [each, ← List.filterMap_filter, expandedAttributes, List.map_map, ← List.filterMap_eq_map]
  rfl

/-- The prefix of a name that is not in the namespace of `xml`. -/
def canonPrefix (prefixes : PrefixMap) : ResolveResult → Text
  | .bound uri => (prefixes.lookup uri).getD []
  | .unbound | .unknown _ => []

theorem resolvedCanonicalPrefix_eq_ok (noXml : prefixes.lookup xmlNamespace = none)
    {x : ExpandedName} (known : x.ns.known = true) (covers : Covers prefixes (nameUris x))
    {p : Text} :
    resolvedCanonicalPrefix x.ns prefixes = .ok p ↔ x.ns ≠ .bound xmlNamespace ∧ p = canonPrefix prefixes x.ns := by
  unfold resolvedCanonicalPrefix
  cases resolved : x.ns with
  | unbound => simp [canonPrefix, eq_comm]
  | unknown q =>
    rw [resolved] at known
    cases known
  | bound uri =>
    by_cases same : uri = xmlNamespace
    · simp [same, noXml]
    · obtain ⟨i, found⟩ := covers uri (mem_nameUris.mpr ⟨resolved, same⟩)
      simp [found, canonPrefix, same, eq_comm]

theorem qualified_canonPrefix {x : ExpandedName} (notXml : x.ns ≠ .bound xmlNamespace) :
    qualified (canonPrefix prefixes x.ns) x.localName = canonName prefixes x := by
  unfold canonName
  cases resolved : x.ns with
  | unbound | unknown p => rfl
  | bound uri =>
    have other : uri ≠ xmlNamespace := fun same => notXml (same ▸ resolved)
    simp only [if_neg other]
    rfl

theorem qualified_localName {inner : Scope} (name : IsQName tag.name)
    (notXml : resolveElement inner tag.name ≠ .bound xmlNamespace) :
    qualified (canonPrefix prefixes (resolveElement inner tag.name)) (localName tag.read) =
      canonName prefixes (elementName inner tag.name) := by
  rw [localName, Tag.read, localNameStr_eq name]
  exact @qualified_canonPrefix prefixes (elementName inner tag.name) notXml

/-- What is done at a tag: it is read in its scope and written in its canonical form. -/
theorem canonScope_read {σ : Type} (noXml : prefixes.lookup xmlNamespace = none)
    (sound : ScopedTag scope tag) (proper : ProperScope NamespaceName scope)
    (covers : Covers prefixes (tagUris (scope.enter tag.attributes) tag)) (isRoot isEmpty : Bool)
    {next : Scope → Text → Text → Except Failure σ} {t : σ} :
    (pushScope scope tag.read >>= fun inner => resolvedCanonicalPrefix (resolveElement inner tag.name) prefixes >>= fun cpfx =>
      emitCanonStart tag.read cpfx (localName tag.read) prefixes inner isRoot isEmpty >>= next inner cpfx) = .ok t ↔
        Accepted scope tag ∧
          next (scope.enter tag.attributes) (canonPrefix prefixes (resolveElement (scope.enter tag.attributes) tag.name))
            (tagSource isEmpty (canonicalTag prefixes isRoot (scope.enter tag.attributes) tag)) = .ok t := by
  -- the prefixes cover each namespace that the tag uses
  have covered : Covers prefixes (nameUris (elementName (scope.enter tag.attributes) tag.name)) :=
    fun uri used => covers uri (List.mem_append_left _ used)
  have resolved {p : Text} : resolvedCanonicalPrefix (resolveElement (scope.enter tag.attributes) tag.name) prefixes = .ok p ↔
      resolveElement (scope.enter tag.attributes) tag.name ≠ .bound xmlNamespace ∧
        p = canonPrefix prefixes (resolveElement (scope.enter tag.attributes) tag.name) :=
    @resolvedCanonicalPrefix_eq_ok prefixes noXml (elementName _ _) sound.element covered p
  -- where the tag is accepted, what is emitted is the canonical tag
  have written (literal : XmlLiteral tag) (notXml : resolveElement (scope.enter tag.attributes) tag.name ≠ .bound xmlNamespace) :
      emitCanonStart tag.read (canonPrefix prefixes (resolveElement (scope.enter tag.attributes) tag.name))
        (localName tag.read) prefixes (scope.enter tag.attributes) isRoot isEmpty =
          .ok (tagSource isEmpty (canonicalTag prefixes isRoot (scope.enter tag.attributes) tag)) := by
    have attributes := canonAttributes_eq (proper.enter (sound.declares literal)) sound.known
      fun uri used => covers uri (List.mem_append_right _ used)
    rw [emitCanonStart, allAttributes_read sound.unique]
    change Except.ok (tagSource isEmpty (canonTag _ _ _ _ _ _)) = _
    rw [canonTag, attributes, qualified_localName sound.name notXml]
    rfl
  rw [bind_eq_ok]
  constructor
  · rintro ⟨inner, pushed, ran⟩
    obtain ⟨literal, rfl⟩ := (pushScope_read sound).mp pushed
    obtain ⟨cpfx, found, ran⟩ := bind_eq_ok.mp ran
    obtain ⟨notXml, rfl⟩ := resolved.mp found
    rw [written literal notXml] at ran
    exact ⟨⟨literal, notXml⟩, ran⟩
  · rintro ⟨⟨literal, notXml⟩, ran⟩
    refine ⟨_, (pushScope_read sound).mpr ⟨literal, rfl⟩,
      bind_eq_ok.mpr ⟨_, resolved.mpr ⟨notXml, rfl⟩, ?_⟩⟩
    rw [written literal notXml]
    exact ran

theorem write_empty (tag : Tag) (rest : Content) :
    (Content.empty tag rest).write = tagSource true tag ++ rest.write := by
  simp [Content.write, tagSource, emptyText]

theorem write_element (tag : Tag) (kids rest : Content) :
    (Content.element tag kids rest).write = tagSource false tag ++ (kids.write ++ (closeTag tag.name ++ rest.write)) := by
  simp [Content.write, tagSource, startText]

theorem canonContent_data_write (prefixes : PrefixMap) (isRoot : Bool) (scope : Scope) (d : Data)
    (rest : Content) :
    (canonContent prefixes isRoot scope (.data d rest)).write =
      canonData d ++ (canonContent prefixes isRoot scope rest).write := by
  cases d <;> rfl

/-- The second pass takes the documents with accepted tags, and writes their canonical form. -/
theorem run_canonEvent (denotes : Denotes events c) (noXml : prefixes.lookup xmlNamespace = none)
    {scopes : List Scope} {isRoot : Bool} {stack : List (Text × Text)} {out : Text} {t : CanonState}
    (sound : c.AllScoped ScopedTag (currentScope scopes))
    (proper : ProperScope NamespaceName (currentScope scopes))
    (covers : Covers prefixes (namesUris (c.names (currentScope scopes)))) :
    run (eachEvent (canonEvent prefixes)) ⟨scopes, isRoot, stack⟩ (stream events) = .ok (out, t) ↔
      c.AllScoped Accepted (currentScope scopes) ∧ out = (canonContent prefixes isRoot (currentScope scopes) c).write ∧
        t = ⟨scopes, isRoot && c.elements.isEmpty, stack⟩ := by
  induction denotes generalizing scopes isRoot stack out t with
  | nil =>
    rw [stream_nil, run_nil_eq_ok]
    simp [Content.AllScoped, canonContent, Content.write, Content.elements]
  | @data d events c _ _ ih =>
    have step : eachEvent (canonEvent prefixes) ⟨scopes, isRoot, stack⟩ (.ok (.data d)) =
        .ok (canonData d, ⟨scopes, isRoot, stack⟩) := by
      cases d <;> rfl
    have after (out : Text) (t : CanonState) := @ih scopes isRoot stack out t sound proper covers
    rw [stream_cons, run_cons_eq_ok, canonContent_data_write]
    constructor
    · rintro ⟨written, mid, later, stepped, ran, rfl⟩
      obtain ⟨rfl, rfl⟩ := Prod.mk.inj (Except.ok.inj (step.symm.trans stepped))
      obtain ⟨accepted, rfl, rfl⟩ := (after _ _).mp ran
      exact ⟨accepted, rfl, rfl⟩
    · rintro ⟨accepted, rfl, rfl⟩
      exact ⟨_, _, _, step, (after _ _).mpr ⟨accepted, rfl, rfl⟩, rfl⟩
  | @empty body tag events c text _ ih =>
    have step := @canonScope_read prefixes _ tag _ noXml sound.1 proper
      (fun uri used => covers uri (List.mem_append_left _ used)) isRoot true fun _ _ written =>
        Except.ok (written, CanonState.mk scopes false stack)
    have after (out : Text) (t : CanonState) := @ih scopes false stack out t sound.2 proper
      fun uri used => covers uri (List.mem_append_right _ used)
    rw [stream_cons, run_cons_eq_ok, canonContent, write_empty, Content.elements, List.isEmpty_cons,
      Bool.and_false]
    constructor
    · rintro ⟨written, mid, later, stepped, ran, rfl⟩
      obtain ⟨accepted, ⟨⟩⟩ := step.mp stepped
      obtain ⟨others, rfl, rfl⟩ := (after _ _).mp ran
      exact ⟨⟨accepted, others⟩, rfl, by rw [Bool.false_and]⟩
    · rintro ⟨accepted, rfl, rfl⟩
      exact ⟨_, _, _, step.mpr ⟨accepted.1, rfl⟩,
        (after _ _).mpr ⟨accepted.2, rfl, by rw [Bool.false_and]⟩, rfl⟩
  | @element body space tag inside events kids c text _ _ _ innerIH moreIH =>
    have step := @canonScope_read prefixes _ tag _ noXml sound.1 proper
      (fun uri used => covers uri (List.mem_append_left _ used)) isRoot false fun inner cpfx written =>
        Except.ok (written, CanonState.mk (inner :: scopes) false ((cpfx, localName tag.read) :: stack))
    have inner (literal : XmlLiteral tag) (stack : List (Text × Text)) (out : Text) (t : CanonState) :=
      @innerIH ((currentScope scopes).enter tag.attributes :: scopes) false stack out t sound.2.1
        (proper.enter (sound.1.declares literal))
        fun uri used => covers uri (List.mem_append_right _ (List.mem_append_left _ used))
    have after (out : Text) (t : CanonState) := @moreIH scopes false stack out t sound.2.2 proper
      fun uri used => covers uri (List.mem_append_right _ (List.mem_append_right _ used))
    -- the end tag is written from the stack, under the name of the start tag
    have close (notXml : resolveElement ((currentScope scopes).enter tag.attributes) tag.name ≠ .bound xmlNamespace) :
        eachEvent (canonEvent prefixes) ⟨(currentScope scopes).enter tag.attributes :: scopes, false,
          (canonPrefix prefixes (resolveElement ((currentScope scopes).enter tag.attributes) tag.name),
            localName tag.read) :: stack⟩
          (.ok (.close tag.name space)) =
        .ok (closeTag (canonicalTag prefixes isRoot ((currentScope scopes).enter tag.attributes) tag).name, ⟨scopes, false, stack⟩) := by
      have name : qualified _ _ = (canonicalTag prefixes isRoot _ tag).name :=
        qualified_localName sound.1.name notXml
      rw [← name]
      rfl
    rw [stream_cons, stream_append, stream_cons, run_cons_eq_ok, canonContent, write_element,
      Content.elements, List.isEmpty_cons, Bool.and_false]
    constructor
    · rintro ⟨written, mid, later, stepped, ran, rfl⟩
      obtain ⟨accepted, ⟨⟩⟩ := step.mp stepped
      obtain ⟨inWritten, closing, rest, innerRan, ran, rfl⟩ := run_append_eq_ok.mp ran
      obtain ⟨within, rfl, rfl⟩ := (inner accepted.literal _ _ _).mp innerRan
      obtain ⟨closed, last, rest, stepped, ran, rfl⟩ := run_cons_eq_ok.mp ran
      obtain ⟨rfl, rfl⟩ := Prod.mk.inj (Except.ok.inj ((close accepted.notXml).symm.trans stepped))
      obtain ⟨others, rfl, rfl⟩ := (after _ _).mp ran
      exact ⟨⟨accepted, within, others⟩, rfl, by rw [Bool.false_and]⟩
    · rintro ⟨⟨accepted, within, others⟩, rfl, rfl⟩
      have ending := run_cons_eq_ok.mpr ⟨_, _, _, close accepted.notXml,
        (after _ _).mpr ⟨others, rfl, rfl⟩, rfl⟩
      have both := run_append_eq_ok.mpr ⟨_, _, _,
        (inner accepted.literal _ _ _).mpr ⟨within, rfl, rfl⟩, ending, rfl⟩
      exact ⟨_, _, _, step.mpr ⟨accepted, rfl⟩, both, rfl⟩

/-- The prefixes for a document. -/
def prefixesOf (c : Content) : PrefixMap := uriToPrefix (usedUris c)

def canonDocument (c : Content) : Content := canonContent (prefixesOf c) true Scope.initial c

theorem mem_usedUris {uri : Text} : uri ∈ usedUris c ↔ uri ∈ namesUris (c.names Scope.initial) := by
  rw [usedUris, SortedSets.mem_insertAll]
  exact or_iff_left List.not_mem_nil

theorem usedUris_ascending (c : Content) : SortedSets.Ascending (usedUris c) :=
  SortedSets.ascending_nil.insertAll _

theorem prefixesOf_proper (c : Content) :
    ProperMap (prefixesOf c) := uriToPrefix_proper (usedUris_ascending c).nodup

theorem prefixesOf_covers (c : Content) :
    Covers (prefixesOf c) (namesUris (c.names Scope.initial)) := by
  intro uri used
  obtain ⟨p, found⟩ := uriToPrefix_covers (mem_usedUris.mpr used)
  obtain ⟨i, rfl⟩ := (prefixesOf_proper c).prefix_of_lookup found
  exact ⟨i, found⟩

theorem namesUris_notXml {uri : Text} (names : Names) (used : uri ∈ namesUris names) :
    uri ≠ xmlNamespace := by
  induction names with
  | nil => cases used
  | element name attributes kids rest kidsIH restIH =>
    rcases List.mem_append.mp used with own | used
    · rcases List.mem_append.mp own with own | own
      · exact (mem_nameUris.mp own).2
      · obtain ⟨x, _, own⟩ := List.mem_flatMap.mp own
        exact (mem_nameUris.mp own).2
    · exact (List.mem_append.mp used).elim kidsIH restIH

theorem prefixesOf_noXml (c : Content) : (prefixesOf c).lookup xmlNamespace = none :=
  uriToPrefix_lookup_none fun used => namesUris_notXml _ (mem_usedUris.mp used) rfl

/-- The harness takes the documents with accepted tags, and writes their canonical form. -/
theorem canonicalizePrefixes_eq_ok {reader : RawReader} {xml out : Text}
    (document : Reports reader xml events c) (sound : c.AllScoped ScopedTag Scope.initial) :
    canonicalizePrefixes reader xml = .ok out ↔ c.AllScoped Accepted Scope.initial ∧ out = (canonDocument c).write := by
  have second {t : CanonState} := @run_canonEvent (prefixesOf c) events c document.denotes (prefixesOf_noXml c) [] true []
    out t sound (properScope_initial _) (prefixesOf_covers c)
  rw [canonicalizePrefixes, bind_eq_ok]
  constructor
  · rintro ⟨uris, first, ran⟩
    obtain ⟨_, rfl⟩ := (collectUsedUris_eq_ok document sound).mp first
    rw [rewriteAll, document.reads] at ran
    obtain ⟨⟨written, t⟩, passed, same⟩ := map_eq_ok.mp ran
    cases same
    obtain ⟨accepted, same, _⟩ := second.mp passed
    exact ⟨accepted, same⟩
  · rintro ⟨accepted, same⟩
    have literals : c.AllTags XmlLiteral := accepted.allTags fun _ _ tag => tag.literal
    refine ⟨usedUris c, (collectUsedUris_eq_ok document sound).mpr ⟨literals, rfl⟩, ?_⟩
    rw [rewriteAll, document.reads, map_eq_ok]
    exact ⟨(out, _), second.mpr ⟨accepted, same, rfl⟩, rfl⟩

end SoapServer.Crossref
