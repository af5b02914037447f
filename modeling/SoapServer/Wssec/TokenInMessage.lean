import SoapServer.Server.AuthenticationGate
import SoapServer.Wssec.TokenNamespaces

/-! A token in the header of a message: wherever its two namespaces are declared, the server finds
its header and reads the token back.

The parts of a token declare nothing, so a reader that starts from other bindings of `wsse` and `wsu`
makes the same of them.
-/

set_option autoImplicit false

namespace SoapServer

open Markup
open Envelope

/-! The choice of the security header, by the name of its root. -/

def securityName : QName := .new Wssec.wsseNs "Security".toList

/-- Only the name itself has this key. -/
theorem expandedQName_security {name : ExpandedName} (key : expandedQName name = securityName) :
    name = ⟨.bound Wssec.wsseNs, "Security".toList⟩ := by
  obtain ⟨ns, l⟩ := name
  have nonempty : Wssec.wsseNs ≠ [] := by decide
  unfold expandedQName at key
  split at key
  · cases key
  · obtain ⟨uri, rfl⟩ := QName.mk.inj key
    cases ns with
    | bound found => rw [← Option.some.inj uri]; rfl
    | unbound | unknown p => exact absurd (Option.some.inj uri).symm nonempty

theorem isSecurity_iff {events : Events} : isSecurity events = true ↔
    rootQName events = .ok securityName := by
  refine ⟨Server.isSecurity_root, fun root => ?_⟩
  fun_induction isSecurity events with
  | case1 => cases root
  | case2 => cases root
  | case3 ns tag rest | case4 ns tag rest =>
    obtain ⟨found, name⟩ := ExpandedName.mk.inj (expandedQName_security (Except.ok.inj root))
    simp [name, found]
  | case5 ns name rest ih => exact ih root
  | case6 ns data rest ih => exact ih root

namespace Wssec

variable {ext : Externals} {token : UsernameToken}

/-! The parts of a token under other bindings. -/

/-- The reader's bindings that a token relies on. -/
structure Binds (nsMap : List (Text × Text)) : Prop where
  wsse : nsMap.lookup "wsse".toList = some wsseNs
  wsu : nsMap.lookup "wsu".toList = some wsuNs

/-- A tag under one of the two prefixes that declares nothing. -/
structure Fielded (tag : Tag) : Prop where
  unique : tag.Unique
  bare : declarations tag.attributes = []
  named : (splitName tag.name).1 = some "wsse".toList ∨ (splitName tag.name).1 = some "wsu".toList

instance (tag : Tag) : Decidable (Fielded tag) :=
  decidable_of_iff (tag.Unique ∧ declarations tag.attributes = [] ∧
    ((splitName tag.name).1 = some "wsse".toList ∨ (splitName tag.name).1 = some "wsu".toList))
    ⟨fun h => ⟨h.1, h.2.1, h.2.2⟩, fun h => ⟨h.unique, h.bare, h.named⟩⟩

namespace TokenState

/-- The state of a reader that has met these declarations instead. -/
def under (nsMap : List (Text × Text)) (st : TokenState) : TokenState := { st with nsMap }

variable {nsMap : List (Text × Text)} {st : TokenState}

theorem finish_under (nsMap : List (Text × Text)) (st : TokenState) :
    (st.under nsMap).finish = st.finish := rfl

theorem text_under (raw : Text) : (st.under nsMap).text raw = (st.text raw).under nsMap := by
  obtain ⟨_, _, _, _, _, _, _, inUsername, inPassword, inNonce, inCreated, _⟩ := st
  cases inUsername <;> cases inPassword <;> cases inNonce <;> cases inCreated <;> rfl

theorem close_under (name : Text) : (st.under nsMap).close name = (st.close name).under nsMap := by
  cases st
  simp only [close, under]
  split_ifs <;> rfl

theorem data_under (d : Data) :
    (st.under nsMap).step (.data d) = (st.step (.data d)).under nsMap := by
  cases d with
  | text raw => exact text_under raw
  | _ => rfl

theorem opens_under (st : TokenState) (attributes : List (Option Attribute))
    (kind : Option TokenElement) :
    (st.under nsMap).opens attributes kind = (st.opens attributes kind).under nsMap ∧
      (st.opens attributes kind).nsMap = st.nsMap := by
  cases kind with
  | none => exact ⟨rfl, rfl⟩
  | some kind => cases kind <;> exact ⟨rfl, rfl⟩

variable {tag : Tag}

theorem collect_fielded (fielded : Fielded tag) (nsMap : List (Text × Text)) :
    collectNsAttrs tag.read.attributes nsMap = nsMap := by
  rw [Tag.read_of_unique fielded.unique, collectNsAttrs_eq, fielded.bare]
  rfl

theorem resolve_fielded (fielded : Fielded tag) (binds : Binds nsMap) (known : Binds st.nsMap) :
    resolveNs (splitName tag.name).1 nsMap = resolveNs (splitName tag.name).1 st.nsMap := by
  rcases fielded.named with named | named
  · rw [named, resolveNs, resolveNs]
    exact binds.wsse.trans known.wsse.symm
  · rw [named, resolveNs, resolveNs]
    exact binds.wsu.trans known.wsu.symm

theorem start_under (fielded : Fielded tag) (binds : Binds nsMap) (known : Binds st.nsMap) :
    (st.under nsMap).start tag.read = (st.start tag.read).under nsMap ∧
      (st.start tag.read).nsMap = st.nsMap := by
  have same : (st.under nsMap).namespaceOf tag.read = st.namespaceOf tag.read := by
    simp only [namespaceOf, collect_fielded fielded]
    exact resolve_fielded fielded binds known
  rw [start_opens, start_opens, same]
  simp only [collect_fielded fielded]
  exact st.opens_under tag.read.attributes
    (tokenElement (splitName tag.read.name).2 (st.namespaceOf tag.read) st.inUsernameToken)

theorem empty_under (fielded : Fielded tag) (binds : Binds nsMap) (known : Binds st.nsMap) :
    (st.under nsMap).empty tag.read = (st.empty tag.read).under nsMap ∧
      (st.empty tag.read).nsMap = st.nsMap := by
  have same := resolve_fielded fielded binds known
  simp only [empty, under, collect_fielded fielded, Tag.read_name, same]
  split_ifs
  · exact ⟨rfl, rfl⟩
  · exact ⟨rfl, rfl⟩

/-- Over parts of a token, the bindings a reader started from make no difference. -/
theorem foldl_under {c : Content} (fielded : c.AllTags Fielded) (binds : Binds nsMap)
    (st : TokenState) (known : Binds st.nsMap) :
    c.events.foldl step (st.under nsMap) = (c.events.foldl step st).under nsMap ∧
      (c.events.foldl step st).nsMap = st.nsMap := by
  induction c generalizing st with
  | nil => exact ⟨rfl, rfl⟩
  | data d rest ih =>
    have kept := nsMap_data st d
    simp only [Content.events, List.foldl_cons]
    rw [data_under, ← kept]
    exact ih fielded _ (kept ▸ known)
  | empty tag rest ih =>
    obtain ⟨moved, kept⟩ := empty_under fielded.1 binds known
    simp only [Content.events, List.foldl_cons, step]
    rw [moved, ← kept]
    exact ih fielded.2 _ (kept ▸ known)
  | element tag kids rest kidsIH restIH =>
    obtain ⟨moved, kept⟩ := start_under fielded.1 binds known
    obtain ⟨inside, keptInside⟩ := kidsIH fielded.2.1 (st.start tag.read) (kept ▸ known)
    have closed := nsMap_close (kids.events.foldl step (st.start tag.read)) tag.name
    have all : (step (kids.events.foldl step (st.start tag.read)) (.close tag.name)).nsMap = st.nsMap :=
      closed.trans (keptInside.trans kept)
    simp only [Content.events, List.foldl_cons, List.foldl_append, step] at all ⊢
    rw [moved, inside, close_under, ← all]
    exact restIH fielded.2.2 _ (all ▸ known)

end TokenState

/-! A token in an element. -/

/-- The token without the `Security` around it. -/
def UsernameToken.inner (token : UsernameToken) : Content :=
  .element ⟨"wsse:UsernameToken".toList, []⟩ token.fields .nil

/-- A token inside a `Security` element with these attributes. -/
def UsernameToken.element (token : UsernameToken) (attributes : List Attribute) : Element :=
  ⟨⟨"wsse:Security".toList, attributes⟩, some token.inner⟩

theorem UsernameToken.inner_fielded (token : UsernameToken) : token.inner.AllTags Fielded := by
  obtain ⟨username, password, passwordType, nonce, created⟩ := token
  have named : Fielded ⟨"wsse:UsernameToken".toList, []⟩ ∧ Fielded ⟨"wsse:Username".toList, []⟩ ∧
      Fielded ⟨"wsse:Nonce".toList, []⟩ ∧ Fielded ⟨"wsu:Created".toList, []⟩ := by decide
  have typed : Fielded ⟨"wsse:Password".toList, [⟨"Type".toList, passwordType.uri⟩]⟩ := by
    cases passwordType <;> decide
  obtain ⟨outer, user, nonces, times⟩ := named
  refine ⟨outer, ⟨user, trivial, typed, trivial, ?_⟩, trivial⟩
  cases nonce <;> cases created
  · trivial
  · exact ⟨times, trivial, trivial⟩
  · exact ⟨nonces, trivial, trivial⟩
  · exact ⟨nonces, trivial, times, trivial, trivial⟩

theorem UsernameToken.inner_kept (token : UsernameToken) : token.inner.kept = token.inner := by
  obtain ⟨username, password, passwordType, nonce, created⟩ := token
  cases nonce <;> cases created <;> rfl

/-- The fragment for a token is the token with more declarations around it. -/
theorem UsernameToken.fragment_element (token : UsernameToken) (bindings : Scope)
    (attributes : List Attribute) :
    ∃ declared, fragment bindings (token.element attributes) = token.element declared :=
  ⟨bindingAttributes (inherited bindings (token.element attributes)) ++ attributes,
    congrArg (fun kids => Element.mk ⟨"wsse:Security".toList, _⟩ (some kids)) token.inner_kept⟩

theorem UsernameToken.Plain.inner (plain : token.Plain) :
    token.inner.coalesce.trim = token.inner := by
  have whole : token.content.coalesce.trim = token.content := by
    rw [UsernameToken.content_eq, FieldContents.header_read, plain.contents.2]
  exact (Content.element.inj whole).2.1

/-- From its inner part on, a token is read as it is, under any bindings of its prefixes. -/
theorem UsernameToken.Plain.reads_under (plain : token.Plain) {nsMap : List (Text × Text)}
    (binds : Binds nsMap) :
    ((token.inner.events.foldl TokenState.step (.under nsMap .initial)).close
      "wsse:Security".toList).finish =
      .ok token := by
  have known : Binds headerMap := ⟨rfl, rfl⟩
  -- the reader that has met the usual header
  have usual : ((token.inner.events.foldl TokenState.step (.under headerMap .initial)).close
      "wsse:Security".toList).finish = .ok token := by
    have read := FieldContents.read_header (plain.contents.1.imp fun _ flat => flat.elements)
    have events : token.contents.header.events =
        .start securityTag.read :: (token.inner.events ++ [.close "wsse:Security".toList]) := by
      rw [← UsernameToken.content_eq]
      rfl
    have opened : TokenState.initial.start securityTag.read = .under headerMap .initial := by
      rw [Tag.read_of_unique securityTag_lexical.2.2]
      simp only [TokenState.start, TokenState.initial, collectNsAttrs_security]
      rfl
    rw [← List.append_nil (stream _), readToken_append, events] at read
    simp only [List.foldl_cons, List.foldl_append, List.foldl_nil, TokenState.step, opened] at read
    refine Eq.trans read ?_
    obtain ⟨username, password, passwordType, nonce, created⟩ := token
    cases nonce <;> cases created <;> rfl
  obtain ⟨same, _⟩ := TokenState.foldl_under token.inner_fielded binds (.under headerMap .initial) known
  rw [show TokenState.under nsMap .initial = .under nsMap (.under headerMap .initial) from rfl,
    same, TokenState.close_under, TokenState.finish_under]
  exact usual

theorem UsernameToken.Plain.parsed (plain : token.Plain) (lawful : ext.xml.Lawful)
    {attributes : List Attribute} {s : Text}
    (reads : ext.xml.Reads s (token.element attributes).alone.coalesce)
    (unique : (token.element attributes).alone.coalesce.AllTags Tag.Unique)
    (binds : Binds (declarations attributes).reverse) : parseUsernameToken ext s = .ok token := by
  have opened : TokenState.initial.start ⟨"wsse:Security".toList, attributes.map some⟩ =
      .under (declarations attributes).reverse .initial := by
    have other : "Security".toList ≠ "UsernameToken".toList ∧ "Security".toList ≠ "Username".toList ∧
        "Security".toList ≠ "Password".toList ∧ "Security".toList ≠ "Nonce".toList ∧
        "Security".toList ≠ "Created".toList := by decide
    simp only [TokenState.start, collectNsAttrs_eq, splitName_fields, other, false_and, if_false]
    simp only [TokenState.initial, TokenState.under, List.append_nil]
  have events : ext.xml.events true s = stream (.start ⟨"wsse:Security".toList, attributes.map some⟩ ::
      (token.inner.events ++ [.close "wsse:Security".toList])) := by
    have tag : (Tag.mk "wsse:Security".toList attributes).read =
        ⟨"wsse:Security".toList, attributes.map some⟩ :=
      Tag.read_of_unique unique.1
    have content : (token.element attributes).alone.coalesce.trim =
        .element ⟨"wsse:Security".toList, attributes⟩ token.inner .nil :=
      congrArg (Content.element _ · .nil) plain.inner
    rw [lawful.trims _ _ reads, content, Content.events, tag]
    rfl
  rw [parseUsernameToken, events, ← List.append_nil (stream _), readToken_append]
  simp only [List.foldl_cons, List.foldl_append, List.foldl_nil, TokenState.step, opened]
  exact plain.reads_under binds

/-! A token in a message. -/

/-- A message whose fragments stand for themselves: its texts are in order, its values hold no double
quote, and no prefix is declared both on `Envelope` and on the part unless the extracted element
declares it again. -/
structure Extractable (m : Message) : Prop where
  sound : m.document.Sound
  quotes : QuoteFree m
  declaredOnce : ∀ pair ∈ m.extracted, Redeclared m.envelope pair.1 pair.2

/-- The message carries a token in a `Security` element with these attributes, behind the header
children `earlier`. -/
structure Carries (m : Message) (token : UsernameToken) (attributes : List Attribute)
    (earlier later : List Element) :
    Prop where
  parts : m.headerParts = earlier ++ token.element attributes :: later
  first : ∀ el ∈ earlier, elementName ((m.partScope m.headerTag).enter el.tag.attributes) el.tag.name ≠
    ⟨.bound wsseNs, "Security".toList⟩
  wsse : ((m.partScope m.headerTag).enter attributes).lookup "wsse".toList = some wsseNs
  wsu : ((m.partScope m.headerTag).enter attributes).lookup "wsu".toList = some wsuNs
  plain : token.Plain

variable {m : Message} {attributes : List Attribute} {earlier later : List Element}

theorem Extractable.unique (extractable : Extractable m) {pair : Tag × Element}
    (member : pair ∈ m.extracted) :
    (fragment (m.bindings pair.1) pair.2).tag.Unique :=
  (message_unique_iff extractable.sound member).mpr (extractable.declaredOnce pair member)

theorem Extractable.root (extractable : Extractable m) (lawful : ext.xml.Lawful)
    {pair : Tag × Element} (member : pair ∈ m.extracted) :
    extractBodyQname ext (fragment (m.bindings pair.1) pair.2).write =
      .ok (expandedQName (elementName ((m.partScope pair.1).enter pair.2.tag.attributes)
        pair.2.tag.name)) :=
  fragment_root lawful extractable.sound extractable.quotes member (extractable.unique member)

theorem Extractable.parses (extractable : Extractable m) (lawful : ext.xml.Lawful) {input : Text}
    (reads : ext.xml.Reads input m.document) :
    parseEnvelope ext input =
      .ok ⟨m.version, m.headerParts.map fun el => (fragment (m.bindings m.headerTag) el).write,
      (fragment (m.bindings m.body) m.first).write⟩ :=
  parseEnvelope_sound lawful m reads extractable.sound

/-- A fragment declares no prefix twice. -/
theorem Extractable.prefixes_nodup (extractable : Extractable m) {pair : Tag × Element}
    (member : pair ∈ m.extracted) :
    ((declarations (fragment (m.bindings pair.1) pair.2).tag.attributes).map Prod.fst).Nodup := by
  have unique := (m.extracted_allTags extractable.sound.namespaces.unique member).2.1
  have plain := (m.extracted_allTags (plain_of_sound extractable.sound) member).2.1
  have inherits := (fragment_unique_iff unique plain).mp (extractable.unique member)
  simp only [fragment, declarations_append, declarations_bindingAttributes, List.map_append]
  rw [List.nodup_append]
  refine ⟨inherits, Envelope.prefixes_nodup unique plain, ?_⟩
  rintro p inherited_ _ own rfl
  rw [inherited_prefixes] at inherited_
  have absent := (List.mem_filter.mp inherited_).2
  simp only [decide_eq_true_eq] at absent
  exact absent own

theorem mem_extracted_header {el : Element} (member : el ∈ m.headerParts) :
    (m.headerTag, el) ∈ m.extracted :=
  List.mem_append_left _ (List.mem_map.mpr ⟨el, member, rfl⟩)

namespace Carries

variable (carries : Carries m token attributes earlier later)

include carries

theorem member : (m.headerTag, token.element attributes) ∈ m.extracted :=
  mem_extracted_header (carries.parts ▸ List.mem_append_right _ (.head _))

/-- The fragment of the token has the bindings that its parts rely on. -/
theorem binds (extractable : Extractable m) :
    Binds (declarations (fragment (m.bindings m.headerTag)
      (token.element attributes)).tag.attributes).reverse := by
  have reversed : (((declarations
    (fragment (m.bindings m.headerTag) (token.element attributes)).tag.attributes).reverse).map
      Prod.fst).Nodup := by
    rw [List.map_reverse]
    exact List.nodup_reverse.mpr (extractable.prefixes_nodup carries.member)
  have found (p uri : Text) (other : Scope.initial.lookup p = none)
      (inScope : ((m.partScope m.headerTag).enter attributes).lookup p = some uri) :
      (declarations (fragment (m.bindings m.headerTag)
        (token.element attributes)).tag.attributes).reverse.lookup p =
        some uri := by
    have same := inherited_same (m.bindings m.headerTag) Scope.initial (token.element attributes) p
    rw [← List.append_assoc, List.lookup_append, other, Option.or_none] at same
    rw [m.partScope_eq] at inScope
    rw [Associations.lookup_eq_some_iff reversed, List.mem_reverse]
    apply Associations.mem_of_lookup
    simp only [fragment, declarations_append, declarations_bindingAttributes]
    exact same.trans inScope
  exact ⟨found _ _ (by decide) carries.wsse, found _ _ (by decide) carries.wsu⟩

/-- The token reads back from the fragment. -/
theorem parsed (extractable : Extractable m) (lawful : ext.xml.Lawful) :
    parseUsernameToken ext (fragment (m.bindings m.headerTag) (token.element attributes)).write =
      .ok token := by
  have allUnique := fragment_allUnique extractable.sound carries.member
    (extractable.unique carries.member)
  have reads := fragment_reads lawful extractable.sound extractable.quotes carries.member
  have binds := carries.binds extractable
  obtain ⟨declared, shape⟩ := token.fragment_element (m.bindings m.headerTag) attributes
  rw [shape] at allUnique reads binds ⊢
  exact carries.plain.parsed lawful reads allUnique binds

/-- The server finds the header with the token. -/
theorem found (extractable : Extractable m) (lawful : ext.xml.Lawful) :
    findSecurityHeader ext (m.headerParts.map fun el => (fragment (m.bindings m.headerTag) el).write) =
      some (fragment (m.bindings m.headerTag) (token.element attributes)).write := by
  have root {el : Element} (among : el ∈ m.headerParts) :=
    extractable.root lawful (mem_extracted_header among)
  have own : elementName ((m.partScope m.headerTag).enter attributes) "wsse:Security".toList =
      ⟨.bound wsseNs, "Security".toList⟩ := by
    have split : splitOnce ':' "wsse:Security".toList =
        some ("wsse".toList, "Security".toList) := by decide
    simp only [elementName, resolveElement, localName, split, resolvePrefix, carries.wsse]
    rfl
  have chosen : isSecurity (ext.xml.nsEvents true
    (fragment (m.bindings m.headerTag) (token.element attributes)).write) =
      true := by
    have among : token.element attributes ∈ m.headerParts :=
      carries.parts ▸ List.mem_append_right _ (.head _)
    refine isSecurity_iff.mpr ((root among).trans (congrArg Except.ok ?_))
    exact (congrArg expandedQName own).trans rfl
  have passed (el : Element) (before : el ∈ earlier) :
      isSecurity (ext.xml.nsEvents true (fragment (m.bindings m.headerTag) el).write) = false := by
    have among : el ∈ m.headerParts := carries.parts ▸ List.mem_append_left _ before
    rw [Bool.eq_false_iff]
    intro security
    have key := Except.ok.inj ((root among).symm.trans (isSecurity_iff.mp security))
    exact carries.first el before (expandedQName_security key)
  rw [findSecurityHeader, carries.parts, List.map_append, List.map_cons, List.find?_append]
  have none_ : (earlier.map fun el => (fragment (m.bindings m.headerTag) el).write).find?
      (fun child => isSecurity (ext.xml.nsEvents true child)) = none := by
    rw [List.find?_map, List.find?_eq_none.mpr fun el before => by simp [passed el before]]
    rfl
  rw [none_, Option.none_or]
  exact List.find?_cons_of_pos chosen

end Carries

end Wssec

end SoapServer
