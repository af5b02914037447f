import SoapServer.Envelope.FragmentNames
import SoapServer.Wssec.TokenHeader

/-! The namespaces the token reader sees, next to those in scope: its map of prefixes
forgets no declaration, so declarations of closed elements can stand in the way. -/

set_option autoImplicit false

namespace SoapServer.Wssec

open Markup (Text Content Tag Attribute Event NsEvent ReadTag ResolveResult Scope stream declarations)
open Envelope (PrefixesPlain prefixes_nodup)

/-! What the reader makes of an element. -/

/-- The elements of a header that the reader recognises. -/
inductive TokenElement where
  | usernameToken
  | username
  | password
  | nonce
  | created
  deriving DecidableEq, Repr

/-- What an element of a local name and a namespace is, outside and inside of a token. -/
def tokenElement (l : Text) (ns : Option Text) (inUsernameToken : Bool) : Option TokenElement :=
  if l = "UsernameToken".toList ∧ ns = some wsseNs then some .usernameToken
  else if l = "Username".toList ∧ ns = some wsseNs ∧ inUsernameToken then some .username
  else if l = "Password".toList ∧ ns = some wsseNs ∧ inUsernameToken then some .password
  else if l = "Nonce".toList ∧ ns = some wsseNs ∧ inUsernameToken then some .nonce
  else if l = "Created".toList ∧ ns = some wsuNs ∧ inUsernameToken then some .created
  else none

def TokenState.opens (attributes : List (Option Attribute)) (st : TokenState) :
    Option TokenElement → TokenState
  | some .usernameToken => { st with inUsernameToken := true, foundToken := true }
  | some .username => { st with inUsernameElem := true }
  | some .password => { st with inPasswordElem := true, passwordType := readPasswordType attributes st.passwordType }
  | some .nonce => { st with inNonceElem := true }
  | some .created => { st with inCreatedElem := true }
  | none => st

/-- The namespace the reader finds for an element. -/
def TokenState.namespaceOf (st : TokenState) (tag : ReadTag) : Option Text :=
  resolveNs (splitName tag.name).1 (collectNsAttrs tag.attributes st.nsMap)

theorem TokenState.start_opens (tag : ReadTag) (st : TokenState) :
    st.start tag = { st with nsMap := collectNsAttrs tag.attributes st.nsMap }.opens tag.attributes
      (tokenElement (splitName tag.name).2 (st.namespaceOf tag) st.inUsernameToken) := by
  unfold TokenState.start tokenElement TokenState.namespaceOf
  simp only
  split_ifs <;> rfl

/-! Agreement. -/

/-- A namespace by name; the empty name is none. -/
def nonempty (ns : Option Text) : Option Text := ns.filter fun uri => uri ≠ []

/-- The namespace of a resolved name, if it has one. -/
def resolvedUri : ResolveResult → Option Text
  | .bound uri => some uri
  | .unbound | .unknown _ => none

/-- The reader and the resolver see the same in one element. -/
structure Agrees (st : TokenState) (ns : ResolveResult) (tag : ReadTag) : Prop where
  namespace_ : nonempty (st.namespaceOf tag) = resolvedUri ns
  recognised : tokenElement (splitName tag.name).2 (st.namespaceOf tag) st.inUsernameToken =
    tokenElement (Markup.localName tag.name) (resolvedUri ns) st.inUsernameToken

/-- They do so in every element, as the reader runs over the resolved events. -/
def Sees : TokenState → List NsEvent → Prop
  | _, [] => True
  | st, (ns, .start tag) :: rest => Agrees st ns tag ∧ Sees (st.step (.start tag)) rest
  | st, (ns, .empty tag) :: rest => Agrees st ns tag ∧ Sees (st.step (.empty tag)) rest
  | st, (_, .data d) :: rest => Sees (st.step (.data d)) rest
  | st, (_, .close name) :: rest => Sees (st.step (.close name)) rest

/-- The token reader sees the namespaces of a namespace-aware reader in a text. -/
def SeesNamespaces (ext : Externals) (xmlBytes : Text) : Prop :=
  ∃ events, ext.xml.nsEvents true xmlBytes = stream events ∧ Sees .initial events

/-! Declarations in document order. -/

/-- A declaration is open as long as its element is. -/
structure Declaration where
  pre : Text
  uri : Text
  isOpen : Bool
  deriving DecidableEq, Repr

def Declaration.close (d : Declaration) : Declaration := { d with isOpen := false }

def Declaration.binding (d : Declaration) : Text × Text := (d.pre, d.uri)

/-- The declarations of a tag, the latest first. -/
def openings (tag : Tag) : List Declaration := (declarations tag.attributes).reverse.map fun b => ⟨b.1, b.2, true⟩

/-- What a forest leaves behind: all its declarations, closed, the latest first. -/
def leftBehind : Content → List Declaration
  | .nil => []
  | .data _ rest => leftBehind rest
  | .empty tag rest => leftBehind rest ++ (openings tag).map .close
  | .element tag kids rest => leftBehind rest ++ (leftBehind kids ++ (openings tag).map .close)

/-- The bindings in scope: those of the open declarations. -/
def openScope (past : List Declaration) : Scope :=
  (past.filter (·.isOpen)).map Declaration.binding ++ Scope.initial

/-- The latest declaration of a prefix is open, or names the namespace that is in scope; and
the `xml` prefix has one. -/
def Settled (past : List Declaration) (pre : Text) : Prop :=
  match past.find? fun d => d.pre = pre with
  | some d => d.isOpen = true ∨ d.uri = ((openScope past).lookup pre).getD []
  | none => pre ≠ "xml".toList

instance (past : List Declaration) (pre : Text) : Decidable (Settled past pre) := by
  unfold Settled
  split <;> infer_instance

def elementPrefix (name : Text) : Text := (splitName name).1.getD []

/-- The prefix of every element is settled where the element opens, after the given declarations. -/
def Undisturbed (past : List Declaration) : Content → Prop
  | .nil => True
  | .data _ rest => Undisturbed past rest
  | .empty tag rest =>
    Settled (openings tag ++ past) (elementPrefix tag.name) ∧ Undisturbed ((openings tag).map .close ++ past) rest
  | .element tag kids rest =>
    Settled (openings tag ++ past) (elementPrefix tag.name) ∧ Undisturbed (openings tag ++ past) kids ∧
      Undisturbed (leftBehind kids ++ ((openings tag).map .close ++ past)) rest

instance decidableUndisturbed :
    (past : List Declaration) → (c : Content) → Decidable (Undisturbed past c)
  | _, .nil => inferInstanceAs (Decidable True)
  | past, .data _ rest => decidableUndisturbed past rest
  | past, .empty tag rest =>
    have : Decidable (Undisturbed ((openings tag).map .close ++ past) rest) :=
      decidableUndisturbed _ rest
    inferInstanceAs (Decidable (Settled (openings tag ++ past) (elementPrefix tag.name) ∧
      Undisturbed ((openings tag).map .close ++ past) rest))
  | past, .element tag kids rest =>
    have : Decidable (Undisturbed (openings tag ++ past) kids) := decidableUndisturbed _ kids
    have : Decidable (Undisturbed (leftBehind kids ++ ((openings tag).map .close ++ past)) rest) :=
      decidableUndisturbed _ rest
    inferInstanceAs (Decidable (Settled (openings tag ++ past) (elementPrefix tag.name) ∧
      Undisturbed (openings tag ++ past) kids ∧
      Undisturbed (leftBehind kids ++ ((openings tag).map .close ++ past)) rest))

/-! The reader's map is the list of all declarations. -/

theorem collectNsAttrs_eq (attributes : List Attribute) (nsMap : List (Text × Text)) :
    collectNsAttrs (attributes.map some) nsMap = (declarations attributes).reverse ++ nsMap := by
  rw [collectNsAttrs, Markup.reduceOption_some]
  induction attributes generalizing nsMap with
  | nil => rfl
  | cons a rest ih =>
    refine (ih _).trans ?_
    have notPrefixed : Markup.stripPrefix "xmlns:".toList "xmlns".toList = none := by decide
    unfold declarations
    rw [List.filterMap_cons]
    cases given : Markup.stripPrefix "xmlns:".toList a.key with
    | some pre =>
      have other : a.key ≠ "xmlns".toList := by
        intro same
        rw [same, notPrefixed] at given
        cases given
      rw [Attribute.declares, if_neg other, given]
      simp only [given, Option.map_some, List.reverse_cons, List.append_assoc,
        List.singleton_append]
    | none =>
      -- the default namespace is declared for the empty prefix
      by_cases default : a.key = "xmlns".toList
      · rw [Attribute.declares, if_pos default]
        simp only [given]
        rw [if_pos default]
        simp only [Option.map_some, List.reverse_cons, List.append_assoc, List.singleton_append]
      · rw [Attribute.declares, if_neg default, given]
        simp only [given, default, if_false, Option.map_none]

theorem binding_openings (tag : Tag) :
    (openings tag).map Declaration.binding = (declarations tag.attributes).reverse := by
  simp [openings, Declaration.binding, Function.comp_def]

theorem binding_close (past : List Declaration) :
    (past.map Declaration.close).map Declaration.binding = past.map Declaration.binding := by
  simp [Declaration.close, Declaration.binding, Function.comp_def]

theorem nsMap_text (st : TokenState) (raw : Text) : (st.text raw).nsMap = st.nsMap := by
  unfold TokenState.text
  split_ifs <;> rfl

theorem nsMap_close (st : TokenState) (name : Text) : (st.step (.close name)).nsMap = st.nsMap := by
  simp only [TokenState.step]
  unfold TokenState.close
  simp only
  split_ifs <;> rfl

theorem nsMap_data (st : TokenState) (d : Markup.Data) : (st.step (.data d)).nsMap = st.nsMap := by
  cases d <;> first | rfl | exact nsMap_text st _

theorem nsMap_start (st : TokenState) {tag : Tag} (unique : tag.Unique) :
    (st.step (.start tag.read)).nsMap = (openings tag).map Declaration.binding ++ st.nsMap := by
  rw [Tag.read_of_unique unique, TokenState.step, TokenState.start_opens, binding_openings,
    ← collectNsAttrs_eq]
  cases tokenElement (splitName tag.name).2 (st.namespaceOf ⟨tag.name, tag.attributes.map some⟩)
    st.inUsernameToken with
  | none => rfl
  | some kind => cases kind <;> rfl

theorem nsMap_empty (st : TokenState) {tag : Tag} (unique : tag.Unique) :
    (st.step (.empty tag.read)).nsMap = (openings tag).map Declaration.binding ++ st.nsMap := by
  rw [Tag.read_of_unique unique, TokenState.step, binding_openings, ← collectNsAttrs_eq,
    TokenState.empty]
  simp only
  split_ifs <;> rfl

theorem leftBehind_closed (c : Content) : ∀ d ∈ leftBehind c, d.isOpen = false := by
  have closed (tag : Tag) : ∀ d ∈ (openings tag).map Declaration.close, d.isOpen = false := by
    intro d member
    obtain ⟨_, _, rfl⟩ := List.mem_map.mp member
    rfl
  induction c with
  | nil => intro d member; cases member
  | data d rest ih => exact ih
  | empty tag rest ih => exact fun d member => (List.mem_append.mp member).elim (ih d) (closed tag d)
  | element tag kids rest kidsIH restIH =>
    exact fun d member => (List.mem_append.mp member).elim (restIH d) fun member =>
      (List.mem_append.mp member).elim (kidsIH d) (closed tag d)

theorem openScope_closed {closed : List Declaration} (all : ∀ d ∈ closed, d.isOpen = false)
    (past : List Declaration) :
    openScope (closed ++ past) = openScope past := by
  have none_ : closed.filter (·.isOpen) = [] := by
    rw [List.filter_eq_nil_iff]
    intro d member
    simp [all d member]
  rw [openScope, List.filter_append, none_, List.nil_append, openScope]

theorem openScope_openings (tag : Tag) (past : List Declaration) :
    openScope (openings tag ++ past) = (declarations tag.attributes).reverse ++ openScope past := by
  have all : (openings tag).filter (·.isOpen) = openings tag := by
    rw [List.filter_eq_self]
    intro d member
    obtain ⟨_, _, rfl⟩ := List.mem_map.mp member
    rfl
  rw [openScope, List.filter_append, all, List.map_append, binding_openings, List.append_assoc,
    openScope]

theorem lookup_reverse {bindings : Scope} (nodup : (bindings.map Prod.fst).Nodup) (p : Text) :
    bindings.reverse.lookup p = bindings.lookup p := by
  induction bindings with
  | nil => rfl
  | cons binding rest ih =>
    obtain ⟨q, uri⟩ := binding
    rw [List.map_cons, List.nodup_cons] at nodup
    rw [List.reverse_cons, List.lookup_append, ih nodup.2]
    by_cases same : p = q
    · subst same
      rw [Associations.lookup_eq_none_iff.mpr nodup.1]
      simp
    · simp [List.lookup_cons, beq_eq_false_iff_ne.mpr same]

theorem same_openScope {tag : Tag} (unique : tag.Unique) (plain : PrefixesPlain tag) {scope : Scope}
    {past : List Declaration} (same : Scope.Same scope (openScope past)) :
    Scope.Same (scope.enter tag.attributes) (openScope (openings tag ++ past)) := by
  intro p
  rw [openScope_openings, Scope.enter, List.lookup_append, List.lookup_append,
    lookup_reverse (prefixes_nodup unique plain), same p]

/-! One element. -/

theorem lookup_binding (past : List Declaration) (p : Text) :
    (past.map Declaration.binding).lookup p = (past.find? fun d => d.pre = p).map (·.uri) := by
  induction past with
  | nil => rfl
  | cons d rest ih =>
    by_cases same : p = d.pre
    · simp [Declaration.binding, same]
    · simp [Declaration.binding, List.lookup_cons, beq_eq_false_iff_ne.mpr same, Ne.symm same, ih]

theorem nonempty_eq_iff (uri : Text) (o : Option Text) :
    nonempty (some uri) = nonempty o ↔ uri = o.getD [] := by
  rcases uri with _ | ⟨c, uri⟩ <;> rcases o with _ | _ | ⟨d, v⟩ <;> simp [nonempty, Option.filter]

theorem resolvedUri_resolveElement (scope : Scope) (name : Text) :
    resolvedUri (Markup.resolveElement scope name) = nonempty (scope.lookup (elementPrefix name)) := by
  unfold Markup.resolveElement elementPrefix splitName
  cases Markup.splitOnce ':' name with
  | none =>
    simp only [Option.getD_none, Markup.resolveDefault]
    rcases scope.lookup [] with _ | _ | ⟨c, uri⟩ <;> rfl
  | some parts =>
    simp only [Option.getD_some, Markup.resolvePrefix]
    rcases scope.lookup parts.1 with _ | _ | ⟨c, uri⟩ <;> rfl

theorem nonempty_lookup_iff (past : List Declaration) (pre : Text) :
    nonempty ((past.map Declaration.binding).lookup pre) = nonempty ((openScope past).lookup pre) ↔
      Settled past pre := by
  rw [lookup_binding]
  unfold Settled
  cases latest : past.find? fun d => d.pre = pre with
  | none =>
    have absent : (openScope past).lookup pre = Scope.initial.lookup pre := by
      have unbound : ((past.filter (·.isOpen)).map Declaration.binding).lookup pre = none := by
        rw [lookup_binding, Option.map_eq_none_iff, List.find?_eq_none]
        exact fun d member => List.find?_eq_none.mp latest d (List.mem_filter.mp member).1
      rw [openScope, List.lookup_append, unbound, Option.none_or]
    rw [absent]
    by_cases reserved : pre = "xml".toList
    · subst reserved
      exact iff_of_false (by decide) (fun different => different rfl)
    · have unknown : Scope.initial.lookup pre = none := by
        rw [Scope.initial, List.lookup_cons, beq_eq_false_iff_ne.mpr reserved]
        rfl
      rw [unknown]
      exact iff_of_true rfl reserved
  | some d =>
    simp only [Option.map_some, nonempty_eq_iff]
    refine ⟨.inr, fun settled => settled.elim (fun isOpen => ?_) id⟩
    -- the latest declaration is open, so it is the one in scope
    have found : (past.filter (·.isOpen)).find? (fun d => d.pre = pre) = some d := by
      obtain ⟨named, before, after, rfl, others⟩ := List.find?_eq_some_iff_append.mp latest
      have absent : (before.filter (·.isOpen)).find? (fun d => d.pre = pre) = none :=
        List.find?_eq_none.mpr fun e member => by simpa using others e (List.mem_filter.mp member).1
      rw [List.filter_append, List.filter_cons_of_pos isOpen, List.find?_append, absent,
        Option.none_or, List.find?_cons]
      simp only [named]
    rw [openScope, List.lookup_append, lookup_binding, found]
    rfl

theorem splitName_localName (name : Text) : (splitName name).2 = Markup.localName name := by
  unfold splitName Markup.localName
  cases Markup.splitOnce ':' name <;> rfl

theorem tokenElement_nonempty (l : Text) (ns : Option Text) (inside : Bool) :
    tokenElement l (nonempty ns) inside = tokenElement l ns inside := by
  rcases ns with _ | _ | ⟨c, uri⟩
  · rfl
  · have named : wsseNs ≠ [] ∧ wsuNs ≠ [] := by decide
    have nothing : nonempty (some []) = none := rfl
    simp [tokenElement, nothing, named.1.symm, named.2.symm]
  · rfl

theorem prefixesPlain {scope : Scope} {tag : Tag} (wellFormed : tag.NamespaceWellFormed scope) :
    PrefixesPlain tag :=
  fun a member p declares =>
    ⟨(wellFormed.declared a member p declares).1, (wellFormed.declared a member p declares).2.2⟩

/-- An element is seen as it is resolved just when its prefix is settled there. -/
theorem agrees_iff {st : TokenState} {past : List Declaration} {scope : Scope} {tag : Tag}
    (unique : tag.Unique) (plain : PrefixesPlain tag)
    (map : st.nsMap = past.map Declaration.binding) (same : Scope.Same scope (openScope past)) :
    Agrees st (Markup.resolveElement (scope.enter tag.attributes) tag.name) tag.read ↔
      Settled (openings tag ++ past) (elementPrefix tag.name) := by
  have own : st.namespaceOf tag.read =
      ((openings tag ++ past).map Declaration.binding).lookup (elementPrefix tag.name) := by
    rw [TokenState.namespaceOf, Tag.read_of_unique unique, collectNsAttrs_eq, map, List.map_append,
      binding_openings]
    rfl
  have resolved : resolvedUri (Markup.resolveElement (scope.enter tag.attributes) tag.name) =
      nonempty ((openScope (openings tag ++ past)).lookup (elementPrefix tag.name)) := by
    rw [resolvedUri_resolveElement, same_openScope unique plain same]
  have settled := nonempty_lookup_iff (openings tag ++ past) (elementPrefix tag.name)
  rw [← own, ← resolved] at settled
  refine ⟨fun agrees => settled.mp agrees.namespace_, fun held => ⟨settled.mpr held, ?_⟩⟩
  rw [← settled.mpr held, tokenElement_nonempty]
  exact congrArg (tokenElement · _ _) (splitName_localName tag.name)

/-! The whole header. -/

theorem nsMap_after {c : Content} (unique : c.AllTags Tag.Unique) (st : TokenState) :
    (c.events.foldl TokenState.step st).nsMap = (leftBehind c).map Declaration.binding ++ st.nsMap := by
  induction c generalizing st with
  | nil => rfl
  | data d rest ih => rw [Content.events, List.foldl_cons, ih unique, nsMap_data]; rfl
  | empty tag rest ih =>
    rw [Content.events, List.foldl_cons, ih unique.2, nsMap_empty st unique.1, leftBehind,
      List.map_append, binding_close, List.append_assoc]
  | element tag kids rest kidsIH restIH =>
    rw [Content.events, List.foldl_cons, List.foldl_append, List.foldl_cons, restIH unique.2.2,
      nsMap_close, kidsIH unique.2.1, nsMap_start st unique.1]
    simp only [leftBehind, List.map_append, binding_close, List.append_assoc]

theorem sees_iff {c : Content} {scope : Scope} (wellFormed : c.NamespaceWellFormed scope)
    (st : TokenState) (past : List Declaration) (map : st.nsMap = past.map Declaration.binding)
    (same : Scope.Same scope (openScope past)) (after : List NsEvent) :
    Sees st (c.resolved scope ++ after) ↔
      Undisturbed past c ∧ Sees (c.events.foldl TokenState.step st) after := by
  -- on the header; the past is the list of all that was declared, opened or left behind
  induction c generalizing scope st past after with
  | nil => simp [Content.resolved, Content.events, Undisturbed]
  | data d rest ih =>
    exact ih wellFormed _ past ((nsMap_data st d).trans map) same after
  | empty tag rest ih =>
    have plain := prefixesPlain wellFormed.1
    have closed : ∀ d ∈ (openings tag).map Declaration.close, d.isOpen = false :=
      leftBehind_closed (.empty tag .nil)
    have later := ih wellFormed.2 (st.step (.empty tag.read)) ((openings tag).map Declaration.close ++ past)
      (by rw [nsMap_empty st wellFormed.1.unique, map, List.map_append, binding_close])
      (by rw [openScope_closed closed]; exact same) after
    rw [Content.resolved, List.cons_append, Sees, agrees_iff wellFormed.1.unique plain map same,
      later, Undisturbed, and_assoc]
    rfl
  | element tag kids rest kidsIH restIH =>
    have plain := prefixesPlain wellFormed.1
    have unique := wellFormed.1.unique
    have inner := same_openScope unique plain same
    have started : (st.step (.start tag.read)).nsMap = (openings tag ++ past).map Declaration.binding := by
      rw [nsMap_start st unique, map, List.map_append]
    -- at the end tag the declarations inside stay in the map, as ones that are closed
    have ended : ((kids.events.foldl TokenState.step (st.step (.start tag.read))).step (.close tag.name)).nsMap =
        (leftBehind kids ++ ((openings tag).map Declaration.close ++ past)).map Declaration.binding := by
      rw [nsMap_close, nsMap_after wellFormed.2.1.unique, started]
      simp only [List.map_append, binding_close]
    have closed : ∀ d ∈ leftBehind kids ++ (openings tag).map Declaration.close, d.isOpen = false :=
      leftBehind_closed (.element tag kids .nil)
    -- none of these is open, so the scope behind the element is the one before it
    have outer : Scope.Same scope (openScope (leftBehind kids ++ ((openings tag).map Declaration.close ++ past))) := by
      rw [← List.append_assoc, openScope_closed closed]
      exact same
    rw [Content.resolved, List.cons_append, Sees, agrees_iff unique plain map same,
      List.append_assoc,
      kidsIH wellFormed.2.1 _ _ started inner, List.cons_append, Sees, restIH wellFormed.2.2 _ _ ended outer, Undisturbed]
    simp only [Content.events, List.foldl_cons, List.foldl_append, and_assoc]

/-! Trimming changes no tag. -/

theorem leftBehind_trim (c : Content) : leftBehind c.trim = leftBehind c := by
  induction c with
  | nil => rfl
  | data d rest ih =>
    cases d with
    | text s =>
      rw [Content.trim]
      split <;> exact ih
    | _ => exact ih
  | empty tag rest ih => rw [Content.trim, leftBehind, leftBehind, ih]
  | element tag kids rest kidsIH restIH => rw [Content.trim, leftBehind, leftBehind, kidsIH, restIH]

theorem undisturbed_trim (c : Content) (past : List Declaration) :
    Undisturbed past c.trim ↔ Undisturbed past c := by
  induction c generalizing past with
  | nil => rfl
  | data d rest ih =>
    cases d with
    | text s =>
      rw [Content.trim]
      split <;> exact ih past
    | _ => exact ih past
  | empty tag rest ih => rw [Content.trim, Undisturbed, Undisturbed, ih]
  | element tag kids rest kidsIH restIH =>
    rw [Content.trim, Undisturbed, Undisturbed, kidsIH, restIH, leftBehind_trim]

theorem wellFormed_trim {c : Content} {scope : Scope} (wellFormed : c.NamespaceWellFormed scope) :
    c.trim.NamespaceWellFormed scope := by
  induction c generalizing scope with
  | nil => trivial
  | data d rest ih =>
    cases d with
    | text s =>
      rw [Content.trim]
      split <;> exact ih wellFormed
    | _ => exact ih wellFormed
  | empty tag rest ih => exact ⟨wellFormed.1, ih wellFormed.2⟩
  | element tag kids rest kidsIH restIH =>
    exact ⟨wellFormed.1, kidsIH wellFormed.2.1, restIH wellFormed.2.2⟩

theorem seesNamespaces_iff {ext : Externals} {s : Text} {c : Content}
    (reports : ext.xml.nsEvents true s = stream (c.trim.resolved Scope.initial))
    (wellFormed : c.NamespaceWellFormed Scope.initial) :
    SeesNamespaces ext s ↔ Undisturbed [] c := by
  have whole := sees_iff (wellFormed_trim wellFormed) .initial [] rfl (fun _ => rfl) []
  rw [List.append_nil, undisturbed_trim] at whole
  rw [SeesNamespaces, reports]
  constructor
  · rintro ⟨events, same, sees⟩
    obtain rfl := Markup.stream_inj same
    exact (whole.mp sees).1
  · intro undisturbed
    exact ⟨_, rfl, whole.mpr ⟨undisturbed, trivial⟩⟩

/-- The token reader sees the namespaces of a well-formed header just when no declaration of
a closed element stands in the way. -/
theorem sees_namespaces_iff {ext : Externals} (lawful : ext.xml.Lawful) {s : Text} {c : Content}
    (reads : ext.xml.Reads s c) (wellFormed : c.NamespaceWellFormed Scope.initial) :
    SeesNamespaces ext s ↔ Undisturbed [] c :=
  seesNamespaces_iff (lawful.resolvesTrimmed s c wellFormed.unique wellFormed.resolvable reads) wellFormed

/-! A header in which a closed element has taken the prefix of the token. -/

def extensionTag : Tag := ⟨"x".toList, [⟨"xmlns:wsse".toList, "urn:x".toList⟩]⟩

def shadowedHeader : Content :=
  .element securityTag
    (.empty extensionTag
      (.element ⟨"wsse:UsernameToken".toList, []⟩
        (field "wsse:Username".toList [] "user".toList (field "wsse:Password".toList [] "secret".toList .nil)) .nil))
    .nil

theorem shadowedHeader_reads :
    Externals.scanning.xml.Reads shadowedHeader.write shadowedHeader := by
  have read := Externals.scanning_lawful.written_tag (c := shadowedHeader) (by decide +kernel) rfl
  rwa [show shadowedHeader.coalesce = shadowedHeader by decide +kernel] at read

theorem shadowedHeader_wellFormed :
    shadowedHeader.NamespaceWellFormed Scope.initial := by decide +kernel

/-- The header is well-formed and its token stands in the namespace of WS-Security, but no
token is found. -/
theorem shadowedHeader_missed :
    Externals.scanning.xml.Reads shadowedHeader.write shadowedHeader ∧
      shadowedHeader.NamespaceWellFormed Scope.initial ∧
      ¬ SeesNamespaces .scanning shadowedHeader.write ∧
      parseUsernameToken .scanning shadowedHeader.write = senderFault "Missing UsernameToken".toList := by
  refine ⟨shadowedHeader_reads, shadowedHeader_wellFormed, fun sees => ?_, ?_⟩
  · have reports := Externals.scanning_lawful.resolvesTrimmed _ _ shadowedHeader_wellFormed.unique
      shadowedHeader_wellFormed.resolvable shadowedHeader_reads
    have undisturbed := (seesNamespaces_iff reports shadowedHeader_wellFormed).mp sees
    have : ¬ Settled (openings ⟨"wsse:UsernameToken".toList, []⟩ ++
        ((openings extensionTag).map Declaration.close ++ (openings securityTag ++ []))) "wsse".toList := by
      decide +kernel
    exact this undisturbed.2.1.2.1
  · rw [parseUsernameToken, events_trimmed Externals.scanning_lawful (c := shadowedHeader) (by decide +kernel) rfl]
    rfl

/-- The same header, where the closed element declares the prefix for its own namespace and another
prefix besides. -/
def agreeingHeader : Content :=
  .element securityTag
    (.empty ⟨"x".toList, [⟨"xmlns:wsse".toList, wsseNs⟩, ⟨"xmlns:y".toList, "urn:y".toList⟩]⟩
      (.element ⟨"wsse:UsernameToken".toList, []⟩
        (field "wsse:Username".toList [] "user".toList (field "wsse:Password".toList [] "secret".toList .nil)) .nil))
    .nil

theorem agreeingHeader_seen : SeesNamespaces .scanning agreeingHeader.write := by
  have reads : Externals.scanning.xml.Reads agreeingHeader.write agreeingHeader := by
    have read := Externals.scanning_lawful.written_tag (c := agreeingHeader) (by decide +kernel) rfl
    rwa [show agreeingHeader.coalesce = agreeingHeader by decide +kernel] at read
  apply (sees_namespaces_iff Externals.scanning_lawful reads (by decide +kernel)).mpr
  decide +kernel

end SoapServer.Wssec
