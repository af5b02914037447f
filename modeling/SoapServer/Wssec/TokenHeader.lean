import SoapServer.Wssec.UsernameToken

/-! A token written as a `Security` header, and the proof that it reads back. -/

set_option autoImplicit false

namespace SoapServer.Wssec

open Markup (Text Content Tag Attribute Data Reader stream IsName)

def field (name : Text) (attributes : List Attribute) (value : Text) (rest : Content) : Content :=
  .element ⟨name, attributes⟩ (.data (.text value) .nil) rest

def PasswordType.uri : PasswordType → Text
  | .digest => passwordDigestType
  | .text => passwordTextType

def createdField : Option Text → Content
  | some created => field "wsu:Created".toList [] created .nil
  | none => .nil

def nonceField (nonce created : Option Text) : Content :=
  match nonce with
  | some nonce => field "wsse:Nonce".toList [] nonce (createdField created)
  | none => createdField created

def UsernameToken.fields (token : UsernameToken) : Content :=
  field "wsse:Username".toList [] token.username
    (field "wsse:Password".toList [⟨"Type".toList, token.passwordType.uri⟩] token.password
      (nonceField token.nonce token.created))

def securityTag : Tag :=
  ⟨"wsse:Security".toList, [⟨"xmlns:wsse".toList, wsseNs⟩, ⟨"xmlns:wsu".toList, wsuNs⟩]⟩

def UsernameToken.content (token : UsernameToken) : Content :=
  .element securityTag (.element ⟨"wsse:UsernameToken".toList, []⟩ token.fields .nil) .nil

def UsernameToken.header (token : UsernameToken) : Text := token.content.write

/-- A text that stands in an element as it is: no markup, no surrounding whitespace. -/
structure Plain (s : Text) : Prop where
  nonempty : s ≠ []
  clean : ∀ c ∈ s, c ≠ '<' ∧ c ≠ '&'
  trimmed : Markup.trimWhitespace s = s

instance (s : Text) : Decidable (Plain s) :=
  decidable_of_iff (s ≠ [] ∧ (∀ c ∈ s, c ≠ '<' ∧ c ≠ '&') ∧ Markup.trimWhitespace s = s)
    ⟨fun h => ⟨h.1, h.2.1, h.2.2⟩, fun h => ⟨h.nonempty, h.clean, h.trimmed⟩⟩

structure UsernameToken.Plain (token : UsernameToken) : Prop where
  username : Wssec.Plain token.username
  password : Wssec.Plain token.password
  nonce : ∀ n, token.nonce = some n → Wssec.Plain n
  created : ∀ c, token.created = some c → Wssec.Plain c

/-! The header as the reader reports it. -/

theorem uri_lexical (kind : PasswordType) : '<' ∉ kind.uri ∧ '"' ∉ kind.uri := by
  cases kind <;> decide +kernel

theorem securityTag_lexical : securityTag.Lexical ∧ securityTag.QuoteFree ∧ securityTag.Unique := by
  decide +kernel

/-- A trimming reader reports the forest a writer had, with its character data joined and trimmed. -/
theorem events_trimmed {reader : Reader} (lawful : reader.Lawful) {c : Content}
    (writable : c.Writable) (markup : c.write.head? = some '<') :
    reader.events true c.write = stream c.coalesce.trim.events :=
  lawful.trims _ _ (lawful.written_tag writable markup)

/-! Reading it. -/

theorem readToken_append (st : TokenState) (events : List Markup.Event)
    (rest : List (Except Text Markup.Event)) :
    readToken st (stream events ++ rest) = readToken (events.foldl TokenState.step st) rest := by
  induction events generalizing st with
  | nil => rfl
  | cons event events ih => exact ih (st.step event)

/-- The bindings in force inside the header. -/
def headerMap : List (Text × Text) := [("wsu".toList, wsuNs), ("wsse".toList, wsseNs)]

theorem resolveNs_headerMap :
    resolveNs (some "wsse".toList) headerMap = some wsseNs ∧
      resolveNs (some "wsu".toList) headerMap = some wsuNs := by
  constructor <;> rfl

theorem splitName_fields :
    splitName "wsse:Security".toList = (some "wsse".toList, "Security".toList) ∧
      splitName "wsse:UsernameToken".toList = (some "wsse".toList, "UsernameToken".toList) ∧
      splitName "wsse:Username".toList = (some "wsse".toList, "Username".toList) ∧
      splitName "wsse:Password".toList = (some "wsse".toList, "Password".toList) ∧
      splitName "wsse:Nonce".toList = (some "wsse".toList, "Nonce".toList) ∧
      splitName "wsu:Created".toList = (some "wsu".toList, "Created".toList) := by
  decide

theorem collectNsAttrs_security :
    collectNsAttrs (securityTag.attributes.map some) [] = headerMap := by
  rfl

theorem passwordType_uri (kind before : PasswordType) :
    readPasswordType [some ⟨"Type".toList, kind.uri⟩] before = kind := by
  cases kind with
  | digest => simp [readPasswordType, PasswordType.uri, List.reduceOption]
  | text =>
    have other : passwordTextType ≠ passwordDigestType := by decide +kernel
    simp [readPasswordType, PasswordType.uri, List.reduceOption, other]

/-- The first run of character data that is not blank. -/
def firstText : Content → Option Text
  | .data (.text s) _ => some s
  | .data _ rest => firstText rest
  | _ => none

/-- Between two fields of the token. -/
structure Inside (st : TokenState) : Prop where
  nsMap : st.nsMap = headerMap
  token : st.inUsernameToken = true
  username : st.inUsernameElem = false
  password : st.inPasswordElem = false
  nonce : st.inNonceElem = false
  created : st.inCreatedElem = false

/-- A field that is open: its first run of character data sets it, later ones do nothing. -/
structure Opened (unset opened : TokenState) (set : Text → TokenState) (name : Text) : Prop where
  first : ∀ value, opened.text value = set value
  later : ∀ value more, (set value).text more = set value
  closeSet : ∀ value, (set value).close name = set value
  closeUnset : opened.close name = unset

/-- Reading a field keeps the first run of its character data and nothing else. -/
theorem Opened.read {unset opened : TokenState} {set : Text → TokenState} {name : Text}
    (opens : Opened unset opened set name) {kids : Content} (flat : kids.elements = []) :
    (kids.events.foldl TokenState.step opened).close name = ((firstText kids).map set).getD unset := by
  -- once a text is set, the field keeps it
  have settled (value : Text) (kids : Content) (flat : kids.elements = []) :
      kids.events.foldl TokenState.step (set value) = set value := by
    induction kids with
    | nil => rfl
    | data d rest ih =>
      cases d with
      | text more =>
        rw [Content.events, List.foldl_cons, TokenState.step, opens.later]
        exact ih flat
      | _ => exact ih flat
    | empty tag rest _ => cases flat
    | element tag kids rest _ _ => cases flat
  induction kids with
  | nil => exact opens.closeUnset
  | data d rest ih =>
    cases d with
    | text value =>
      rw [Content.events, List.foldl_cons, TokenState.step, opens.first, settled value rest flat,
        opens.closeSet]
      rfl
    | _ => exact ih flat
  | empty tag rest _ => cases flat
  | element tag kids rest _ _ => cases flat

theorem Opened.read_element {st unset : TokenState} {set : Text → TokenState} {name : Text}
    {attributes : List Attribute} (unique : (Tag.mk name attributes).Unique)
    (opens : Opened unset (st.start ⟨name, attributes.map some⟩) set name) {kids : Content}
    (flat : kids.elements = []) (rest : Content) :
    (Content.element ⟨name, attributes⟩ kids rest).events.foldl TokenState.step st =
      rest.events.foldl TokenState.step (((firstText kids).map set).getD unset) := by
  rw [Content.events, Tag.read_of_unique unique, List.foldl_cons, List.foldl_append,
    List.foldl_cons]
  simp only [TokenState.step]
  rw [opens.read flat]

section fields

variable {st : TokenState} (inside : Inside st)

include inside

theorem opened_username : Opened st (st.start ⟨"wsse:Username".toList, []⟩)
    (fun value => { st with username := some value }) "wsse:Username".toList := by
  obtain ⟨username, password, passwordType, nonce, created, nsMap, _, _, _, _, _, found⟩ := st
  obtain ⟨rfl, rfl, rfl, rfl, rfl, rfl⟩ := inside
  have split := splitName_fields.2.2.1
  have other : "Username".toList ≠ "UsernameToken".toList := by decide
  simp only [TokenState.start, split, collectNsAttrs, List.reduceOption, List.filterMap_nil,
    List.foldl_nil, resolveNs_headerMap, other, and_true, if_true, if_false]
  exact ⟨fun _ => rfl, fun _ _ => rfl, fun _ => rfl, rfl⟩

theorem opened_password (kind : PasswordType) :
    Opened { st with passwordType := kind } (st.start ⟨"wsse:Password".toList, [some ⟨"Type".toList, kind.uri⟩]⟩)
      (fun value => { st with password := some value, passwordType := kind }) "wsse:Password".toList := by
  obtain ⟨username, password, passwordType, nonce, created, nsMap, _, _, _, _, _, found⟩ := st
  obtain ⟨rfl, rfl, rfl, rfl, rfl, rfl⟩ := inside
  have split := splitName_fields.2.2.2.1
  have others : "Password".toList ≠ "UsernameToken".toList ∧ "Password".toList ≠ "Username".toList := by
    decide
  have unbinding : collectNsAttrs [some ⟨"Type".toList, kind.uri⟩] headerMap = headerMap := rfl
  simp only [TokenState.start, split, unbinding, passwordType_uri, resolveNs_headerMap, others,
    and_true, if_true, if_false]
  exact ⟨fun _ => rfl, fun _ _ => rfl, fun _ => rfl, rfl⟩

theorem opened_nonce : Opened st (st.start ⟨"wsse:Nonce".toList, []⟩)
    (fun value => { st with nonce := some value }) "wsse:Nonce".toList := by
  obtain ⟨username, password, passwordType, nonce, created, nsMap, _, _, _, _, _, found⟩ := st
  obtain ⟨rfl, rfl, rfl, rfl, rfl, rfl⟩ := inside
  have split := splitName_fields.2.2.2.2.1
  have others : "Nonce".toList ≠ "UsernameToken".toList ∧ "Nonce".toList ≠ "Username".toList ∧
      "Nonce".toList ≠ "Password".toList := by decide
  simp only [TokenState.start, split, collectNsAttrs, List.reduceOption, List.filterMap_nil,
    List.foldl_nil, resolveNs_headerMap, others, and_true, if_true, if_false]
  exact ⟨fun _ => rfl, fun _ _ => rfl, fun _ => rfl, rfl⟩

theorem opened_created : Opened st (st.start ⟨"wsu:Created".toList, []⟩)
    (fun value => { st with created := some value }) "wsu:Created".toList := by
  obtain ⟨username, password, passwordType, nonce, created, nsMap, _, _, _, _, _, found⟩ := st
  obtain ⟨rfl, rfl, rfl, rfl, rfl, rfl⟩ := inside
  have split := splitName_fields.2.2.2.2.2
  have others : "Created".toList ≠ "UsernameToken".toList ∧ "Created".toList ≠ "Username".toList ∧
      "Created".toList ≠ "Password".toList ∧ "Created".toList ≠ "Nonce".toList := by decide
  simp only [TokenState.start, split, collectNsAttrs, List.reduceOption, List.filterMap_nil,
    List.foldl_nil, resolveNs_headerMap, others, and_true, false_and, if_true, if_false]
  exact ⟨fun _ => rfl, fun _ _ => rfl, fun _ => rfl, rfl⟩

end fields

/-- The state between two fields, by what was read so far. -/
def TokenState.between (username password : Option Text) (passwordType : PasswordType)
    (nonce created : Option Text) : TokenState :=
  ⟨username, password, passwordType, nonce, created, headerMap, true, false, false, false, false,
    true⟩

theorem inside_between (username password : Option Text) (passwordType : PasswordType)
    (nonce created : Option Text) :
    Inside (.between username password passwordType nonce created) :=
  ⟨rfl, rfl, rfl, rfl, rfl, rfl⟩

/-! A header whose fields hold any character data. -/

/-- What stands in the fields of a token. -/
structure FieldContents where
  username : Content
  password : Content
  passwordType : PasswordType
  nonce : Option Content
  created : Option Content

namespace FieldContents

def createdField : Option Content → Content
  | some created => .element ⟨"wsu:Created".toList, []⟩ created .nil
  | none => .nil

def nonceField (nonce created : Option Content) : Content :=
  match nonce with
  | some nonce => .element ⟨"wsse:Nonce".toList, []⟩ nonce (createdField created)
  | none => createdField created

def passwordTag (kind : PasswordType) : Tag := ⟨"wsse:Password".toList, [⟨"Type".toList, kind.uri⟩]⟩

def fields (contents : FieldContents) : Content :=
  .element ⟨"wsse:Username".toList, []⟩ contents.username
    (.element (passwordTag contents.passwordType) contents.password (nonceField contents.nonce contents.created))

def header (contents : FieldContents) : Content :=
  .element securityTag (.element ⟨"wsse:UsernameToken".toList, []⟩ contents.fields .nil) .nil

/-- A property of what stands in each field. -/
structure All (P : Content → Prop) (contents : FieldContents) : Prop where
  username : P contents.username
  password : P contents.password
  nonce : ∀ c, contents.nonce = some c → P c
  created : ∀ c, contents.created = some c → P c

variable {contents : FieldContents}

theorem read_fields (flat : contents.All fun c => c.elements = []) :
    contents.fields.events.foldl TokenState.step (.between none none .digest none none) =
      .between (firstText contents.username) (firstText contents.password) contents.passwordType
        (contents.nonce.bind firstText) (contents.created.bind firstText) := by
  obtain ⟨username, password, passwordType, nonce, created⟩ := contents
  obtain ⟨flatUsername, flatPassword, flatNonce, flatCreated⟩ := flat
  -- in the order they are written: user name, password, nonce, creation time
  have first := (opened_username (inside_between none none .digest none none)).read_element
    (show (Tag.mk "wsse:Username".toList []).Unique by decide) flatUsername (.element (passwordTag passwordType) password (nonceField nonce created))
  have afterUsername : ((firstText username).map fun value =>
      { TokenState.between none none .digest none none with username := some value }).getD
        (.between none none .digest none none) = .between (firstText username) none .digest none none := by
    cases firstText username <;> rfl
  have second := (opened_password (inside_between (firstText username) none .digest none none)
    passwordType).read_element 
    (show (passwordTag passwordType).Unique from List.nodup_singleton _) flatPassword (nonceField nonce created)
  have afterPassword : ((firstText password).map fun value =>
      { TokenState.between (firstText username) none .digest none none with
        password := some value, passwordType := passwordType }).getD
        { TokenState.between (firstText username) none .digest none none with passwordType := passwordType } =
        .between (firstText username) (firstText password) passwordType none none := by
    cases firstText password <;> rfl
  -- the creation time is read the same whether a nonce was there or not
  have fourth (nonceRead : Option Text) : (createdField created).events.foldl TokenState.step
      (.between (firstText username) (firstText password) passwordType nonceRead none) =
      .between (firstText username) (firstText password) passwordType nonceRead (created.bind firstText) := by
    cases created with
    | none => rfl
    | some c =>
      rw [createdField, (opened_created (inside_between _ _ _ _ _)).read_element
        (show (Tag.mk "wsu:Created".toList []).Unique by decide) (flatCreated c rfl) .nil]
      simp only [Option.bind_some]
      cases firstText c <;> rfl
  have third : (nonceField nonce created).events.foldl TokenState.step
      (.between (firstText username) (firstText password) passwordType none none) =
      .between (firstText username) (firstText password) passwordType (nonce.bind firstText)
        (created.bind firstText) := by
    cases nonce with
    | none => exact fourth none
    | some n =>
      have afterNonce : ((firstText n).map fun value =>
          { TokenState.between (firstText username) (firstText password) passwordType none none with
            nonce := some value }).getD
            (.between (firstText username) (firstText password) passwordType none none) =
          .between (firstText username) (firstText password) passwordType (firstText n) none := by
        cases firstText n <;> rfl
      rw [nonceField, (opened_nonce (inside_between _ _ _ _ _)).read_element
        (show (Tag.mk "wsse:Nonce".toList []).Unique by decide) (flatNonce n rfl), afterNonce]
      exact fourth (firstText n)
  rw [afterUsername] at first
  rw [afterPassword] at second
  exact first.trans (second.trans third)

/-- The token a header is read as: of each field the first run of its character data. -/
def token (contents : FieldContents) : Outcome UsernameToken := do
  let username ← okOr "Missing Username in UsernameToken".toList (firstText contents.username)
  let password ← okOr "Missing Password in UsernameToken".toList (firstText contents.password)
  .ok ⟨username, password, contents.passwordType, contents.nonce.bind firstText,
    contents.created.bind firstText⟩

theorem read_header (flat : contents.All fun c => c.elements = []) :
    (readToken .initial (stream contents.header.events) >>= TokenState.finish) = contents.token := by
  have security : TokenState.initial.start securityTag.read = { TokenState.initial with nsMap := headerMap } := by
    rw [Tag.read_of_unique securityTag_lexical.2.2]
    simp only [TokenState.start, TokenState.initial, collectNsAttrs_security]
    rfl
  have userToken : TokenState.start ⟨"wsse:UsernameToken".toList, []⟩
      { TokenState.initial with nsMap := headerMap } = .between none none .digest none none := by
    simp only [TokenState.start, splitName_fields.2.1, collectNsAttrs, List.reduceOption,
      List.filterMap_nil, List.foldl_nil, resolveNs_headerMap, and_self, if_true]
    rfl
  have events : contents.header.events.foldl TokenState.step .initial =
      (((contents.fields.events.foldl TokenState.step (.between none none .digest none none)).close
        "wsse:UsernameToken".toList).close securityTag.name) := by
    simp only [header, Content.events, List.foldl_cons, List.foldl_append, List.foldl_nil,
      TokenState.step, security]
    rw [show (Tag.mk "wsse:UsernameToken".toList []).read = ⟨"wsse:UsernameToken".toList, []⟩ from rfl, userToken]
  rw [← List.append_nil (stream _), readToken_append, events, read_fields flat]
  rfl

/-- What a reader makes of each field: runs of character data joined, trimmed, and dropped when blank. -/
def read (contents : FieldContents) : FieldContents where
  username := contents.username.coalesce.trim
  password := contents.password.coalesce.trim
  passwordType := contents.passwordType
  nonce := contents.nonce.map fun c => c.coalesce.trim
  created := contents.created.map fun c => c.coalesce.trim

theorem header_read (contents : FieldContents) :
    contents.header.coalesce.trim = contents.read.header := by
  obtain ⟨username, password, passwordType, nonce, created⟩ := contents
  cases nonce <;> cases created <;> rfl

theorem All.imp {P Q : Content → Prop} (sub : ∀ c, P c → Q c) (all : contents.All P) :
    contents.All Q :=
  ⟨sub _ all.username, sub _ all.password, fun c given => sub c (all.nonce c given),
    fun c given => sub c (all.created c given)⟩

theorem All.read {P Q : Content → Prop} (sub : ∀ c, P c → Q c.coalesce.trim)
    (all : contents.All P) :
    contents.read.All Q where
  username := sub _ all.username
  password := sub _ all.password
  nonce c given := by
    obtain ⟨raw, had, rfl⟩ := Option.map_eq_some_iff.mp given
    exact sub _ (all.nonce raw had)
  created c given := by
    obtain ⟨raw, had, rfl⟩ := Option.map_eq_some_iff.mp given
    exact sub _ (all.created raw had)

theorem header_allTags {P : Tag → Prop} (security : P securityTag)
    (userToken : P ⟨"wsse:UsernameToken".toList, []⟩) (username : P ⟨"wsse:Username".toList, []⟩)
    (password : P (passwordTag contents.passwordType)) (nonce : P ⟨"wsse:Nonce".toList, []⟩)
    (created : P ⟨"wsu:Created".toList, []⟩) (all : contents.All (Content.AllTags P)) :
    contents.header.AllTags P := by
  obtain ⟨usernameKids, passwordKids, passwordType, nonceKids, createdKids⟩ := contents
  have createdAll : (createdField createdKids).AllTags P := by
    cases given : createdKids with
    | none => trivial
    | some c => exact ⟨created, all.created c given, trivial⟩
  have nonceAll : (nonceField nonceKids createdKids).AllTags P := by
    cases given : nonceKids with
    | none => exact createdAll
    | some n => exact ⟨nonce, all.nonce n given, createdAll⟩
  exact ⟨security, ⟨userToken, ⟨username, all.username, password, all.password, nonceAll⟩, trivial⟩,
    trivial⟩

theorem header_allData {P : Markup.Data → Prop} (all : contents.All (Content.AllData P)) :
    contents.header.AllData P := by
  obtain ⟨usernameKids, passwordKids, passwordType, nonceKids, createdKids⟩ := contents
  have createdAll : (createdField createdKids).AllData P := by
    cases given : createdKids with
    | none => trivial
    | some c => exact ⟨all.created c given, trivial⟩
  have nonceAll : (nonceField nonceKids createdKids).AllData P := by
    cases given : nonceKids with
    | none => exact createdAll
    | some n => exact ⟨all.nonce n given, createdAll⟩
  exact ⟨⟨⟨all.username, all.password, nonceAll⟩, trivial⟩, trivial⟩

theorem passwordTag_lexical (kind : PasswordType) :
    (passwordTag kind).Lexical ∧ (passwordTag kind).QuoteFree ∧ (passwordTag kind).Unique := by
  have names : IsName "wsse:Password".toList ∧ IsName "Type".toList := by decide
  refine ⟨⟨names.1, fun a member => ?_⟩, fun a member => ?_, List.nodup_singleton _⟩
  · obtain rfl := List.mem_singleton.mp member
    exact ⟨names.2, (uri_lexical kind).1⟩
  · obtain rfl := List.mem_singleton.mp member
    exact (uri_lexical kind).2

/-- Character data that is written as it is. -/
structure Flat (c : Content) : Prop where
  elements : c.elements = []
  lexical : c.AllData Markup.Data.Lexical

theorem Flat.allTags {c : Content} (flat : Flat c) (P : Tag → Prop) : c.AllTags P := by
  have elements := flat.elements
  clear flat
  induction c with
  | nil => trivial
  | data d rest ih => exact ih elements
  | empty tag rest _ => cases elements
  | element tag kids rest _ _ => cases elements

theorem header_writable (flat : contents.All Flat) : contents.header.Writable where
  tags := header_allTags securityTag_lexical.1 (by decide) (by decide) (passwordTag_lexical _).1 (by decide)
    (by decide) (flat.imp fun _ flat => flat.allTags _)
  quotes := header_allTags securityTag_lexical.2.1 (by decide) (by decide) (passwordTag_lexical _).2.1 (by decide)
    (by decide) (flat.imp fun _ flat => flat.allTags _)
  data := header_allData (flat.imp fun _ flat => flat.lexical)

theorem elements_trim {c : Content} (flat : c.elements = []) : c.trim.elements = [] := by
  induction c with
  | nil => rfl
  | data d rest ih =>
    cases d with
    | text s =>
      rw [Content.trim]
      split <;> exact ih flat
    | _ => exact ih flat
  | empty tag rest _ => cases flat
  | element tag kids rest _ _ => cases flat

/-- A header whose fields hold character data is read as the first run in each field. -/
theorem parseUsernameToken_contents {ext : Externals} (lawful : ext.xml.Lawful)
    (flat : contents.All Flat) :
    parseUsernameToken ext contents.header.write = contents.read.token := by
  rw [parseUsernameToken, events_trimmed lawful (header_writable flat) rfl, header_read,
    read_header (flat.read fun c flat => elements_trim (by rw [Content.elements_coalesce, flat.elements]; rfl))]

end FieldContents

/-- The contents of a token's fields when every text stands as it is. -/
def UsernameToken.contents (token : UsernameToken) : FieldContents where
  username := .data (.text token.username) .nil
  password := .data (.text token.password) .nil
  passwordType := token.passwordType
  nonce := token.nonce.map fun nonce => .data (.text nonce) .nil
  created := token.created.map fun created => .data (.text created) .nil

theorem UsernameToken.content_eq (token : UsernameToken) :
    token.content = token.contents.header := by
  obtain ⟨username, password, passwordType, nonce, created⟩ := token
  cases nonce <;> cases created <;> rfl

theorem Plain.flat {s : Text} (plain : Plain s) : FieldContents.Flat (.data (.text s) .nil) :=
  ⟨rfl, plain.clean, trivial⟩

theorem Plain.read {s : Text} (plain : Plain s) :
    (Content.data (.text s) .nil).coalesce.trim = .data (.text s) .nil := by
  simp [Content.coalesce, Content.prependText, Content.trim, plain.nonempty, plain.trimmed]

theorem UsernameToken.Plain.contents {token : UsernameToken} (plain : token.Plain) :
    token.contents.All FieldContents.Flat ∧ token.contents.read = token.contents := by
  obtain ⟨username, password, passwordType, nonce, created⟩ := token
  refine ⟨⟨plain.username.flat, plain.password.flat, fun c given => ?_, fun c given => ?_⟩, ?_⟩
  · obtain ⟨text, had, rfl⟩ := Option.map_eq_some_iff.mp given
    exact (plain.nonce text had).flat
  · obtain ⟨text, had, rfl⟩ := Option.map_eq_some_iff.mp given
    exact (plain.created text had).flat
  · have nonceRead : ∀ n, nonce = some n → _ := fun n had => (plain.nonce n had).read
    have createdRead : ∀ c, created = some c → _ := fun c had => (plain.created c had).read
    cases nonce <;> cases created <;>
      simp_all [FieldContents.read, UsernameToken.contents, plain.username.read,
        plain.password.read]

/-- A token of plain texts, written as a header, reads back. -/
theorem parseUsernameToken_header {ext : Externals} (lawful : ext.xml.Lawful)
    {token : UsernameToken} (plain : token.Plain) :
    parseUsernameToken ext token.header = .ok token := by
  obtain ⟨flat, same⟩ := plain.contents
  rw [UsernameToken.header, UsernameToken.content_eq,
    FieldContents.parseUsernameToken_contents lawful flat, same]
  obtain ⟨username, password, passwordType, nonce, created⟩ := token
  cases nonce <;> cases created <;> rfl

end SoapServer.Wssec
