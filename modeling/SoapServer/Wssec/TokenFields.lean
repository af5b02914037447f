import SoapServer.Wssec.TokenNamespaces

/-! Where the fields of a token come from: its variables are set by any element of the right
name inside of any token, and by the first text that follows. -/

set_option autoImplicit false

namespace SoapServer.Wssec

open Markup (Text Content Tag Attribute Event NsEvent ReadTag Scope Element stream)

/-! The tokens of a header. -/

/-- What an element is that stands inside of a token. -/
def fieldOf (scope : Scope) (tag : Tag) : Option TokenElement :=
  tokenElement (Markup.localName tag.name)
    (resolvedUri (Markup.resolveElement (scope.enter tag.attributes) tag.name)) true

def isToken (scope : Scope) (tag : Tag) : Prop := fieldOf scope tag = some .usernameToken

instance (scope : Scope)
    (tag : Tag) : Decidable (isToken scope tag) := by unfold isToken; infer_instance

/-- The tokens at any depth, each as the scope around its children and these. -/
def tokens : Scope → Content → List (Scope × Content)
  | _, .nil => []
  | scope, .data _ rest | scope, .empty _ rest => tokens scope rest
  | scope, .element tag kids rest =>
    (if isToken scope tag then [(scope.enter tag.attributes, kids)] else []) ++
      (tokens (scope.enter tag.attributes) kids ++ tokens scope rest)

/-- The texts that stand directly in a forest. -/
def texts : Content → List Text
  | .nil => []
  | .data (.text s) rest => s :: texts rest
  | .data _ rest | .empty _ rest | .element _ _ rest => texts rest

/-- A value is a text of the element. -/
def holdsText (el : Element)
    (value : Text) : Prop := ∃ kids, el.kids = some kids ∧ value ∈ texts kids

instance (el : Element)
    (value : Text) : Decidable (holdsText el value) := by unfold holdsText; infer_instance

/-- A child of a token holds a value of a field. -/
def Gives (scope : Scope) (kids : Content) (k : TokenElement) (value : Text) : Prop :=
  ∃ el ∈ kids.elements, fieldOf scope el.tag = some k ∧ holdsText el value

instance (scope : Scope) (kids : Content) (k : TokenElement) (value : Text) :
    Decidable (Gives scope kids k value) := by
  unfold Gives
  infer_instance

/-- The type that a `Password` element states itself. -/
def ownType (tag : Tag) : PasswordType := readPasswordType tag.read.attributes .digest

def GivesPassword (scope : Scope) (kids : Content) (value : Text)
    (passwordType : PasswordType) : Prop :=
  ∃ el ∈ kids.elements, fieldOf scope el.tag = some .password ∧ holdsText el value ∧ ownType el.tag = passwordType

instance (scope : Scope) (kids : Content) (value : Text) (passwordType : PasswordType) :
    Decidable (GivesPassword scope kids value passwordType) := by
  unfold GivesPassword
  infer_instance

/-- All fields are taken from children of one token. -/
structure TakenFrom (scope : Scope) (kids : Content) (t : UsernameToken) : Prop where
  username : Gives scope kids .username t.username
  password : GivesPassword scope kids t.password t.passwordType
  nonce : ∀ n ∈ t.nonce, Gives scope kids .nonce n
  created : ∀ c ∈ t.created, Gives scope kids .created c

instance (scope : Scope) (kids : Content)
    (t : UsernameToken) : Decidable (TakenFrom scope kids t) :=
  decidable_of_iff (Gives scope kids .username t.username ∧ GivesPassword scope kids t.password t.passwordType ∧
      (∀ n ∈ t.nonce, Gives scope kids .nonce n) ∧ ∀ c ∈ t.created, Gives scope kids .created c)
    ⟨fun h => ⟨h.1, h.2.1, h.2.2.1, h.2.2.2⟩, fun h => ⟨h.username, h.password, h.nonce, h.created⟩⟩

def FromOneToken (c : Content) (t : UsernameToken) : Prop :=
  ∃ token ∈ tokens Scope.initial c, TakenFrom token.1 token.2 t

instance (c : Content)
    (t : UsernameToken) : Decidable (FromOneToken c t) := by unfold FromOneToken; infer_instance

/-! Headers whose fields come from one token. -/

/-- No element with the name of the field stands inside of a token. -/
def Quiet (k : TokenElement) : Scope → Bool → Content → Prop
  | _, _, .nil => True
  | scope, inside, .data _ rest | scope, inside, .empty _ rest => Quiet k scope inside rest
  | scope, inside, .element tag kids rest =>
    (inside = true → fieldOf scope tag ≠ some k) ∧
      Quiet k (scope.enter tag.attributes) (inside || decide (isToken scope tag)) kids ∧ Quiet k scope inside rest

instance decidableQuiet (k : TokenElement) :
    (scope : Scope) → (inside : Bool) → (c : Content) → Decidable (Quiet k scope inside c)
  | _, _, .nil => inferInstanceAs (Decidable True)
  | scope, inside, .data _ rest | scope, inside, .empty _ rest => decidableQuiet k scope inside rest
  | scope, inside, .element tag kids rest =>
    have := decidableQuiet k (scope.enter tag.attributes) (inside || decide (isToken scope tag)) kids
    have := decidableQuiet k scope inside rest
    inferInstanceAs (Decidable ((inside = true → fieldOf scope tag ≠ some k) ∧
      Quiet k (scope.enter tag.attributes) (inside || decide (isToken scope tag)) kids ∧ Quiet k scope inside rest))

/-- There is no text at any depth. -/
def Textless : Content → Prop
  | .nil => True
  | .data (.text _) _ => False
  | .data _ rest | .empty _ rest => Textless rest
  | .element _ kids rest => Textless kids ∧ Textless rest

instance decidableTextless : (c : Content) → Decidable (Textless c)
  | .nil => inferInstanceAs (Decidable True)
  | .data d rest =>
    match d with
    | .text _ => inferInstanceAs (Decidable False)
    | .cdata _ | .generalRef _ | .comment _ | .pi _ | .decl _ | .docType _ => decidableTextless rest
  | .empty _ rest => decidableTextless rest
  | .element _ kids rest =>
    have := decidableTextless kids
    have := decidableTextless rest
    inferInstanceAs (Decidable (Textless kids ∧ Textless rest))

/-- The first text, if there is one, stands directly in the forest. -/
def Direct : Content → Prop
  | .nil => True
  | .data (.text _) _ => True
  | .data _ rest | .empty _ rest => Direct rest
  | .element _ kids rest => Textless kids ∧ Direct rest

instance decidableDirect : (c : Content) → Decidable (Direct c)
  | .nil => inferInstanceAs (Decidable True)
  | .data d rest =>
    match d with
    | .text _ => inferInstanceAs (Decidable True)
    | .cdata _ | .generalRef _ | .comment _ | .pi _ | .decl _ | .docType _ => decidableDirect rest
  | .empty _ rest => decidableDirect rest
  | .element _ kids rest =>
    have := decidableDirect rest
    inferInstanceAs (Decidable (Textless kids ∧ Direct rest))

/-- There is a text before every element that is not empty. -/
def TextAhead : Content → Prop
  | .nil => False
  | .data (.text _) _ => True
  | .data _ rest | .empty _ rest => TextAhead rest
  | .element _ _ _ => False

instance decidableTextAhead : (c : Content) → Decidable (TextAhead c)
  | .nil => inferInstanceAs (Decidable False)
  | .data d rest =>
    match d with
    | .text _ => inferInstanceAs (Decidable True)
    | .cdata _ | .generalRef _ | .comment _ | .pi _ | .decl _ | .docType _ => decidableTextAhead rest
  | .empty _ rest => decidableTextAhead rest
  | .element _ _ _ => inferInstanceAs (Decidable False)

/-- No end tag has the local name of a token. -/
def TokenOpen : Content → Prop
  | .nil => True
  | .data _ rest | .empty _ rest => TokenOpen rest
  | .element tag kids rest => Markup.localName tag.name ≠ "UsernameToken".toList ∧ TokenOpen kids ∧ TokenOpen rest

instance decidableTokenOpen : (c : Content) → Decidable (TokenOpen c)
  | .nil => inferInstanceAs (Decidable True)
  | .data _ rest | .empty _ rest => decidableTokenOpen rest
  | .element tag kids rest =>
    have := decidableTokenOpen kids
    have := decidableTokenOpen rest
    inferInstanceAs (Decidable
      (Markup.localName tag.name ≠ "UsernameToken".toList ∧ TokenOpen kids ∧ TokenOpen rest))

/-- A field with a text of its own, and a `Password` with a type of its own. -/
def Complete (k : TokenElement) (tag : Tag) (kids : Content) : Prop :=
  TextAhead kids ∧ (k = .password → ∃ a ∈ tag.read.attributes.reduceOption, a.key = "Type".toList)

instance (k : TokenElement) (tag : Tag) (kids : Content) : Decidable (Complete k tag kids) := by
  unfold Complete
  infer_instance

/-- Where a variable stands in relation to one token: not set by anything yet, set by nothing
but children of the token, or perhaps by something else. -/
inductive Standing where
  | fresh
  | given
  | foreign
  deriving DecidableEq, Repr

/-- What a child with the name of the field makes of its variable; `live` says that the token
is still open. -/
def Standing.afterField (live : Bool) (k : TokenElement) (tag : Tag) (kids : Content) :
    Standing → Standing
  | .fresh => .given
  -- a second `Password` may leave its type next to the text of the first one
  | .given => if k = .password ∧ ¬ Complete k tag kids then .foreign else .given
  | .foreign => if live = true ∧ Complete k tag kids then .given else .foreign

def Standing.afterChild (live : Bool) (k : TokenElement) (scope : Scope) (tag : Tag)
    (kids : Content) (standing : Standing) : Standing :=
  if Quiet k (scope.enter tag.attributes) true kids then
    if fieldOf scope tag = some k then
      if Direct kids then standing.afterField live k tag kids else .foreign
    else standing
  else .foreign

/-- After all children of the token. -/
def Standing.afterChildren (k : TokenElement) (scope : Scope) : Bool → Standing → Content → Standing
  | _, standing, .nil => standing
  | live, standing, .data _ rest | live, standing, .empty _ rest => standing.afterChildren k scope live rest
  | live, standing, .element tag kids rest =>
    (standing.afterChild live k scope tag kids).afterChildren k scope
      (live && decide (TokenOpen (.element tag kids .nil))) rest

/-- After an element outside of the token. -/
def Standing.past (k : TokenElement) (scope : Scope) (inside : Bool) (tag : Tag) (kids : Content)
    (standing : Standing) : Standing :=
  if Quiet k scope inside (.element tag kids .nil) then standing else .foreign

def fields : List TokenElement := [.username, .password, .nonce, .created]

/-- There is one token whose children alone decide what is read: what stands before it is
read over, and nothing with the name of a field comes after it. Or else no element gives a
user name, or none a password. -/
def OneToken (scope : Scope) (inside : Bool) (standings : TokenElement → Standing) : Content → Prop
  | .nil => standings .username = .fresh ∨ standings .password = .fresh
  | .data _ rest | .empty _ rest => OneToken scope inside standings rest
  | .element tag kids rest =>
    OneToken scope inside (fun k => (standings k).past k scope inside tag kids) rest ∨
      (∀ k ∈ fields, Quiet k scope inside rest) ∧
        (isToken scope tag ∧
            (∀ k ∈ fields, (standings k).afterChildren k (scope.enter tag.attributes) true kids ≠ .foreign) ∨
          (inside = true → ∀ k ∈ fields, fieldOf scope tag ≠ some k) ∧
            OneToken (scope.enter tag.attributes) (inside || decide (isToken scope tag)) standings kids)

instance decidableOneToken :
    (scope : Scope) → (inside : Bool) → (standings : TokenElement → Standing) →
    (c : Content) → Decidable (OneToken scope inside standings c)
  | _, _, standings, .nil =>
    inferInstanceAs (Decidable (standings .username = .fresh ∨ standings .password = .fresh))
  | scope, inside, standings, .data _ rest | scope, inside, standings, .empty _ rest =>
    decidableOneToken scope inside standings rest
  | scope, inside, standings, .element tag kids rest =>
    have := decidableOneToken scope inside (fun k => (standings k).past k scope inside tag kids) rest
    have := decidableOneToken (scope.enter tag.attributes) (inside || decide (isToken scope tag)) standings kids
    inferInstanceAs (Decidable (OneToken scope inside (fun k => (standings k).past k scope inside tag kids) rest ∨
      (∀ k ∈ fields, Quiet k scope inside rest) ∧
        (isToken scope tag ∧
            (∀ k ∈ fields, (standings k).afterChildren k (scope.enter tag.attributes) true kids ≠ .foreign) ∨
          (inside = true → ∀ k ∈ fields, fieldOf scope tag ≠ some k) ∧
            OneToken (scope.enter tag.attributes) (inside || decide (isToken scope tag)) standings kids)))

/-! The reader on a forest. -/

def TokenState.run (st : TokenState) (c : Content) : TokenState := c.events.foldl TokenState.step st

theorem run_element (st : TokenState) (tag : Tag) (kids rest : Content) :
    st.run (.element tag kids rest) = (((st.start tag.read).run kids).close tag.name).run rest := by
  simp only [TokenState.run, Content.events, List.foldl_cons, List.foldl_append]
  rfl

theorem run_append (st : TokenState) (a b : Content) : st.run (a.append b) = (st.run a).run b := by
  induction a generalizing st with
  | nil => rfl
  | data d rest ih => exact ih (st.step (.data d))
  | empty tag rest ih => exact ih (st.step (.empty tag.read))
  | element tag kids rest _ ih => rw [Content.append, run_element, run_element, ih]

theorem sees_append (c : Content) (scope : Scope) (st : TokenState) (after : List NsEvent) :
    Sees st (c.resolved scope ++ after) ↔ Sees st (c.resolved scope) ∧ Sees (st.run c) after := by
  induction c generalizing scope st after with
  | nil => simp [Content.resolved, Sees, TokenState.run, Content.events]
  | data d rest ih => exact ih scope (st.step (.data d)) after
  | empty tag rest ih =>
    simp only [Content.resolved, List.cons_append, Sees, ih, and_assoc]
    rfl
  | element tag kids rest kidsIH restIH =>
    rw [run_element]
    simp only [Content.resolved, List.cons_append, List.append_assoc, Sees, kidsIH, restIH,
      and_assoc]
    rfl

/-- What the reader sees of an element: the element itself, its content and what follows. -/
theorem sees_element {scope : Scope} {st : TokenState} {tag : Tag} {kids rest : Content}
    (sees : Sees st ((Content.element tag kids rest).resolved scope)) :
    Agrees st (Markup.resolveElement (scope.enter tag.attributes) tag.name) tag.read ∧
      Sees (st.start tag.read) (kids.resolved (scope.enter tag.attributes)) ∧
      Sees (((st.start tag.read).run kids).close tag.name) (rest.resolved scope) := by
  rw [Content.resolved, Sees, sees_append, Sees] at sees
  exact sees

/-- What the reader sees of a forest: of its first element, and of what follows. -/
theorem sees_rest {scope : Scope} {st : TokenState} {tag : Tag} {kids rest : Content}
    (sees : Sees st ((Content.element tag kids rest).resolved scope)) :
    Sees st ((Content.element tag kids .nil).resolved scope) ∧
      Sees (st.run (.element tag kids .nil)) (rest.resolved scope) := by
  rw [← sees_append]
  simpa [Content.resolved] using sees

theorem run_rest (st : TokenState) (tag : Tag) (kids rest : Content) :
    st.run (.element tag kids rest) = (st.run (.element tag kids .nil)).run rest :=
  run_append st (.element tag kids .nil) rest

/-! Variables and flags. -/

/-- The flag of an element. -/
def TokenState.flag (st : TokenState) : TokenElement → Bool
  | .usernameToken => st.inUsernameToken
  | .username => st.inUsernameElem
  | .password => st.inPasswordElem
  | .nonce => st.inNonceElem
  | .created => st.inCreatedElem

/-- The variable of a field. -/
def TokenState.value (st : TokenState) : TokenElement → Option Text
  | .usernameToken => none
  | .username => st.username
  | .password => st.password
  | .nonce => st.nonce
  | .created => st.created

/-- At most the given field is open. -/
def TokenState.OnlyIn (st : TokenState) (k : TokenElement) : Prop :=
  ∀ other ∈ fields, st.flag other = true → other = k

/-- No field is open. -/
def TokenState.Between (st : TokenState) : Prop := ∀ k ∈ fields, st.flag k = false

/-- The variables of a field are the same. -/
structure Keeps (k : TokenElement) (st st' : TokenState) : Prop where
  value : st'.value k = st.value k
  passwordType : k = .password → st'.passwordType = st.passwordType

theorem Keeps.refl (k : TokenElement) (st : TokenState) : Keeps k st st := ⟨rfl, fun _ => rfl⟩

theorem Keeps.trans {k : TokenElement} {a b c : TokenState} (first : Keeps k a b)
    (second : Keeps k b c) :
    Keeps k a c :=
  ⟨second.value.trans first.value,
    fun password => (second.passwordType password).trans (first.passwordType password)⟩

theorem mem_fields {k : TokenElement} : k ∈ fields ↔ k ≠ .usernameToken := by cases k <;> decide

/-- The local name of an element. -/
def TokenElement.name : TokenElement → Text
  | .usernameToken => "UsernameToken".toList
  | .username => "Username".toList
  | .password => "Password".toList
  | .nonce => "Nonce".toList
  | .created => "Created".toList

theorem tokenElement_name {l : Text} {ns : Option Text} {inside : Bool} {k : TokenElement}
    (is : tokenElement l ns inside = some k) : l = k.name ∧ tokenElement l ns true = some k ∧
      (k ≠ .usernameToken → inside = true) := by
  have recognised := is
  unfold tokenElement at is
  split_ifs at is with token username password nonce created <;> cases Option.some.inj is
  · exact ⟨token.1, if_pos token, fun other => absurd rfl other⟩
  · exact ⟨username.1, username.2.2 ▸ recognised, fun _ => username.2.2⟩
  · exact ⟨password.1, password.2.2 ▸ recognised, fun _ => password.2.2⟩
  · exact ⟨nonce.1, nonce.2.2 ▸ recognised, fun _ => nonce.2.2⟩
  · exact ⟨created.1, created.2.2 ▸ recognised, fun _ => created.2.2⟩

theorem tokenElement_token {l : Text} {ns : Option Text}
    (is : tokenElement l ns true = some .usernameToken) (inside : Bool) :
    tokenElement l ns inside = some .usernameToken := by
  unfold tokenElement at is ⊢
  split_ifs at is with token <;> cases Option.some.inj is
  exact if_pos token

/-- What a start tag does: it sets no variable but the password type, and opens what it names. -/
structure StartsAs (scope : Scope) (tag : Tag) (st : TokenState) (e : Option TokenElement) :
    Prop where
  named : ∀ k, e = some k → k.name = Markup.localName tag.name
  field : ∀ k, e = some k → fieldOf scope tag = some k
  inside : ∀ k ∈ fields, e = some k → st.flag .usernameToken = true
  all : st.flag .usernameToken = true → e = fieldOf scope tag
  token : isToken scope tag → e = some .usernameToken
  value : ∀ k, (st.start tag.read).value k = st.value k
  flag : ∀ k, (st.start tag.read).flag k = true ↔ st.flag k = true ∨ e = some k
  passwordType : (st.start tag.read).passwordType =
    if e = some .password then readPasswordType tag.read.attributes st.passwordType else st.passwordType

theorem startsAs {scope : Scope} {tag : Tag} {st : TokenState}
    (agrees : Agrees st (Markup.resolveElement (scope.enter tag.attributes) tag.name) tag.read) :
    StartsAs scope tag st (tokenElement (Markup.localName tag.name)
      (resolvedUri (Markup.resolveElement (scope.enter tag.attributes) tag.name)) st.inUsernameToken) := by
  have start := st.start_opens tag.read
  rw [agrees.recognised] at start
  change st.start tag.read = TokenState.opens _ _ (tokenElement (Markup.localName tag.name) _ _) at start
  refine ⟨fun k is => (tokenElement_name is).1.symm, fun k is => (tokenElement_name is).2.1,
    fun k field is => (tokenElement_name is).2.2 (mem_fields.mp field), fun inside =>
      ?_, fun token => ?_, ?_, ?_, ?_⟩
  · exact congrArg (tokenElement _ _) inside
  · exact tokenElement_token token st.inUsernameToken
  all_goals
    rw [start]
    generalize tokenElement (Markup.localName tag.name) _ _ = e
  · intro k
    rcases e with _ | e
    · rfl
    · cases e <;> cases k <;> rfl
  · intro k
    rcases e with _ | e
    · exact (or_iff_left (by nofun)).symm
    · cases e <;> cases k <;> simp [TokenState.opens, TokenState.flag]
  · rcases e with _ | e
    · rfl
    · cases e <;> rfl

theorem TokenElement.name_inj {k other : TokenElement} (same : k.name = other.name) :
    k = other := by
  revert same
  cases k <;> cases other <;> decide

/-- The flag of an element is lowered. -/
def TokenState.shut (st : TokenState) : TokenElement → TokenState
  | .usernameToken => { st with inUsernameToken := false }
  | .username => { st with inUsernameElem := false }
  | .password => { st with inPasswordElem := false }
  | .nonce => { st with inNonceElem := false }
  | .created => { st with inCreatedElem := false }

theorem close_cases (name : Text) (st : TokenState) :
    (∃ k : TokenElement, k.name = Markup.localName name ∧ st.close name = st.shut k) ∨
      (∀ k : TokenElement, k.name ≠ Markup.localName name) ∧ st.close name = st := by
  rw [← splitName_localName]
  unfold TokenState.close
  simp only
  split_ifs with token username password nonce created
  · exact .inl ⟨.usernameToken, token.symm, rfl⟩
  · exact .inl ⟨.username, username.symm, rfl⟩
  · exact .inl ⟨.password, password.symm, rfl⟩
  · exact .inl ⟨.nonce, nonce.symm, rfl⟩
  · exact .inl ⟨.created, created.symm, rfl⟩
  · refine .inr ⟨fun k => ?_, rfl⟩
    cases k
    exacts [Ne.symm token, Ne.symm username, Ne.symm password, Ne.symm nonce, Ne.symm created]

/-- What an end tag does: it changes no variable, opens nothing, and closes what has its name. -/
structure EndsAs (name : Text) (st : TokenState) : Prop where
  value : ∀ k, (st.close name).value k = st.value k
  passwordType : (st.close name).passwordType = st.passwordType
  flag : ∀ k, (st.close name).flag k = true ↔ st.flag k = true ∧ k.name ≠ Markup.localName name

theorem endsAs (name : Text) (st : TokenState) : EndsAs name st := by
  rcases close_cases name st with ⟨k, named, closed⟩ | ⟨unnamed, closed⟩
  · have flag (other : TokenElement) : (st.shut k).flag other = true ↔ st.flag other = true ∧ other ≠ k := by
      cases k <;> cases other <;> simp [TokenState.shut, TokenState.flag]
    have different (other : TokenElement) : other.name ≠ Markup.localName name ↔ other ≠ k := by
      rw [← named]
      exact not_congr ⟨TokenElement.name_inj, fun same => congrArg TokenElement.name same⟩
    refine ⟨fun other => ?_, ?_, fun other => ?_⟩
    · rw [closed]
      cases k <;> cases other <;> rfl
    · rw [closed]
      cases k <;> rfl
    · rw [closed, flag, different]
  · refine ⟨fun k => congrArg (TokenState.value · k) closed,
      congrArg TokenState.passwordType closed, fun k => ?_⟩
    rw [closed]
    exact (and_iff_left (unnamed k)).symm

/-- A text lowers flags, and changes nothing of a field that is not open. -/
theorem text_lowers (st : TokenState) (raw : Text) (k : TokenElement) :
    (st.text raw).flag k = true → st.flag k = true := by
  unfold TokenState.text
  split_ifs <;> cases k <;> simp [TokenState.flag]

theorem text_keeps {st : TokenState} {k : TokenElement} (off : st.flag k = false) (raw : Text) :
    Keeps k st (st.text raw) := by
  unfold TokenState.text
  split_ifs with username password nonce created <;> refine ⟨?_, fun _ => rfl⟩
  · cases k with
    | username => exact absurd username (by simpa [TokenState.flag] using off)
    | _ => rfl
  · cases k with
    | password => exact absurd password (by simpa [TokenState.flag] using off)
    | _ => rfl
  · cases k with
    | nonce => exact absurd nonce (by simpa [TokenState.flag] using off)
    | _ => rfl
  · cases k with
    | created => exact absurd created (by simpa [TokenState.flag] using off)
    | _ => rfl
  · rfl

theorem text_token (st : TokenState) (raw : Text) :
    (st.text raw).flag .usernameToken = st.flag .usernameToken := by
  unfold TokenState.text
  split_ifs <;> rfl

/-- Between the fields no text is kept. -/
theorem data_between {st : TokenState} (between : st.Between) (d : Markup.Data) :
    st.step (.data d) = st := by
  cases d with
  | text raw =>
    have username : st.inUsernameElem = false := between .username (by decide)
    have password : st.inPasswordElem = false := between .password (by decide)
    have nonce : st.inNonceElem = false := between .nonce (by decide)
    have created : st.inCreatedElem = false := between .created (by decide)
    simp [TokenState.step, TokenState.text, username, password, nonce, created]
  | _ => rfl

/-- A text goes to the one open field, and closes it. -/
theorem text_onlyIn {st : TokenState} {k : TokenElement} (only : st.OnlyIn k) (member : k ∈ fields)
    (isOpen : st.flag k = true) (raw : Text) :
    (st.text raw).value k = some raw ∧ (st.text raw).passwordType = st.passwordType ∧
      (st.text raw).flag k = false := by
  have others (other : TokenElement) (field : other ∈ fields) (different : other ≠ k) : st.flag other = false := by
    by_contra set
    exact different (only other field (by simpa using set))
  have username := others .username (by decide)
  have password := others .password (by decide)
  have nonce := others .nonce (by decide)
  unfold TokenState.text
  cases k with
  | usernameToken => exact absurd member (by decide)
  | username => simp_all [TokenState.flag, TokenState.value]
  | password => simp_all [TokenState.flag, TokenState.value]
  | nonce => simp_all [TokenState.flag, TokenState.value]
  | created => simp_all [TokenState.flag, TokenState.value]

/-! A run over a forest. -/

theorem data_lowers (st : TokenState) (d : Markup.Data) (k : TokenElement) :
    (st.step (.data d)).flag k = true → st.flag k = true := by
  cases d <;> first | exact id | exact text_lowers st _ k

theorem empty_keeps (st : TokenState) (tag : ReadTag) (k : TokenElement) :
    Keeps k st (st.empty tag) := by
  unfold TokenState.empty
  simp only
  split_ifs <;> cases k <;> exact ⟨rfl, fun _ => rfl⟩

theorem empty_flag (st : TokenState) (tag : ReadTag) (k : TokenElement) :
    (st.empty tag).flag k = st.flag k := by
  unfold TokenState.empty
  simp only
  split_ifs <;> cases k <;> rfl

variable {k : TokenElement} {e : Option TokenElement} {scope : Scope} {inside : Bool}
    {st : TokenState}
  {c kids : Content} {tag : Tag}

/-- An element closes what it opens. -/
theorem element_flags (starts : StartsAs scope tag st e)
    (kidsFlags : ((st.start tag.read).run kids).flag k = true → (st.start tag.read).flag k = true) :
    (((st.start tag.read).run kids).close tag.name).flag k = true → st.flag k = true := by
  intro set
  obtain ⟨left, unnamed⟩ := ((endsAs _ _).flag k).mp set
  exact ((starts.flag k).mp (kidsFlags left)).resolve_right fun opened =>
    unnamed (starts.named k opened)

/-- What is open after a forest was open before it. -/
theorem run_flags (sees : Sees st (c.resolved scope)) :
    (st.run c).flag k = true → st.flag k = true := by
  induction c generalizing scope st with
  | nil => exact id
  | data d rest ih => exact fun set => data_lowers st d k (@ih scope (st.step (.data d)) sees set)
  | empty tag rest ih =>
    exact fun set => empty_flag st tag.read k ▸ @ih scope (st.step (.empty tag.read)) sees.2 set
  | element tag kids rest kidsIH restIH =>
    obtain ⟨agrees, inner, later⟩ := sees_element sees
    intro set
    rw [run_element] at set
    exact element_flags (startsAs agrees) (kidsIH inner) (restIH later set)

theorem element_off (starts : StartsAs scope tag st e)
    (kidsFlags : ((st.start tag.read).run kids).flag k = true → (st.start tag.read).flag k = true)
    (off : st.flag k = false) : (((st.start tag.read).run kids).close tag.name).flag k = false := by
  by_contra set
  have := element_flags starts kidsFlags (by simpa using set)
  simp [off] at this

theorem start_keeps (starts : StartsAs scope tag st e) (other : e ≠ some k) :
    Keeps k st (st.start tag.read) ∧ (st.start tag.read).flag k = st.flag k := by
  refine ⟨⟨starts.value k, fun password => ?_⟩,
    Bool.eq_iff_iff.mpr ((starts.flag k).trans (or_iff_left other))⟩
  rw [starts.passwordType, if_neg (password ▸ other)]

theorem start_within (starts : StartsAs scope tag st e)
    (within : st.flag .usernameToken = true → inside = true) :
    (st.start tag.read).flag .usernameToken = true → (inside || decide (isToken scope tag)) = true := by
  intro set
  rw [Bool.or_eq_true, decide_eq_true_iff]
  exact ((starts.flag _).mp set).imp within (starts.field _)

theorem close_keeps (k : TokenElement) (st : TokenState) (name : Text) :
    Keeps k st (st.close name) :=
  ⟨(endsAs name st).value k, fun _ => (endsAs name st).passwordType⟩

theorem run_between (sees : Sees st (c.resolved scope)) (between : st.Between) :
    (st.run c).Between := by
  intro k member
  by_contra set
  have before := run_flags sees (by simpa using set)
  simp [between k member] at before

/-- The content of an element leaves no more open than was. -/
theorem run_only {scope : Scope} (sees : Sees st (c.resolved scope)) (only : st.OnlyIn k) :
    (st.run c).OnlyIn k :=
  fun other member set => only other member (run_flags sees set)

/-- Reading over a forest in which a field is not named keeps its variable, unless a text is
read while the field is open. -/
theorem quiet_keeps (member : k ∈ fields) (quiet : Quiet k scope inside c)
    (sees : Sees st (c.resolved scope)) (within : st.flag .usernameToken = true → inside = true)
    (off : st.flag k = false ∨ Textless c) :
    Keeps k st (st.run c) := by
  induction c generalizing scope inside st with
  | nil => exact .refl k st
  | data d rest ih =>
    have step : Keeps k st (st.step (.data d)) := by
      cases d with
      | text raw => exact text_keeps (off.resolve_right id) raw
      | _ => exact .refl k st
    have lower : st.flag k = false → (st.step (.data d)).flag k = false := by
      intro before
      by_contra set
      have := data_lowers st d k (by simpa using set)
      simp [before] at this
    refine step.trans (ih quiet sees (fun set => within (data_lowers st d _ set)) (off.imp lower ?_))
    cases d with
    | text raw => exact False.elim
    | _ => exact id
  | empty tag rest ih =>
    refine (empty_keeps st tag.read k).trans (@ih scope inside (st.empty tag.read) quiet sees.2 ?_ ?_)
    · exact fun set => within (empty_flag st tag.read _ ▸ set)
    · exact off.imp (fun before => (empty_flag st tag.read k).trans before) id
  | element tag kids rest kidsIH restIH =>
    obtain ⟨agrees, inner, later⟩ := sees_element sees
    have starts := startsAs agrees
    -- the element is not the field, so that its variable and flag stay as they are
    have other := fun is => quiet.1 (within (starts.inside k member is)) (starts.field k is)
    have started := start_keeps starts other
    have kidsKeep := kidsIH quiet.2.1 inner (start_within starts within) (off.imp started.2.trans And.left)
    have restKeep := restIH quiet.2.2 later
      (fun set => within (element_flags starts (run_flags inner) set))
      (off.imp (fun before => element_off starts (run_flags inner) before) And.right)
    rw [run_element]
    exact ((started.1.trans kidsKeep).trans (close_keeps k _ _)).trans restKeep

/-- Inside of a field the first text is stored, if the field is still open there. -/
theorem field_read (member : k ∈ fields) (quiet : Quiet k scope true c) (direct : Direct c)
    (sees : Sees st (c.resolved scope)) (only : st.OnlyIn k) :
    (k = .password → (st.run c).passwordType = st.passwordType) ∧
      ((st.run c).value k = st.value k ∨ ∃ v ∈ texts c, (st.run c).value k = some v) ∧
      (TextAhead c → st.flag k = true → ∃ v ∈ texts c, (st.run c).value k = some v) := by
  induction c generalizing st with
  | nil => exact ⟨fun _ => rfl, .inl rfl, False.elim⟩
  | data d rest ih =>
    cases d with
    | text raw =>
      by_cases isOpen : st.flag k = true
      · obtain ⟨stored, passwordType, off⟩ := text_onlyIn only member isOpen raw
        have later : Keeps k (st.text raw) ((st.text raw).run rest) :=
          quiet_keeps member quiet sees (fun _ => rfl) (.inl off)
        have set : ∃ v ∈ texts (.data (.text raw) rest), (st.run (.data (.text raw) rest)).value k = some v :=
          ⟨raw, List.mem_cons_self, later.value.trans stored⟩
        exact ⟨fun password => (later.passwordType password).trans passwordType, .inr set,
          fun _ _ => set⟩
      · have off : st.flag k = false := by simpa using isOpen
        have unchanged := quiet_keeps (c := .data (.text raw) rest) member quiet sees (fun _ => rfl) (.inl off)
        exact ⟨unchanged.passwordType, .inl unchanged.value, fun _ set => absurd set isOpen⟩
    | _ => exact ih quiet direct sees only
  | empty tag rest ih =>
    have step := empty_keeps st tag.read k
    have flags := empty_flag st tag.read
    obtain ⟨passwordType, value, ahead⟩ := @ih (st.empty tag.read) quiet direct sees.2
      (fun other field set => only other field (flags other ▸ set))
    rw [step.value, flags] at *
    exact ⟨fun password => (passwordType password).trans (step.passwordType password), value, ahead⟩
  | element tag kids rest _ ih =>
    -- an element before the first text holds none itself
    obtain ⟨first, later⟩ := sees_rest sees
    have alone : Quiet k scope true (.element tag kids .nil) := ⟨quiet.1, quiet.2.1, trivial⟩
    have unchanged := quiet_keeps member alone first (fun _ => rfl) (.inr ⟨direct.1, trivial⟩)
    obtain ⟨passwordType, value, _⟩ := ih quiet.2.2 direct.2 later (run_only first only)
    rw [run_rest]
    exact ⟨fun password => (passwordType password).trans (unchanged.passwordType password),
      value.imp_left (Eq.trans · unchanged.value), False.elim⟩

end SoapServer.Wssec
