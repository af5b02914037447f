import SoapServer.Wssec.TokenFields

/-! A token is read from one element of its header, where one token decides every field. -/

set_option autoImplicit false

namespace SoapServer.Wssec

open Markup (Text Content Tag Attribute Scope Element stream)

variable {k : TokenElement} {e : Option TokenElement} {scope : Scope} {inside : Bool}
    {st : TokenState}
  {c kids : Content} {tag : Tag}

/-! The children of a token. -/

/-- The variable of a field is as it was before the first event. -/
structure Unset (k : TokenElement) (st : TokenState) : Prop where
  value : st.value k = none
  passwordType : k = .password → st.passwordType = .digest

/-- The variable of a field, if it is set, is what a child of the token gives. -/
def Given (k : TokenElement) (scope : Scope) (all : Content) (st : TokenState) : Prop :=
  ∀ v, st.value k = some v → ∃ el ∈ all.elements, fieldOf scope el.tag = some k ∧ holdsText el v ∧
    (k = .password → ownType el.tag = st.passwordType)

def Standing.Holds (k : TokenElement) (scope : Scope) (all : Content) (st : TokenState) :
    Standing → Prop
  | .fresh => Unset k st
  | .given => Given k scope all st
  | .foreign => True

variable {all : Content} {st' : TokenState} {live : Bool}

theorem Unset.kept (unset : Unset k st) (keeps : Keeps k st st') : Unset k st' :=
  ⟨keeps.value.trans unset.value, fun password => (keeps.passwordType password).trans (unset.passwordType password)⟩

theorem Unset.given (unset : Unset k st) : Given k scope all st :=
  fun v set => by rw [unset.value] at set; cases set

theorem Given.kept (given : Given k scope all st) (keeps : Keeps k st st') :
    Given k scope all st' := by
  intro v set
  obtain ⟨el, member, field, holds, own⟩ := given v (keeps.value.symm.trans set)
  exact ⟨el, member, field, holds, fun password => (own password).trans (keeps.passwordType password).symm⟩

theorem Standing.Holds.kept {standing : Standing} (held : standing.Holds k scope all st)
    (keeps : Keeps k st st') :
    standing.Holds k scope all st' := by
  cases standing with
  | fresh => exact Unset.kept held keeps
  | given => exact Given.kept held keeps
  | foreign => trivial

/-- A type of its own makes the type of before irrelevant. -/
theorem readPasswordType_typed {attributes : List (Option Attribute)}
    (typed : ∃ a ∈ attributes.reduceOption, a.key = "Type".toList) (before after : PasswordType) :
    readPasswordType attributes before = readPasswordType attributes after := by
  unfold readPasswordType
  generalize attributes.reduceOption = attributes at typed
  induction attributes generalizing before after with
  | nil => exact absurd typed (by simp)
  | cons a rest ih =>
    rw [List.foldl_cons, List.foldl_cons]
    by_cases named : a.key = "Type".toList
    · rw [if_pos named, if_pos named]
    · rw [if_neg named, if_neg named]
      obtain ⟨b, member, key⟩ := typed
      have different : b ≠ a := fun same => named (same ▸ key)
      exact ih before after ⟨b, (List.mem_cons.mp member).resolve_left different, key⟩

/-- What reading a child does that opens the field: its text, or nothing, goes to the variable. -/
structure ChildRead (k : TokenElement) (tag : Tag) (kids : Content) (st st' : TokenState) :
    Prop where
  passwordType : k = .password → st'.passwordType = readPasswordType tag.read.attributes st.passwordType
  value : st'.value k = st.value k ∨ ∃ v ∈ texts kids, st'.value k = some v
  ahead : TextAhead kids → ∃ v ∈ texts kids, st'.value k = some v

theorem child_read (member : k ∈ fields) (starts : StartsAs scope tag st (some k))
    (between : st.Between) (quiet : Quiet k (scope.enter tag.attributes) true kids)
    (direct : Direct kids)
    (sees : Sees (st.start tag.read) (kids.resolved (scope.enter tag.attributes))) :
    ChildRead k tag kids st (st.run (.element tag kids .nil)) := by
  have only : (st.start tag.read).OnlyIn k := by
    intro other field set
    refine ((starts.flag other).mp set).elim (fun before => ?_) fun same =>
      (Option.some.inj same).symm
    simp [between other field] at before
  obtain ⟨passwordType, value, ahead⟩ := field_read member quiet direct sees only
  have closes := close_keeps k ((st.start tag.read).run kids) tag.name
  have run : st.run (.element tag kids .nil) = ((st.start tag.read).run kids).close tag.name :=
    run_element st tag kids .nil
  rw [starts.value] at value
  refine ⟨fun password => ?_, ?_, fun text => ?_⟩
  · rw [run, closes.passwordType password, passwordType password, starts.passwordType,
      if_pos (congrArg some password)]
  · rw [run, closes.value]
    exact value
  · rw [run, closes.value]
    exact ahead text ((starts.flag k).mpr (.inr rfl))

/-- What reading a child does that does not open the field: nothing. -/
theorem child_keeps (member : k ∈ fields) (starts : StartsAs scope tag st e) (other : e ≠ some k)
    (between : st.Between) (quiet : Quiet k (scope.enter tag.attributes) true kids)
    (sees : Sees (st.start tag.read) (kids.resolved (scope.enter tag.attributes))) :
    Keeps k st (st.run (.element tag kids .nil)) := by
  obtain ⟨started, flag⟩ := start_keeps starts other
  have inner := quiet_keeps member quiet sees (fun _ => rfl) (.inl (flag.trans (between k member)))
  have run : st.run (.element tag kids .nil) = ((st.start tag.read).run kids).close tag.name :=
    run_element st tag kids .nil
  rw [run]
  exact (started.trans inner).trans (close_keeps k _ _)

theorem given_new (own : Element.mk tag (some kids) ∈ all.elements)
    (field : fieldOf scope tag = some k) (type : k = .password → ownType tag = st'.passwordType)
    (set : ∃ v ∈ texts kids, st'.value k = some v) : Given k scope all st' := by
  obtain ⟨v, direct, stored⟩ := set
  intro w same
  obtain rfl := Option.some.inj (stored.symm.trans same)
  exact ⟨_, own, field, ⟨kids, rfl, direct⟩, type⟩

theorem field_standing {standing : Standing} (own : Element.mk tag (some kids) ∈ all.elements)
    (field : fieldOf scope tag = some k) (read : ChildRead k tag kids st st')
    (held : standing.Holds k scope all st) :
    (standing.afterField live k tag kids).Holds k scope all st' := by
  cases standing with
  | fresh =>
    have typed (password : k = .password) : ownType tag = st'.passwordType := by
      rw [read.passwordType password, held.passwordType password, ownType]
    rcases read.value with unchanged | set
    · exact fun v set => by rw [unchanged, held.value] at set; cases set
    · exact given_new own field typed set
  | given =>
    rw [Standing.afterField]
    split_ifs with incomplete
    · exact trivial
    · by_cases password : k = .password
      · have complete : Complete k tag kids := by
          by_contra not
          exact incomplete ⟨password, not⟩
        have typed (password : k = .password) : ownType tag = st'.passwordType := by
          rw [read.passwordType password, ownType, readPasswordType_typed (complete.2 password)]
        exact given_new own field typed (read.ahead complete.1)
      · rcases read.value with unchanged | set
        · exact Given.kept held ⟨unchanged, fun same => absurd same password⟩
        · exact given_new own field (fun same => absurd same password) set
  | foreign =>
    rw [Standing.afterField]
    split_ifs with complete
    · have typed (password : k = .password) : ownType tag = st'.passwordType := by
        rw [read.passwordType password, ownType, readPasswordType_typed (complete.2.2 password)]
      exact given_new own field typed (read.ahead complete.2.1)
    · exact trivial

theorem unopened_standing {standing : Standing} (keeps : Keeps k st st')
    (held : standing.Holds k scope all st) (closed : live = false) :
    (standing.afterField live k tag kids).Holds k scope all st' := by
  cases standing with
  | fresh => exact (Unset.kept held keeps).given
  | given =>
    rw [Standing.afterField]
    split_ifs
    · exact trivial
    · exact Given.kept held keeps
  | foreign =>
    rw [Standing.afterField, if_neg (by simp [closed])]
    exact trivial

/-- What a child does to the standing of a variable. -/
theorem child_standing {standing : Standing} (member : k ∈ fields)
    (own : Element.mk tag (some kids) ∈ all.elements)
    (sees : Sees st ((Content.element tag kids .nil).resolved scope)) (between : st.Between)
    (isLive : live = true → st.flag .usernameToken = true) (held : standing.Holds k scope all st) :
    (standing.afterChild live k scope tag kids).Holds k scope all (st.run (.element tag kids .nil)) := by
  obtain ⟨agrees, inner, _⟩ := sees_element sees
  have starts := startsAs agrees
  generalize tokenElement _ _ _ = e at starts
  unfold Standing.afterChild
  split_ifs with quiet named direct
  · by_cases opened : e = some k
    · subst opened
      exact field_standing own named (child_read member starts between quiet direct inner) held
    · have closed : live = false := by
        by_contra isOpen
        exact opened ((starts.all (isLive (by simpa using isOpen))).trans named)
      exact unopened_standing (child_keeps member starts opened between quiet inner) held closed
  · exact trivial
  · have other : e ≠ some k := fun opened => named (starts.field k opened)
    exact held.kept (child_keeps member starts other between quiet inner)
  · exact trivial

/-- A token stays open where nothing with its local name ends. -/
theorem tokenOpen_run (tokenOpen : TokenOpen c) (sees : Sees st (c.resolved scope))
    (isOpen : st.flag .usernameToken = true) : (st.run c).flag .usernameToken = true := by
  induction c generalizing scope st with
  | nil => exact isOpen
  | data d rest ih =>
    refine @ih scope (st.step (.data d)) tokenOpen sees ?_
    cases d with
    | text raw => exact (text_token st raw).trans isOpen
    | _ => exact isOpen
  | empty tag rest ih =>
    exact @ih scope (st.step (.empty tag.read)) tokenOpen sees.2 ((empty_flag st tag.read _).trans isOpen)
  | element tag kids rest kidsIH restIH =>
    obtain ⟨agrees, inner, later⟩ := sees_element sees
    have started := ((startsAs agrees).flag .usernameToken).mpr (.inl isOpen)
    have inside := kidsIH tokenOpen.2.1 inner started
    have ended := ((endsAs tag.name _).flag .usernameToken).mpr ⟨inside, Ne.symm tokenOpen.1⟩
    rw [run_element]
    exact restIH tokenOpen.2.2 later ended

/-- All children of a token. -/
theorem children_standing {standing : Standing} (member : k ∈ fields)
    (own : ∀ el ∈ c.elements, el ∈ all.elements) (sees : Sees st (c.resolved scope))
    (between : st.Between) (isLive : live = true → st.flag .usernameToken = true)
    (held : standing.Holds k scope all st) :
    (standing.afterChildren k scope live c).Holds k scope all (st.run c) := by
  induction c generalizing st live standing with
  | nil => exact held
  | data d rest ih =>
    have same : st.step (.data d) = st := data_between between d
    have later : Sees (st.step (.data d)) (rest.resolved scope) := sees
    change (standing.afterChildren k scope live rest).Holds k scope all ((st.step (.data d)).run rest)
    rw [same] at later ⊢
    exact ih own later between isLive held
  | empty tag rest ih =>
    refine @ih (st.step (.empty tag.read)) live standing
      (fun el member => own el (List.mem_cons_of_mem _ member)) sees.2
      (fun other field => (empty_flag st tag.read other).trans (between other field))
      (fun isOpen => (empty_flag st tag.read _).trans (isLive isOpen)) (held.kept (empty_keeps st tag.read k))
  | element tag kids rest _ ih =>
    obtain ⟨first, later⟩ := sees_rest sees
    -- the child first, and then the ones behind it, with the token as the child left it
    have child := child_standing member (own _ List.mem_cons_self) first between isLive held
    rw [run_rest, Standing.afterChildren]
    have between := run_between first between
    refine ih (fun el member => own el (List.mem_cons_of_mem _ member)) later between (fun both => ?_) child
    rw [Bool.and_eq_true, decide_eq_true_iff] at both
    exact tokenOpen_run both.2 first (isLive both.1)

/-! The header. -/

/-- What is read is missing a user name or a password, or comes from one token. -/
def Settles (scope : Scope) (c : Content) (st : TokenState) : Prop :=
  st.username = none ∨ st.password = none ∨ ∃ token ∈ tokens scope c, ∀ k ∈ fields, Given k token.1 token.2 st

theorem Settles.kept (settles : Settles scope c st) (keeps : ∀ k ∈ fields, Keeps k st st') :
    Settles scope c st' := by
  have username : st'.username = st.username := (keeps .username (by decide)).value
  have password : st'.password = st.password := (keeps .password (by decide)).value
  unfold Settles at *
  rw [username, password]
  refine settles.imp id (Or.imp id ?_)
  rintro ⟨token, found, given⟩
  exact ⟨token, found, fun k member => (given k member).kept (keeps k member)⟩

theorem Settles.mono {outer : Scope} {whole : Content} (settles : Settles scope c st)
    (found : ∀ token ∈ tokens scope c, token ∈ tokens outer whole) : Settles outer whole st := by
  refine settles.imp id (Or.imp id ?_)
  rintro ⟨token, member, given⟩
  exact ⟨token, found token member, given⟩

theorem Standing.Holds.given {standing : Standing} (held : standing.Holds k scope all st)
    (own : standing ≠ .foreign) : Given k scope all st := by
  cases standing with
  | fresh => exact Unset.given held
  | given => exact held
  | foreign => exact absurd rfl own

/-- The variables before a forest: untouched, or written off. -/
def Before (standings : TokenElement → Standing) (st : TokenState) : Prop :=
  ∀ k ∈ fields, standings k = .foreign ∨ standings k = .fresh ∧ Unset k st

theorem Before.kept {standings : TokenElement → Standing} (before : Before standings st)
    (keeps : ∀ k ∈ fields, Keeps k st st') : Before standings st' :=
  fun k member => (before k member).imp id fun fresh => ⟨fresh.1, fresh.2.kept (keeps k member)⟩

theorem Before.past {standings : TokenElement → Standing} (before : Before standings st)
    (sees : Sees st ((Content.element tag kids .nil).resolved scope)) (between : st.Between)
    (within : st.flag .usernameToken = true → inside = true) :
    Before (fun k => (standings k).past k scope inside tag kids) (st.run (.element tag kids .nil)) := by
  intro k member
  unfold Standing.past
  simp only
  split_ifs with quiet
  · have keeps := quiet_keeps member quiet sees within (.inl (between k member))
    exact (before k member).imp id fun fresh => ⟨fresh.1, fresh.2.kept keeps⟩
  · exact .inl rfl

/-- The token itself: what its children leave is what they gave. -/
theorem here_settles {standings : TokenElement → Standing}
    (starts : StartsAs scope tag st (some .usernameToken))
    (inner : Sees (st.start tag.read) (kids.resolved (scope.enter tag.attributes)))
    (between : st.Between) (before : Before standings st)
    (own : ∀ k ∈ fields, (standings k).afterChildren k (scope.enter tag.attributes) true kids ≠ .foreign) (member : k ∈ fields) : Given k (scope.enter tag.attributes) kids ((st.start tag.read).run kids) := by
  have other (k : TokenElement) (member : k ∈ fields) : some TokenElement.usernameToken ≠ some k :=
    fun same => mem_fields.mp member (Option.some.inj same).symm
  have started (k : TokenElement) (member : k ∈ fields) := start_keeps starts (other k member)
  have held : (standings k).Holds k (scope.enter tag.attributes) kids (st.start tag.read) := by
    rcases before k member with foreign | ⟨fresh, unset⟩
    · rw [foreign]
      exact trivial
    · rw [fresh]
      exact unset.kept (started k member).1
  have isLive : true = true → (st.start tag.read).flag .usernameToken = true :=
    fun _ => (starts.flag _).mpr (.inr rfl)
  have children := children_standing member (fun _ member => member) inner
    (fun k member => (started k member).2.trans (between k member)) isLive held
  exact children.given (own k member)

theorem oneToken_run {standings : TokenElement → Standing} (one : OneToken scope inside standings c)
    (sees : Sees st (c.resolved scope)) (between : st.Between)
    (within : st.flag .usernameToken = true → inside = true) (before : Before standings st) :
    Settles scope c (st.run c) := by
  -- on the header, with the state between two elements: only the one token changes its fields
  induction c generalizing scope inside standings st with
  | nil =>
    rcases one with fresh | fresh
    · exact .inl ((before .username (by decide)).resolve_left (by simp [fresh])).2.value
    · exact .inr (.inl ((before .password (by decide)).resolve_left (by simp [fresh])).2.value)
  | data d rest ih =>
    have same : st.step (.data d) = st := data_between between d
    have later : Sees (st.step (.data d)) (rest.resolved scope) := sees
    change Settles scope rest ((st.step (.data d)).run rest)
    rw [same] at later ⊢
    exact ih one later between within before
  | empty tag rest ih =>
    exact @ih scope inside (st.step (.empty tag.read)) standings one sees.2
      (fun k field => (empty_flag st tag.read k).trans (between k field))
      (fun set => within (empty_flag st tag.read _ ▸ set)) (before.kept fun k _ => empty_keeps st tag.read k)
  | element tag kids rest kidsIH restIH =>
    obtain ⟨agrees, inner, _⟩ := sees_element sees
    obtain ⟨first, later⟩ := sees_rest sees
    have after := run_between first between
    have afterWithin := fun set => within (run_flags first set)
    rw [run_rest]
    have starts := startsAs agrees
    have closed (k : TokenElement) (_ : k ∈ fields) :
        Keeps k ((st.start tag.read).run kids) (st.run (.element tag kids .nil)) := by
      rw [run_element]
      exact close_keeps k _ tag.name
    rcases one with skipped | ⟨quiet, settled⟩
    · -- the token is further on
      exact (restIH skipped later after afterWithin (before.past first between within)).mono
        fun token found => List.mem_append_right _ (List.mem_append_right _ found)
    -- behind the element nothing of the token is left to come
    have keeps (k : TokenElement) (member : k ∈ fields) :=
      quiet_keeps member (quiet k member) later afterWithin (.inl (after k member))
    suffices settles : Settles scope (.element tag kids rest) ((st.start tag.read).run kids) from
      (settles.kept closed).kept keeps
    rcases settled with ⟨token, own⟩ | ⟨noField, one⟩
    · rw [starts.token token] at starts
      -- the element is the token itself
      have found : (scope.enter tag.attributes, kids) ∈ tokens scope (.element tag kids rest) :=
        List.mem_append_left _ (by simp [token])
      exact .inr (.inr ⟨_, found, fun k => here_settles starts inner between before own⟩)
    · -- the token is in here
      have other (k : TokenElement) (member : k ∈ fields) :=
        start_keeps starts fun is => noField (within (starts.inside k member is)) k member (starts.field k is)
      have kidsSettle := kidsIH one inner (fun k member => (other k member).2.trans (between k member))
        (start_within starts within) (before.kept fun k member => (other k member).1)
      exact kidsSettle.mono fun token found =>
        List.mem_append_right _ (List.mem_append_left _ found)

theorem parse_run {ext : Externals} (lawful : ext.xml.Lawful) {s : Text}
    (reads : ext.xml.Reads s c) :
    parseUsernameToken ext s = (TokenState.initial.run c.trim).finish := by
  have read := readToken_append .initial c.trim.events []
  rw [List.append_nil, ← lawful.trims s c reads] at read
  rw [parseUsernameToken, read]
  rfl

theorem finish_ok {t : UsernameToken} (finished : st.finish = .ok t) :
    st.username = some t.username ∧ st.password = some t.password ∧ st.passwordType = t.passwordType ∧
      st.nonce = t.nonce ∧ st.created = t.created := by
  unfold TokenState.finish at finished
  split_ifs at finished
  rotate_left
  · cases finished
  cases username : st.username with
  | none => rw [username] at finished; cases finished
  | some u =>
    cases password : st.password with
    | none => rw [username, password] at finished; cases finished
    | some p =>
      rw [username, password] at finished
      cases finished
      exact ⟨rfl, rfl, rfl, rfl, rfl⟩

/-- A token is read from one element, where the prefixes are undisturbed and one token has
the fields. -/
theorem token_from_one_element {ext : Externals} (lawful : ext.xml.Lawful) {s : Text} {c : Content}
    (reads : ext.xml.Reads s c) (wellFormed : c.NamespaceWellFormed Scope.initial)
    (undisturbed : Undisturbed [] c) (one : OneToken Scope.initial false (fun _ => .fresh) c.trim)
    {t : UsernameToken} (parsed : parseUsernameToken ext s = .ok t) : FromOneToken c.trim t := by
  rw [parse_run lawful reads] at parsed
  obtain ⟨username, password, passwordType, nonce, created⟩ := finish_ok parsed
  -- undisturbed, the map of the parser agrees with the scope of each element
  have sees : Sees .initial (c.trim.resolved Scope.initial) := by
    have whole := sees_iff (wellFormed_trim wellFormed) .initial [] rfl (fun _ => rfl) []
    rw [List.append_nil, undisturbed_trim] at whole
    exact whole.mpr ⟨undisturbed, trivial⟩
  have unset : Before (fun _ => .fresh) TokenState.initial := by
    intro k member
    refine .inr ⟨rfl, ?_, fun _ => rfl⟩
    cases k <;> rfl
  have between : TokenState.initial.Between := fun k _ => by cases k <;> rfl
  have settles := oneToken_run one sees between (fun set => set) unset
  -- a run that settled no token would have left the user name or the password out
  rcases settles with missing | missing | ⟨token, found, given⟩
  · rw [username] at missing
    cases missing
  · rw [password] at missing
    cases missing
  · refine ⟨token, found, ?_, ?_, fun n set => ?_, fun at_ set => ?_⟩
    · obtain ⟨el, member, field, holds, _⟩ := given .username (by decide) t.username username
      exact ⟨el, member, field, holds⟩
    · obtain ⟨el, member, field, holds, own⟩ := given .password (by decide) t.password password
      exact ⟨el, member, field, holds, (own rfl).trans passwordType⟩
    · obtain ⟨el, member, field, holds, _⟩ := given .nonce (by decide) n (nonce.trans set)
      exact ⟨el, member, field, holds⟩
    · obtain ⟨el, member, field, holds, _⟩ := given .created (by decide) at_ (created.trans set)
      exact ⟨el, member, field, holds⟩

/-! Two tokens in one header. -/

def tokenTag : Tag := ⟨"wsse:UsernameToken".toList, []⟩

def textPasswordTag : Tag := ⟨"wsse:Password".toList, [⟨"Type".toList, passwordTextType⟩]⟩

/-- A token with all fields after one with a user name alone. -/
def supersededHeader : Content :=
  .element securityTag
    (.element tokenTag (field "wsse:Username".toList [] "guest".toList .nil)
      (.element tokenTag
        (field "wsse:Username".toList [] "user".toList
          (.element textPasswordTag (.data (.text "secret".toList) .nil)
            (field "wsse:Nonce".toList [] "bm9uY2U=".toList
              (field "wsu:Created".toList [] "2024-01-01T00:00:00Z".toList .nil))))
        .nil))
    .nil

def supersedingToken : UsernameToken :=
  ⟨"user".toList, "secret".toList, .text, some "bm9uY2U=".toList, some "2024-01-01T00:00:00Z".toList⟩

theorem supersededHeader_reads :
    Externals.scanning.xml.Reads supersededHeader.write supersededHeader := by
  have read := Externals.scanning_lawful.written_tag (c := supersededHeader) (by decide +kernel) rfl
  rwa [show supersededHeader.coalesce = supersededHeader by decide +kernel] at read

theorem supersededHeader_wellFormed :
    supersededHeader.NamespaceWellFormed Scope.initial := by decide +kernel

theorem supersededHeader_parsed :
    parseUsernameToken .scanning supersededHeader.write = .ok supersedingToken := by
  rw [parse_run Externals.scanning_lawful supersededHeader_reads]
  decide +kernel

theorem supersededHeader_from_one : FromOneToken supersededHeader.trim supersedingToken :=
  token_from_one_element Externals.scanning_lawful supersededHeader_reads supersededHeader_wellFormed
    (by decide +kernel) (by decide +kernel) supersededHeader_parsed

/-- A user name in one token and a password in another. -/
def dividedHeader : Content :=
  .element securityTag
    (.element tokenTag (field "wsse:Username".toList [] "user".toList .nil)
      (.element tokenTag (field "wsse:Password".toList [] "secret".toList .nil) .nil))
    .nil

def combinedToken : UsernameToken := ⟨"user".toList, "secret".toList, .digest, none, none⟩

theorem dividedHeader_reads : Externals.scanning.xml.Reads dividedHeader.write dividedHeader := by
  have read := Externals.scanning_lawful.written_tag (c := dividedHeader) (by decide +kernel) rfl
  rwa [show dividedHeader.coalesce = dividedHeader by decide +kernel] at read

theorem dividedHeader_wellFormed :
    dividedHeader.NamespaceWellFormed Scope.initial := by decide +kernel

/-- The two are combined to a token that no element of the header is. -/
theorem dividedHeader_combined :
    Externals.scanning.xml.Reads dividedHeader.write dividedHeader ∧
      dividedHeader.NamespaceWellFormed Scope.initial ∧
      parseUsernameToken .scanning dividedHeader.write = .ok combinedToken ∧
      ¬ FromOneToken dividedHeader.trim combinedToken := by
  refine ⟨dividedHeader_reads, dividedHeader_wellFormed, ?_, by decide +kernel⟩
  rw [parse_run Externals.scanning_lawful dividedHeader_reads]
  decide +kernel

end SoapServer.Wssec
