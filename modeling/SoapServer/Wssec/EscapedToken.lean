import SoapServer.Escaping
import SoapServer.Wssec.TokenHeader

/-! A token whose texts are escaped into the fields of a header: it reads back just when
nothing had to be escaped. -/

set_option autoImplicit false

namespace SoapServer.Wssec

open Markup (Text Content Data)

/-- A text that a reader does not trim. -/
structure Trimmed (s : Text) : Prop where
  nonempty : s ≠ []
  trimmed : Markup.trimWhitespace s = s

instance (s : Text) : Decidable (Trimmed s) :=
  decidable_of_iff (s ≠ [] ∧ Markup.trimWhitespace s = s) ⟨fun h => ⟨h.1, h.2⟩,
    fun h => ⟨h.nonempty, h.trimmed⟩⟩

/-! One field. -/

theorem elements_escapedData (s : Text) : (escapedData s .nil).elements = [] := by
  induction s with
  | nil => rfl
  | cons c s ih =>
    rw [escapedData]
    cases referenceName c <;> exact ih

theorem flat_escapedData (s : Text) : FieldContents.Flat (escapedData s .nil) :=
  ⟨elements_escapedData s, escapedData_lexical s trivial⟩

/-- No run of character data holds a character that is escaped. -/
def Plainly (d : Data) : Prop := ∀ s, d = .text s → Unreferenced s

theorem plainly_escapedData (s : Text) : (escapedData s .nil).AllData Plainly :=
  escapedData_allData (fun _ _ _ _ other => by cases other)
    (fun c plain s same x member => by
      cases same
      obtain rfl := List.mem_singleton.mp member
      exact plain) s trivial

theorem unreferenced_trim {s : Text} (plain : Unreferenced s) :
    Unreferenced (Markup.trimWhitespace s) := by
  intro c member
  refine plain c ?_
  have inner := (List.dropWhile_sublist Markup.isWhitespace).mem (List.mem_reverse.mp member)
  exact (List.dropWhile_sublist Markup.isWhitespace).mem (List.mem_reverse.mp inner)

theorem plainly_trim {c : Content} (all : c.AllData Plainly) : c.trim.AllData Plainly := by
  induction c with
  | nil => trivial
  | data d rest ih =>
    cases d with
    | text s =>
      rw [Content.trim]
      split
      · exact ih all.2
      · refine ⟨fun t same => ?_, ih all.2⟩
        cases same
        exact unreferenced_trim (all.1 s rfl)
    | _ => exact ⟨all.1, ih all.2⟩
  | empty tag rest ih => exact ih all
  | element tag kids rest kidsIH restIH => exact ⟨kidsIH all.1, restIH all.2⟩

theorem firstText_plain {c : Content} (all : c.AllData Plainly) {s : Text}
    (read : firstText c = some s) :
    Unreferenced s := by
  induction c with
  | nil => cases read
  | data d rest ih =>
    cases d with
    | text t =>
      obtain rfl := Option.some.inj read
      exact all.1 _ rfl
    | _ => exact ih all.2 read
  | empty tag rest _ => cases read
  | element tag kids rest _ _ => cases read

/-- What is read of an escaped text. -/
def readEscaped (s : Text) : Option Text := firstText (escapedData s .nil).coalesce.trim

theorem readEscaped_iff {s : Text} (trimmed : Trimmed s) :
    readEscaped s = some s ↔ Unreferenced s := by
  constructor
  · refine firstText_plain (plainly_trim (Content.coalesce_allData ?_ (plainly_escapedData s)))
    rintro a b first next _ ⟨⟩ c member
    exact (List.mem_append.mp member).elim (first a rfl c) (next b rfl c)
  · intro plain
    rw [readEscaped, escapedData_coalesce plain trimmed.nonempty]
    simp [Content.trim, trimmed.trimmed, trimmed.nonempty, firstText]

/-! The token. -/

namespace UsernameToken

structure Trimmed (token : UsernameToken) : Prop where
  username : Wssec.Trimmed token.username
  password : Wssec.Trimmed token.password
  nonce : ∀ n, token.nonce = some n → Wssec.Trimmed n
  created : ∀ c, token.created = some c → Wssec.Trimmed c

/-- The token with every text escaped. -/
def escaped (ext : Externals) (token : UsernameToken) : UsernameToken :=
  { token with
    username := ext.escape token.username
    password := ext.escape token.password
    nonce := token.nonce.map ext.escape
    created := token.created.map ext.escape }

/-- No text of the token holds a character that is escaped. -/
structure Unreferenced (token : UsernameToken) : Prop where
  username : SoapServer.Unreferenced token.username
  password : SoapServer.Unreferenced token.password
  nonce : ∀ n, token.nonce = some n → SoapServer.Unreferenced n
  created : ∀ c, token.created = some c → SoapServer.Unreferenced c

/-- The four texts of two tokens are the same. -/
structure SameTexts (a b : UsernameToken) : Prop where
  username : a.username = b.username
  password : a.password = b.password
  nonce : a.nonce = b.nonce
  created : a.created = b.created

/-- A `Security` header with the token's texts escaped is read as a token with these texts. -/
def ReadsBack (ext : Externals) (token : UsernameToken) : Prop :=
  ∃ read, parseUsernameToken ext (token.escaped ext).header = .ok read ∧ read.SameTexts token

def escapedContents (token : UsernameToken) : FieldContents where
  username := escapedData token.username .nil
  password := escapedData token.password .nil
  passwordType := token.passwordType
  nonce := token.nonce.map fun nonce => escapedData nonce .nil
  created := token.created.map fun created => escapedData created .nil

theorem escaped_header {ext : Externals} (escapes : ext.Escapes) (token : UsernameToken) :
    (token.escaped ext).header = token.escapedContents.header.write := by
  have element (tag : Markup.Tag) {kids kids' rest rest' : Content} (inner : kids.write = kids'.write)
      (after : rest.write = rest'.write) :
      (Content.element tag kids rest).write = (Content.element tag kids' rest').write := by
    simp only [Content.write, inner, after]
  have text (s : Text) : (Content.data (.text (ext.escape s)) .nil).write = (escapedData s .nil).write := by
    rw [escapedData_write, ← escapes s]
    rfl
  obtain ⟨username, password, passwordType, nonce, created⟩ := token
  have createdField : (Wssec.createdField (created.map ext.escape)).write =
      (FieldContents.createdField (created.map fun created => escapedData created .nil)).write := by
    cases created with
    | none => rfl
    | some c => exact element _ (text c) rfl
  have nonceField : (Wssec.nonceField (nonce.map ext.escape) (created.map ext.escape)).write =
      (FieldContents.nonceField (nonce.map fun nonce => escapedData nonce .nil)
        (created.map fun created => escapedData created .nil)).write := by
    cases nonce with
    | none => exact createdField
    | some n => exact element _ (text n) createdField
  have fields := element ⟨"wsse:Username".toList, []⟩ (text username)
    (element (FieldContents.passwordTag passwordType) (text password) nonceField)
  exact element securityTag (element ⟨"wsse:UsernameToken".toList, []⟩ fields rfl) rfl

/-- What is read of a header with escaped texts. -/
theorem parse_escaped {ext : Externals} (lawful : ext.xml.Lawful) (escapes : ext.Escapes)
    (token : UsernameToken) :
    parseUsernameToken ext (token.escaped ext).header = (do
      let username ← okOr "Missing Username in UsernameToken".toList (readEscaped token.username)
      let password ← okOr "Missing Password in UsernameToken".toList (readEscaped token.password)
      .ok ⟨username, password, token.passwordType, token.nonce.bind readEscaped,
        token.created.bind readEscaped⟩) := by
  have flat : token.escapedContents.All FieldContents.Flat := by
    refine ⟨flat_escapedData _, flat_escapedData _, fun c given => ?_, fun c given => ?_⟩
    · obtain ⟨text, _, rfl⟩ := Option.map_eq_some_iff.mp given
      exact flat_escapedData text
    · obtain ⟨text, _, rfl⟩ := Option.map_eq_some_iff.mp given
      exact flat_escapedData text
  rw [escaped_header escapes, FieldContents.parseUsernameToken_contents lawful flat]
  obtain ⟨username, password, passwordType, nonce, created⟩ := token
  cases nonce <;> cases created <;> rfl

theorem readsBack_iff_readEscaped {ext : Externals} (lawful : ext.xml.Lawful)
    (escapes : ext.Escapes) (token : UsernameToken) :
    token.ReadsBack ext ↔ readEscaped token.username = some token.username ∧
      readEscaped token.password = some token.password ∧ token.nonce.bind readEscaped = token.nonce ∧
      token.created.bind readEscaped = token.created := by
  rw [ReadsBack, parse_escaped lawful escapes]
  cases username : readEscaped token.username with
  | none => simp [okOr, senderFault]
  | some u =>
    cases password : readEscaped token.password with
    | none => simp [okOr, senderFault]
    | some p =>
      constructor
      · rintro ⟨read, same, texts⟩
        obtain rfl := Except.ok.inj same
        exact ⟨congrArg some texts.username, congrArg some texts.password, texts.nonce,
          texts.created⟩
      · rintro ⟨sameUsername, samePassword, sameNonce, sameCreated⟩
        exact ⟨_, rfl, Option.some.inj sameUsername, Option.some.inj samePassword, sameNonce,
          sameCreated⟩

theorem bind_readEscaped_iff {field : Option Text}
    (trimmed : ∀ s, field = some s → Wssec.Trimmed s) :
    field.bind readEscaped = field ↔ ∀ s, field = some s → SoapServer.Unreferenced s := by
  cases field with
  | none => simp
  | some s => simpa using readEscaped_iff (trimmed s rfl)

/-- Texts survive a `Security` header just when none of them needed escaping. -/
theorem escaped_reads_back_iff {ext : Externals} (lawful : ext.xml.Lawful) (escapes : ext.Escapes)
    {token : UsernameToken} (trimmed : token.Trimmed) :
    token.ReadsBack ext ↔ token.Unreferenced := by
  rw [readsBack_iff_readEscaped lawful escapes, readEscaped_iff trimmed.username,
    readEscaped_iff trimmed.password,
    bind_readEscaped_iff trimmed.nonce, bind_readEscaped_iff trimmed.created]
  exact ⟨fun ⟨username, password, nonce, created⟩ => ⟨username, password, nonce, created⟩,
    fun plain => ⟨plain.username, plain.password, plain.nonce, plain.created⟩⟩

/-- A password with an ampersand in it. -/
def ampersand : UsernameToken :=
  ⟨"user".toList, "a&b".toList, .text, some "bm9uY2U=".toList, some "2024-01-01T00:00:00Z".toList⟩

theorem ampersand_trimmed : ampersand.Trimmed := by
  refine ⟨by decide, by decide, fun n given => ?_, fun c given => ?_⟩
  · obtain rfl := Option.some.inj given
    decide
  · obtain rfl := Option.some.inj given
    decide

theorem ampersand_cut : ampersand.Trimmed ∧
    parseUsernameToken .scanning (ampersand.escaped .scanning).header = .ok { ampersand with password := "a".toList } ∧
      ¬ ampersand.ReadsBack .scanning := by
  have read := parse_escaped Externals.scanning_lawful Externals.scanning_escapes ampersand
  have evaluated : readEscaped ampersand.username = some ampersand.username ∧
      readEscaped ampersand.password = some "a".toList ∧ ampersand.nonce.bind readEscaped = ampersand.nonce ∧
      ampersand.created.bind readEscaped = ampersand.created := by decide +kernel
  obtain ⟨username, password, nonce, created⟩ := evaluated
  refine ⟨ampersand_trimmed, ?_, fun readsBack => ?_⟩
  · rw [read, username, password, nonce, created]
    rfl
  · have same := ((readsBack_iff_readEscaped Externals.scanning_lawful Externals.scanning_escapes ampersand).mp
      readsBack).2.1
    rw [password] at same
    exact absurd same (by decide)

/-- A blank within the password does no harm. -/
theorem blank_reads_back :
    UsernameToken.ReadsBack .scanning { ampersand with password := "a b".toList } := by
  have trimmed : UsernameToken.Trimmed { ampersand with password := "a b".toList } :=
    { ampersand_trimmed with password := by decide }
  have plain : UsernameToken.Unreferenced { ampersand with password := "a b".toList } := by
    refine ⟨by decide, by decide, fun n given => ?_, fun c given => ?_⟩
    · obtain rfl := Option.some.inj given
      decide
    · obtain rfl := Option.some.inj given
      decide
  exact (escaped_reads_back_iff Externals.scanning_lawful Externals.scanning_escapes trimmed).mpr plain

end UsernameToken

end SoapServer.Wssec
