import SoapServer.Crossref.FaultAssertions
import SoapServer.Server.HonestClients

/-! The echo operations of the controlled service, from the request to the response.

A client sends a text, written with references where markup would be taken for a tag. The handler reads it
off the first element of a given name, and writes it again. Whatever the characters are, the client reads
what it sent.
-/

set_option autoImplicit false

namespace SoapServer.Crossref

open Markup

def resolvePredefinedEntity (name : Text) : Option Char :=
  if name = "lt".toList then some '<'
  else if name = "gt".toList then some '>'
  else if name = "amp".toList then some '&'
  else if name = "apos".toList then some '\''
  else if name = "quot".toList then some '"'
  else none

/-- The loop of the search; the text that has been read is there from the start tag of the element on. -/
def firstText (suffix : Text) : Option Text → List (Except Text Event) → Option Text
  | _, [] => none
  | _, .error _ :: _ => none
  | target, .ok (.start tag) :: rest =>
    firstText suffix (if suffix <:+ Markup.localName tag.name then some [] else target) rest
  | some read, .ok (.data (.text raw)) :: rest => firstText suffix (some (read ++ raw)) rest
  -- a reference that is not predefined adds nothing
  | some read, .ok (.data (.generalRef name)) :: rest =>
    firstText suffix (some (read ++ (resolvePredefinedEntity name).toList)) rest
  | some read, .ok (.close _) :: _ => some read
  | target, .ok _ :: rest => firstText suffix target rest

def extractFirstTextBySuffix (reader : Reader) (body suffix : Text) : Option Text :=
  firstText suffix none (reader.events false body)

def extractText (reader : Reader) (body : Text) : Option Text :=
  extractFirstTextBySuffix reader body "Text".toList

def extractValue (reader : Reader) (body : Text) : Option Text :=
  extractFirstTextBySuffix reader body "Value".toList

/-- One of the two operations: the element of its response, and the one that holds the text. -/
structure EchoOperation where
  response : Text
  field : Text

def EchoOperation.handler (op : EchoOperation) (ext : Externals) (body : Text) : Text :=
  let escaped := ext.escape ((extractFirstTextBySuffix ext.xml body op.field).getD [])
  "<c:".toList ++ op.response ++ " xmlns:c=\"http://crossref.example/controlled\"><c:".toList ++
    op.field ++ ">".toList ++
    escaped ++ "</c:".toList ++ op.field ++ "></c:".toList ++ op.response ++ ">".toList

def echo : EchoOperation := ⟨"EchoResponse".toList, "Text".toList⟩

def echoNamed : EchoOperation := ⟨"EchoNamedResponse".toList, "Value".toList⟩

def echoHandler (ext : Externals) (body : Text) : Text := echo.handler ext body

def echoNamedHandler (ext : Externals) (body : Text) : Text := echoNamed.handler ext body

/-! Texts as they are written. -/

/-- The content is the text, with references for some of its characters and comments between them. -/
inductive Spells : Content → Text → Prop
  | nil : Spells .nil []
  | text {raw s : Text} {rest : Content} (more : Spells rest s) :
      Spells (.data (.text raw) rest) (raw ++ s)
  | reference {c : Char} {name s : Text} {rest : Content} (known : referenceName c = some name)
    (more : Spells rest s) :
    Spells (.data (.generalRef name) rest) (c :: s)
  | comment {raw s : Text} {rest : Content} (more : Spells rest s) : Spells (.data (.comment raw) rest) s

theorem spells_escapedData (s : Text) : Spells (escapedData s .nil) s := by
  induction s with
  | nil => exact .nil
  | cons c s ih =>
    rw [escapedData]
    cases given : referenceName c with
    | some name => exact .reference given ih
    | none => exact .text ih

theorem Spells.kept {c : Content} {s : Text} (spells : Spells c s) : Spells c.kept s := by
  induction spells with
  | nil => exact .nil
  | text _ ih => exact .text ih
  | reference known _ ih => exact .reference known ih
  | comment _ ih => exact ih

theorem Spells.prependText {c : Content} {s : Text} (spells : Spells c s) (raw : Text) :
    Spells (c.prependText raw) (raw ++ s) := by
  have plain {c : Content} {s : Text} (spells : Spells c s) :
      Spells (if raw = [] then c else .data (.text raw) c) (raw ++ s) := by
    split
    next empty =>
      rw [empty]
      exact spells
    next => exact .text spells
  cases spells with
  | nil => exact plain .nil
  | text more =>
    rw [← List.append_assoc]
    exact .text more
  | reference known more => exact plain (.reference known more)
  | comment more => exact plain (.comment more)

theorem Spells.coalesce {c : Content} {s : Text} (spells : Spells c s) : Spells c.coalesce s := by
  induction spells with
  | nil => exact .nil
  | text _ ih => exact ih.prependText _
  | reference known _ ih => exact .reference known ih
  | comment _ ih => exact .comment ih

theorem resolvePredefinedEntity_reference {c : Char} {name : Text}
    (known : referenceName c = some name) :
    resolvePredefinedEntity name = some c := by
  unfold referenceName at known
  split at known
  all_goals first | (cases known; done) | (obtain rfl := Option.some.inj known; decide)

/-- The handler reads the text that is spelt, up to the end tag. -/
theorem firstText_spells {c : Content} {s : Text} (spells : Spells c s) (suffix read name : Text)
    (more : List (Except Text Event)) :
    firstText suffix (some read) (stream c.events ++ .ok (.close name) :: more) = some (read ++ s) := by
  induction spells generalizing read with
  | nil => simp [Content.events, firstText]
  | text _ ih =>
    simp only [Content.events, stream_cons, List.cons_append, firstText]
    rw [ih, List.append_assoc]
  | reference known _ ih =>
    simp only [Content.events, stream_cons, List.cons_append, firstText,
      resolvePredefinedEntity_reference known]
    rw [ih, List.append_assoc]
    rfl
  | comment _ ih =>
    simp only [Content.events, stream_cons, List.cons_append, firstText]
    exact ih read

/-! The element that holds the text. -/

/-- No element of the name has a start tag in the content. -/
def Unnamed (suffix : Text) : Content → Prop
  | .nil => True
  | .data _ rest => Unnamed suffix rest
  | .empty _ rest => Unnamed suffix rest
  | .element tag kids rest => ¬ suffix <:+ Markup.localName tag.name ∧ Unnamed suffix kids ∧
      Unnamed suffix rest

/-- The first element of the name, in the order of the document, spells the text. -/
inductive FirstSpells (suffix s : Text) : Content → Prop
  | here {tag : Tag} {kids rest : Content} (named : suffix <:+ Markup.localName tag.name)
    (spells : Spells kids s) :
    FirstSpells suffix s (.element tag kids rest)
  | inside {tag : Tag} {kids rest : Content} (other : ¬ suffix <:+ Markup.localName tag.name)
    (more : FirstSpells suffix s kids) :
    FirstSpells suffix s (.element tag kids rest)
  | after {tag : Tag} {kids rest : Content} (other : ¬ suffix <:+ Markup.localName tag.name)
    (silent : Unnamed suffix kids)
    (more : FirstSpells suffix s rest) : FirstSpells suffix s (.element tag kids rest)
  | data {d : Data} {rest : Content} (more : FirstSpells suffix s rest) :
      FirstSpells suffix s (.data d rest)
  | empty {tag : Tag} {rest : Content} (more : FirstSpells suffix s rest) :
      FirstSpells suffix s (.empty tag rest)

variable {suffix s : Text} {c : Content}

theorem unnamed_prependText (raw : Text) :
    Unnamed suffix (c.prependText raw) ↔ Unnamed suffix c := by
  unfold Content.prependText
  split
  · rfl
  · split <;> rfl

theorem unnamed_coalesce (c : Content) : Unnamed suffix c.coalesce ↔ Unnamed suffix c := by
  induction c with
  | nil => rfl
  | data d rest ih =>
    cases d with
    | text raw => exact (unnamed_prependText raw).trans ih
    | _ => exact ih
  | empty tag rest ih => exact ih
  | element tag kids rest kidsIH restIH => exact and_congr_right fun _ => and_congr kidsIH restIH

theorem unnamed_kept (c : Content) : Unnamed suffix c.kept ↔ Unnamed suffix c := by
  induction c with
  | nil => rfl
  | data d rest ih => cases d <;> exact ih
  | empty tag rest ih => exact ih
  | element tag kids rest kidsIH restIH => exact and_congr_right fun _ => and_congr kidsIH restIH

theorem FirstSpells.kept (first : FirstSpells suffix s c) : FirstSpells suffix s c.kept := by
  induction first with
  | here named spells => exact .here named spells.kept
  | inside other _ ih => exact .inside other ih
  | after other silent _ ih => exact .after other ((unnamed_kept _).mpr silent) ih
  | @data d rest _ ih =>
    cases d with
    | text raw => exact .data ih
    | generalRef name => exact .data ih
    | _ => exact ih
  | empty _ ih => exact .empty ih

theorem FirstSpells.prependText (first : FirstSpells suffix s c) (raw : Text) :
    FirstSpells suffix s (c.prependText raw) := by
  unfold Content.prependText
  split
  · cases first with
    | data more => exact .data more
  · split
    · exact first
    · exact .data first

theorem FirstSpells.coalesce (first : FirstSpells suffix s c) :
    FirstSpells suffix s c.coalesce := by
  induction first with
  | here named spells => exact .here named spells.coalesce
  | inside other _ ih => exact .inside other ih
  | after other silent _ ih => exact .after other ((unnamed_coalesce _).mpr silent) ih
  | @data d rest _ ih =>
    cases d with
    | text raw => exact ih.prependText raw
    | _ => exact .data ih
  | empty _ ih => exact .empty ih

theorem firstText_named {tag : Tag} (named : suffix <:+ Markup.localName tag.name)
    (target : Option Text) (more : List (Except Text Event)) :
    firstText suffix target (.ok (.start tag.read) :: more) = firstText suffix (some []) more := by
  rw [firstText, if_pos (show suffix <:+ Markup.localName tag.read.name from named)]

theorem firstText_other {tag : Tag} (other : ¬ suffix <:+ Markup.localName tag.name)
    (target : Option Text) (more : List (Except Text Event)) :
    firstText suffix target (.ok (.start tag.read) :: more) = firstText suffix target more := by
  rw [firstText, if_neg (show ¬ suffix <:+ Markup.localName tag.read.name from other)]

theorem firstText_close (name : Text) (more : List (Except Text Event)) :
    firstText suffix none (.ok (.close name) :: more) = firstText suffix none more := rfl

theorem firstText_data (d : Data) (more : List (Except Text Event)) :
    firstText suffix none (.ok (.data d) :: more) = firstText suffix none more := by
  cases d <;> rfl

/-- The search passes over content without a start tag of the name. -/
theorem firstText_unnamed (silent : Unnamed suffix c) (more : List (Except Text Event)) :
    firstText suffix none (stream c.events ++ more) = firstText suffix none more := by
  induction c generalizing more with
  | nil => rfl
  | data d rest ih => exact (firstText_data d _).trans (ih silent more)
  | empty tag rest ih => exact ih silent more
  | element tag kids rest kidsIH restIH =>
    obtain ⟨other, inner, later⟩ := silent
    simp only [Content.events, stream_cons, stream_append, List.cons_append, List.append_assoc]
    rw [firstText_other other, kidsIH inner, firstText_close]
    exact restIH later more

theorem FirstSpells.found (first : FirstSpells suffix s c) (more : List (Except Text Event)) :
    firstText suffix none (stream c.events ++ more) = some s := by
  induction first generalizing more with
  | here named spells =>
    simp only [Content.events, stream_cons, stream_append, List.cons_append, List.append_assoc]
    rw [firstText_named named]
    exact firstText_spells spells suffix [] _ _
  | inside other _ ih =>
    simp only [Content.events, stream_cons, stream_append, List.cons_append, List.append_assoc]
    rw [firstText_other other]
    exact ih _
  | after other silent _ ih =>
    simp only [Content.events, stream_cons, stream_append, List.cons_append, List.append_assoc]
    rw [firstText_other other, firstText_unnamed silent, firstText_close]
    exact ih more
  | data _ ih => exact (firstText_data _ _).trans (ih more)
  | empty _ ih => exact ih more

theorem FirstSpells.extracted (first : FirstSpells suffix s c) {reader : Reader} {body : Text}
    (reads : reader.Reads body c) :
    extractFirstTextBySuffix reader body suffix = some s := by
  have found := first.found []
  rw [List.append_nil] at found
  rw [extractFirstTextBySuffix, reads]
  exact found

/-! The response. -/

variable {ext : Externals}

/-- The operation's names are such that only the field holds the text. -/
structure EchoOperation.Named (op : EchoOperation) : Prop where
  field : IsName op.field ∧ ':' ∉ op.field
  response : IsName op.response ∧ ':' ∉ op.response
  apart : ¬ op.field <:+ op.response
  outside : ¬ op.field <:+ "Envelope".toList ∧ ¬ op.field <:+ "Body".toList

theorem echo_named : echo.Named := ⟨by decide, by decide, by decide, by decide⟩

theorem echoNamed_named : echoNamed.Named := ⟨by decide, by decide, by decide, by decide⟩

def controlledNs : Text := "http://crossref.example/controlled".toList

def EchoOperation.responseTag (op : EchoOperation) : Tag :=
  ⟨"c:".toList ++ op.response, [⟨"xmlns:c".toList, controlledNs⟩]⟩

def EchoOperation.fieldTag (op : EchoOperation) : Tag := ⟨"c:".toList ++ op.field, []⟩

/-- What the handler returns for a text. -/
def EchoOperation.returned (op : EchoOperation) (s : Text) : Content :=
  .element op.responseTag (.element op.fieldTag (escapedData s .nil) .nil) .nil

/-- An element in another, from its pieces. -/
theorem nested_write (p outer inner : Text) (a : Attribute) (text : Content) :
    (Content.element ⟨p ++ outer, [a]⟩ (.element ⟨p ++ inner, []⟩ text .nil) .nil).write =
      '<' :: p ++ outer ++ (a.write ++ '>' :: '<' :: p) ++ inner ++ ['>'] ++ text.write ++
        '<' :: '/' :: p ++ inner ++
        '>' :: '<' :: '/' :: p ++ outer ++ ['>'] := by
  simp only [Content.write, Tag.writeBody, closeTag, List.flatMap_cons, List.flatMap_nil,
    List.append_assoc, List.cons_append, List.nil_append, List.append_nil]

theorem EchoOperation.handler_eq (op : EchoOperation) (escapes : ext.Escapes) {body s : Text}
    (extracted : extractFirstTextBySuffix ext.xml body op.field = some s) :
    op.handler ext body = (op.returned s).write := by
  have inner : (escapedData s .nil).write = ext.escape s := by
    rw [escapedData_write, escapes, Content.write, List.append_nil]
  have pieces : op.handler ext body = '<' :: "c:".toList ++ op.response ++
      ((⟨"xmlns:c".toList, controlledNs⟩ : Attribute).write ++ '>' :: '<' :: "c:".toList) ++ op.field ++
        ['>'] ++ ext.escape s ++
      '<' :: '/' :: "c:".toList ++ op.field ++ '>' :: '<' :: '/' :: "c:".toList ++ op.response ++
        ['>'] := by
    unfold handler
    rw [extracted]
    rfl
  rw [pieces, ← inner]
  exact (nested_write "c:".toList op.response op.field ⟨"xmlns:c".toList, controlledNs⟩
    (escapedData s .nil)).symm

theorem EchoOperation.Named.returned_writable {op : EchoOperation} (named : op.Named) (s : Text) :
    (op.returned s).Writable where
  tags := by
    have prefixed {name : Text} (isName : IsName name) : IsName ("c:".toList ++ name) := by
      refine ⟨by simp, fun ch member => ?_⟩
      rcases List.mem_append.mp member with pre | rest
      · exact (by decide : ∀ ch ∈ "c:".toList, isDelimiter ch = false) ch pre
      · exact isName.2 ch rest
    refine ⟨⟨prefixed named.response.1, fun a member => ?_⟩,
      ⟨⟨prefixed named.field.1, nofun⟩, ?_, trivial⟩, trivial⟩
    · obtain rfl := List.mem_singleton.mp member
      exact (by decide : IsName "xmlns:c".toList ∧ '<' ∉ controlledNs)
    · exact (escapedData_allTags _ _ _).mpr trivial
  quotes := by
    refine ⟨fun a member => ?_, ⟨nofun, (escapedData_allTags _ _ _).mpr trivial, trivial⟩, trivial⟩
    obtain rfl := List.mem_singleton.mp member
    exact (by decide : '"' ∉ controlledNs)
  data := ⟨⟨escapedData_lexical s trivial, trivial⟩, trivial⟩

/-- In the response the text is in the first element of the name. -/
theorem EchoOperation.Named.response_spells {op : EchoOperation} (named : op.Named) (s : Text)
    (version : SoapVersion) :
    FirstSpells op.field s ((Server.Frame.env version).document (op.returned s).coalesce) := by
  have local_ {name : Text} : Markup.localName ("c:".toList ++ name) = name := by
    have split : splitOnce ':' ("c:".toList ++ name) = some (['c'], name) :=
      splitOnce_append ':' ['c'] name (by decide)
    rw [Markup.localName, split]
  refine .inside ?_ (.inside ?_ (.inside ?_ (.here ?_ (spells_escapedData s).coalesce)))
  · have root : Markup.localName (Server.Frame.env version).root.name = "Envelope".toList := by
      cases version <;> decide
    rw [root]
    exact named.outside.1
  · have body : Markup.localName ((Server.Frame.env version).part "Body".toList).name = "Body".toList := by
      cases version <;> decide
    rw [body]
    exact named.outside.2
  · rw [responseTag, local_]
    exact named.apart
  · rw [fieldTag, local_]

/-- A client finds the text in the response. -/
theorem EchoOperation.Named.response_extracted {op : EchoOperation} (named : op.Named)
    (lawful : ext.xml.Lawful)
    (compositional : ext.xml.Compositional) (s : Text) (version : SoapVersion) :
    extractFirstTextBySuffix ext.xml (serializeEnvelope (op.returned s).write version) op.field =
      some s := by
  have written := lawful.written_tag (named.returned_writable s) rfl
  rw [Server.serializeEnvelope_eq]
  exact (named.response_spells s version).extracted
    (Server.Frame.document_reads compositional (.env version) rfl written)

/-! The whole way. -/

open Server Envelope Dispatch
open Wssec (RotatingNonceCache)
open Loops (bind_eq_ok)

variable {H : Type} {svc : SoapService H} {table : DispatchTable H} {request : Request}
    {m : Message} {entry : DispatchEntry H}

/-- The request is a message for an operation that asks for no token, with its required elements. -/
structure Addressed (ext : Externals) (svc : SoapService H) (table : DispatchTable H)
    (request : Request) (m : Message)
    (entry : DispatchEntry H) : Prop where
  reads : ext.xml.Reads request.body m.document
  extractable : Wssec.Extractable m
  announced : ∃ version, detectSoapVersion (request.contentType.getD []) = .ok version
  routed : route table m.key (request.soapAction.map trimQuotes) = .ok entry
  filled : ∀ t, entry.validationType.bind svc.typeRegistry.lookup = some t →
    collectRequiredElementNames t ⊆ childNames m.first
  free : ¬ (entry.authRequired ∧ svc.authFn.isSome)

/-- The handler is given the message, and nothing else happens. -/
theorem Addressed.served (addressed : Addressed ext svc table request m entry)
    (lawful : ext.xml.Lawful) (nonceCache : RotatingNonceCache) (moment : Moment H) :
    postHandler ext svc table nonceCache request moment =
      ⟨some (reply ext m.version (moment.respond entry.handler m.bodyText m.headerTexts)),
        some ⟨entry, m.bodyText, m.headerTexts⟩, nonceCache⟩ := by
  obtain ⟨version, announced⟩ := addressed.announced
  have parsed := addressed.extractable.parses lawful addressed.reads
  have key := addressed.extractable.root lawful
    (List.mem_append_right _ (.head _) : (m.body, m.first) ∈ m.extracted)
  have found : routeRequest ext table request = .ok (⟨m.version, m.headerTexts, m.bodyText⟩, entry) := by
    refine bind_eq_ok.mpr ⟨version, by rw [announced]; rfl,
      bind_eq_ok.mpr ⟨_, by rw [parsed]; rfl, ?_⟩⟩
    refine bind_eq_ok.mpr ⟨m.key, ?_, bind_eq_ok.mpr ⟨entry, by rw [addressed.routed]; rfl, rfl⟩⟩
    exact congrArg (Server.inVersion m.version) key
  have passed : authorize ext svc entry m.headerTexts nonceCache moment = (.ok (), nonceCache) :=
    if_neg addressed.free
  have valid := validateRequest_message lawful addressed.extractable addressed.filled
  simp only [postHandler, found, passed, valid, invokeHandler]
  cases moment.respond entry.handler m.bodyText m.headerTexts <;> rfl

theorem fragment_spells (bindings : Scope) (el : Element) (first : FirstSpells suffix s el.alone) :
    FirstSpells suffix s (fragment bindings el).alone := by
  rcases el with ⟨tag, _ | kids⟩
  · cases first with
    | empty more => cases more
  · cases first with
    | here named spells => exact .here named spells.kept
    | inside other more => exact .inside other more.kept
    | after _ _ more => cases more

def specialText : Content :=
  .data (.generalRef "lt".toList) (.data (.text "hello".toList) (.data (.generalRef "gt".toList)
    (.data (.comment "-".toList) (.data (.text " ".toList) (.data (.generalRef "amp".toList) .nil)))))

def specialEcho : Element :=
  ⟨⟨"c:Echo".toList, [⟨"xmlns:c".toList, controlledNs⟩]⟩, some (.element ⟨"c:Text".toList, []⟩ specialText .nil)⟩

def specialMessage : Message where
  version := .soap12
  prolog := .nil
  envelope := ⟨"env:Envelope".toList, [⟨"xmlns:env".toList, Envelope.soap12Ns⟩]⟩
  kids := .element ⟨"env:Body".toList, []⟩ specialEcho.alone .nil
  epilog := .nil
  header := none
  body := ⟨"env:Body".toList, []⟩
  bodyKids := specialEcho.alone
  first := specialEcho
  bare := Content.elements_nil
  named := by decide +kernel
  headers := by decide +kernel
  bodies := by decide +kernel
  firstChild := rfl

def echoEntry : DispatchEntry EchoOperation := ⟨echo, false, none, none⟩

def echoTable : DispatchTable EchoOperation :=
  ⟨(∅ : Maps.HashMap QName _).insert specialMessage.key echoEntry, ∅, none⟩

def echoService : SoapService EchoOperation where
  dispatchTable := echoTable
  serviceTables := ∅
  servicePathNames := ∅
  typeRegistry := ∅
  wsdlRaw := []
  authFn := none
  nonceCache := .new 300 0
  timestampToleranceSecs := 0
  mountPath := []
  maxBodyBytes := 0

def specialRequest : Request := ⟨some "application/soap+xml".toList, none, specialMessage.document.write⟩

theorem specialMessage_addressed :
    Addressed .scanning echoService echoTable specialRequest specialMessage echoEntry where
  reads := by
    have written := Markup.scanner_lawful.written_tag (c := specialMessage.document) (by decide +kernel)
      (by decide +kernel)
    have same : specialMessage.document.coalesce = specialMessage.document := by decide +kernel
    rw [same] at written
    exact written
  extractable := {
    sound := by decide +kernel
    quotes := Message.forall_extracted.mpr ⟨nofun, Envelope.alone_allTags.mp (by decide +kernel)⟩
    declaredOnce := Message.forall_extracted.mpr ⟨nofun, fun p _ inBody => by cases inBody⟩ }
  announced := ⟨.soap12, by decide +kernel⟩
  routed := by
    have found : echoTable.byElement.lookup specialMessage.key = some echoEntry :=
      AList.lookup_insert _
    rw [route, found]
    rfl
  filled := nofun
  free := fun both => by cases both.2

theorem specialEcho_sent : FirstSpells "Text".toList "<hello> &".toList specialEcho.alone := by
  refine .inside (by decide) (.here (by decide) ?_)
  exact .reference rfl (.text (.reference rfl (.comment (.text (.reference rfl .nil)))))

end SoapServer.Crossref
