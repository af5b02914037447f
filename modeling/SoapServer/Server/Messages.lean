import SoapServer.Envelope.CharacterContent
import SoapServer.Escaping
import SoapServer.Markup.Composition
import SoapServer.Server.Response

/-! The texts the server answers with, as documents: what the envelope parser returns for
them, and what the reason of a fault reads as. -/

set_option autoImplicit false

namespace SoapServer

open Markup

/-! Reasons as character data. -/

/-- What a predefined reference stands for; any other one is left as it is. -/
def predefined (name : Text) : Text :=
  if name = "lt".toList then ['<']
  else if name = "gt".toList then ['>']
  else if name = "amp".toList then ['&']
  else if name = "apos".toList then ['\'']
  else if name = "quot".toList then ['"']
  else '&' :: (name ++ [';'])

theorem predefined_referenceName {c : Char} {name : Text} (given : referenceName c = some name) :
    predefined name = [c] := by
  unfold referenceName at given
  split at given
  all_goals first | (cases given; done) | (obtain rfl := Option.some.inj given; decide)

/-- Escaped text is decoded to what it was. -/
theorem escapedData_charTree (s : Text) : (escapedData s .nil).charTree predefined = .stop s := by
  induction s with
  | nil => rfl
  | cons c s ih =>
    rw [escapedData]
    cases given : referenceName c with
    | some name =>
      simp only [Content.charTree, ih, Data.decode, predefined_referenceName given]
      rfl
    | none =>
      simp only [Content.charTree, ih, Data.decode]
      rfl

namespace Server

open Envelope (soap11Ns soap12Ns envelopeNs fragment parseEnvelope_message Plain PrefixesPlain)

/-! The envelope around a body. -/

/-- The prefixes under which envelopes are written. -/
inductive Frame where
  | env (version : SoapVersion)
  | soapEnv

def Frame.version : Frame → SoapVersion
  | .env version => version
  | .soapEnv => .soap11

def Frame.pre : Frame → Text
  | .env _ => "env".toList
  | .soapEnv => "SOAP-ENV".toList

def Frame.root (frame : Frame) : Tag :=
  ⟨frame.pre ++ ":Envelope".toList, [⟨"xmlns:".toList ++ frame.pre, envelopeNs frame.version⟩]⟩

def Frame.part (frame : Frame) (name : Text) : Tag := ⟨frame.pre ++ ':' :: name, []⟩

def Frame.document (frame : Frame) (content : Content) : Content :=
  .element frame.root (.element (frame.part "Body".toList) content .nil) .nil

def Frame.text (frame : Frame) (body : Text) : Text :=
  frame.root.around ((frame.part "Body".toList).around body)

/-- What is written before the body, and behind it. -/
def Frame.opening (frame : Frame) : Text :=
  '<' :: (frame.root.writeBody ++ '>' :: '<' :: ((frame.part "Body".toList).writeBody ++ ['>']))

def Frame.closing (frame : Frame) : Text := closeTag (frame.part "Body".toList).name ++ closeTag frame.root.name

theorem Frame.text_eq (frame : Frame) (body : Text) :
    frame.text body = frame.opening ++ (body ++ frame.closing) := by
  simp only [text, Tag.around, opening, closing, List.append_assoc, List.cons_append,
    List.nil_append]

theorem serializeEnvelope_eq (body : Text) (version : SoapVersion) :
    serializeEnvelope body version = (Frame.env version).text body := by
  have opening : "<env:Envelope xmlns:env=\"".toList ++ envelopeNs version ++ "\"><env:Body>".toList =
      (Frame.env version).opening := by
    cases version <;> decide +kernel
  have closing : "</env:Body></env:Envelope>".toList = (Frame.env version).closing := by
    cases version <;> decide +kernel
  calc serializeEnvelope body version
    _ = (Frame.env version).opening ++ body ++ (Frame.env version).closing :=
      congrArg₂ (fun before after => before ++ body ++ after) opening closing
    _ = (Frame.env version).text body := by rw [Frame.text_eq, List.append_assoc]

def Frame.scope (frame : Frame) : Scope := Scope.initial.enter frame.root.attributes

theorem Frame.scope_known (frame : Frame) :
    resolvePrefix frame.scope frame.pre = .bound (Envelope.envelopeNs frame.version) := by
  rcases frame with version | _
  · cases version <;> decide +kernel
  · decide +kernel

theorem Frame.root_named (frame : Frame) : elementName frame.scope frame.root.name =
    ⟨.bound (Envelope.envelopeNs frame.version), "Envelope".toList⟩ := by
  rcases frame with version | _
  · cases version <;> decide +kernel
  · decide +kernel

theorem Frame.pre_isName (frame : Frame) : IsName frame.pre ∧ ':' ∉ frame.pre := by
  rcases frame with version | _
  · exact (by decide : IsName "env".toList ∧ ':' ∉ "env".toList)
  · decide

theorem Frame.split_name (frame : Frame) (name : Text) :
    splitOnce ':' (frame.part name).name = some (frame.pre, name) :=
  splitOnce_append ':' frame.pre name frame.pre_isName.2

/-- A tag under the prefix of the envelope is in the namespace of its version. -/
theorem Frame.part_named (frame : Frame) (name : Text) :
    elementName frame.scope (frame.part name).name = ⟨.bound (Envelope.envelopeNs frame.version), name⟩ := by
  simp only [elementName, resolveElement, localName, frame.split_name, frame.scope_known]

theorem Frame.body_isPart (frame : Frame) (name : Text) (kids : Option Content) :
    Envelope.isPart frame.scope name ⟨frame.part "Body".toList, kids⟩ = decide ("Body".toList = name) := by
  have named := frame.part_named "Body".toList
  simp only [elementName, ExpandedName.mk.injEq] at named
  have soap : Envelope.isSoapNs (.bound (Envelope.envelopeNs frame.version)) = true := by
    cases frame.version <;> decide +kernel
  have same : frame.scope.enter (frame.part "Body".toList).attributes = frame.scope := rfl
  rw [Envelope.isPart, same, named.1, named.2, soap, Bool.true_and]

theorem Frame.root_writable (frame : Frame) : frame.root.Lexical ∧ frame.root.QuoteFree := by
  rcases frame with version | _
  · cases version <;> decide +kernel
  · decide +kernel

theorem Frame.part_writable (frame : Frame) {name : Text} (isName : IsName name) :
    (frame.part name).Lexical ∧ (frame.part name).QuoteFree := by
  refine ⟨⟨⟨by simp [part], fun c member => ?_⟩, fun _ absent => by cases absent⟩,
    fun _ absent => by cases absent⟩
  rcases List.mem_append.mp member with inPre | inName
  · exact frame.pre_isName.1.2 c inPre
  · rcases List.mem_cons.mp inName with rfl | inName
    · decide
    · exact isName.2 c inName

variable {ext : Externals}

theorem Frame.document_reads (compositional : ext.xml.Compositional) (frame : Frame) {s : Text}
    {c : Content} (markup : s.head? = some '<') (reads : ext.xml.Reads s c) :
    ext.xml.Reads (frame.text s) (frame.document c) := by
  obtain ⟨partLexical, partQuotes⟩ := frame.part_writable (show IsName "Body".toList by decide)
  obtain ⟨rootLexical, rootQuotes⟩ := frame.root_writable
  exact compositional.nested _ _ _ rootLexical rootQuotes rfl
    (compositional.nested _ _ _ partLexical partQuotes markup reads)

/-- The message around a content that starts with an element. -/
def Frame.message (frame : Frame) (content : Content) (first : Element)
    (starts : content.elements.head? = some first) : Envelope.Message where
  version := frame.version
  prolog := .nil
  envelope := frame.root
  kids := .element (frame.part "Body".toList) content .nil
  epilog := .nil
  header := none
  body := frame.part "Body".toList
  bodyKids := content
  first := first
  bare := Content.elements_nil
  named := frame.root_named
  headers := by
    have other : "Body".toList ≠ "Header".toList := by decide
    rw [Content.elements, List.filter_cons, ← Frame.scope, frame.body_isPart, decide_eq_false other]
    rfl
  bodies := by
    rw [Content.elements, List.filter_cons, ← Frame.scope, frame.body_isPart, decide_eq_true rfl]
    rfl
  firstChild := starts

/-- What stands in an envelope as its body is accepted, in the version of the envelope. -/
theorem Frame.accepted (lawful : ext.xml.Lawful) (frame : Frame) {input : Text} {content : Content}
    {first : Element} (starts : content.elements.head? = some first)
    (reads : ext.xml.Reads input (frame.document content)) (unique : content.AllTags Tag.Unique)
    (resolvable : content.AllTags Tag.Resolvable) (plain : Plain content) :
    ∃ body, Envelope.parseEnvelope ext input = .ok ⟨frame.version, [], body⟩ := by
  have tags {P : Tag → Prop} (root : P frame.root) (part : P (frame.part "Body".toList)) (all : content.AllTags P) :
      (frame.message content first starts).document.AllTags P :=
        ⟨root, ⟨part, all, trivial⟩, trivial⟩
  have partPlain : PrefixesPlain (frame.part "Body".toList) := fun _ absent => by cases absent
  have partResolvable : (frame.part "Body".toList).Resolvable ∧ frame.root.Resolvable := by
    rcases frame with version | _
    · cases version <;> decide +kernel
    · decide +kernel
  have rootPlain : PrefixesPlain frame.root := by
    intro a member p declares
    obtain rfl := List.mem_singleton.mp member
    have declared : (⟨"xmlns:".toList ++ frame.pre, envelopeNs frame.version⟩ : Attribute).declares = some frame.pre := by
      rcases frame with version | _ <;> rfl
    obtain rfl := Option.some.inj (declared.symm.trans declares)
    exact ⟨frame.pre_isName.2, fun empty => absurd empty frame.pre_isName.1.1⟩
  exact ⟨_, parseEnvelope_message lawful (frame.message content first starts) reads
    (tags (List.nodup_singleton _) List.nodup_nil unique) (tags partResolvable.2 partResolvable.1 resolvable)
    (tags rootPlain partPlain plain)⟩

/-! Faults. -/

/-- A content inside one tag inside another. -/
def within (tags : List Tag) (content : Content) : Content :=
  tags.foldr (fun tag inner => .element tag inner .nil) content

def openTags (tags : List Tag) : Text := tags.flatMap fun tag => '<' :: (tag.writeBody ++ ['>'])

def closeTags (tags : List Tag) : Text := tags.reverse.flatMap fun tag => closeTag tag.name

theorem within_write (tags : List Tag) (content : Content) :
    (within tags content).write = openTags tags ++ (content.write ++ closeTags tags) := by
  induction tags with
  | nil => simp [within, openTags, closeTags]
  | cons tag tags ih =>
    have inner : (List.foldr (fun tag inner => Content.element tag inner .nil) content tags).write = _ := ih
    simp [within, Content.write, inner, openTags, closeTags]

/-- How a version writes its faults. -/
structure FaultLayout where
  frame : Frame
  code : FaultCode → Text
  codeTags : List Tag
  reasonTags : List Tag
  detailTag : Tag
  /-- The names from the root down to the text of the reason. -/
  reasonPath : List ExpandedName

def unprefixed (name : Text) : Tag := ⟨name, []⟩

def FaultLayout.v11 : FaultLayout where
  frame := .soapEnv
  code := FaultCode.faultcodeV11
  codeTags := [unprefixed "faultcode".toList]
  reasonTags := [unprefixed "faultstring".toList]
  detailTag := unprefixed "detail".toList
  reasonPath := [⟨.unbound, "faultstring".toList⟩]

def FaultLayout.v12 : FaultLayout where
  frame := .env .soap12
  code := FaultCode.asSoap12Str
  codeTags := [(Frame.env .soap12).part "Code".toList, (Frame.env .soap12).part "Value".toList]
  reasonTags := [(Frame.env .soap12).part "Reason".toList,
    ⟨"env:Text".toList, [⟨"xml:lang".toList, "en".toList⟩]⟩]
  detailTag := (Frame.env .soap12).part "Detail".toList
  reasonPath := [⟨.bound soap12Ns, "Reason".toList⟩, ⟨.bound soap12Ns, "Text".toList⟩]

def faultLayout : SoapVersion → FaultLayout
  | .soap11 => .v11
  | .soap12 => .v12

namespace FaultLayout

variable (layout : FaultLayout)

def faultTag : Tag := layout.frame.part "Fault".toList

/-- Code and reason. -/
def head (f : SoapFault) : Content :=
  (within layout.codeTags (.data (.text (layout.code f.code)) .nil)).append
    (within layout.reasonTags (escapedData f.reason .nil))

/-- The text of a fault, with a detail that is written already. -/
def text (f : SoapFault) (detail : Text) : Text :=
  layout.frame.text (layout.faultTag.around ((layout.head f).write ++ detail))

def outerTags : List Tag := [layout.frame.root, layout.frame.part "Body".toList, layout.faultTag]

end FaultLayout

/-- A fault from its pieces: only code, reason and detail are not fixed. -/
def faultText (before code between reason after detail last : Text) : Text :=
  before ++ (code ++ (between ++ (reason ++ (after ++ (detail ++ last)))))

theorem FaultLayout.text_eq (layout : FaultLayout) (escapes : ext.Escapes) (f : SoapFault)
    (detail : Text) :
    layout.text f detail = faultText (openTags (layout.outerTags ++ layout.codeTags)) (layout.code f.code)
      (closeTags layout.codeTags ++ openTags layout.reasonTags) (ext.escape f.reason) (closeTags layout.reasonTags)
      detail (closeTags layout.outerTags) := by
  have reason : (escapedData f.reason .nil).write = ext.escape f.reason := by
    rw [escapedData_write, escapes, Content.write, List.append_nil]
  rw [text, Frame.text_eq, head, Content.write_append, within_write, within_write, reason]
  simp only [faultText, outerTags, openTags, closeTags, Frame.opening, Frame.closing, Tag.around,
    Content.write, Data.write,
    List.flatMap_cons, List.flatMap_nil, List.reverse_cons, List.reverse_nil, List.nil_append,
    List.append_assoc, List.cons_append, List.append_nil]

/-- The detail of a fault, with its tags. -/
def faultDetail (ext : Externals) (f : SoapFault) : SoapVersion → Text
  | .soap11 =>
    match f.detailXml, f.detail with
    | some raw, _ => "<detail>".toList ++ raw ++ "</detail>".toList
    | none, some detail => "<detail>".toList ++ ext.escape detail ++ "</detail>".toList
    | none, none => []
  | .soap12 =>
    match f.detailXml with
    | some raw => "<env:Detail>".toList ++ raw ++ "</env:Detail>".toList
    | none => []

theorem faultText_split (before code first second reason after detail last : Text) :
    before ++ code ++ first ++ second ++ reason ++ after ++ detail ++ last =
      faultText before code (first ++ second) reason after detail last := by
  simp only [faultText, List.append_assoc]

theorem faultText_congr {before before' between between' after after' last last' : Text}
    (code reason detail : Text) (starts : before = before') (middle : between = between')
    (follows : after = after') (ends : last = last') :
    faultText before code between reason after detail last =
      faultText before' code between' reason after' detail last' := by
  subst starts middle follows ends
  rfl

/-- Both serialisers write their layout. -/
theorem toXmlBytesVersioned_eq (escapes : ext.Escapes) (f : SoapFault) (version : SoapVersion) :
    f.toXmlBytesVersioned ext version = (faultLayout version).text f (faultDetail ext f version) := by
  rw [FaultLayout.text_eq _ escapes]
  cases version with
  | soap11 =>
    have split := faultText_split ("<SOAP-ENV:Envelope xmlns:SOAP-ENV=\"".toList ++ soap11Ns ++
      "\"><SOAP-ENV:Body><SOAP-ENV:Fault><faultcode>".toList) f.code.faultcodeV11 "</faultcode><faultstring>".toList []
      (ext.escape f.reason) "</faultstring>".toList (faultDetail ext f .soap11)
      "</SOAP-ENV:Fault></SOAP-ENV:Body></SOAP-ENV:Envelope>".toList
    rw [List.append_nil] at split
    refine Eq.trans ?_ (split.trans ?_)
    · rfl
    · exact faultText_congr _ _ _ (by decide +kernel) (by decide +kernel) (by decide +kernel) (by decide +kernel)
  | soap12 =>
    refine (faultText_split ("<env:Envelope xmlns:env=\"http://www.w3.org/2003/05/soap-envelope\"><env:Body><env:Fault>".toList
      ++ "<env:Code><env:Value>".toList) f.code.asSoap12Str "</env:Value></env:Code>".toList
      "<env:Reason><env:Text xml:lang=\"en\">".toList (ext.escape f.reason) "</env:Text></env:Reason>".toList
      (faultDetail ext f .soap12) "</env:Fault></env:Body></env:Envelope>".toList).trans ?_
    exact faultText_congr _ _ _ (by decide +kernel) (by decide +kernel) (by decide +kernel) (by decide +kernel)

/-! The parts of a fault. -/

theorem within_allTags {P : Tag → Prop} {tags : List Tag} {content : Content}
    (each : ∀ tag ∈ tags, P tag) (all : content.AllTags P) : (within tags content).AllTags P := by
  induction tags with
  | nil => exact all
  | cons tag tags ih =>
    exact ⟨each tag List.mem_cons_self, ih fun t member => each t (List.mem_cons_of_mem _ member),
      trivial⟩

theorem within_allData {P : Data → Prop} {tags : List Tag} {content : Content}
    (all : content.AllData P) :
    (within tags content).AllData P := by
  induction tags with
  | nil => exact all
  | cons tag tags ih => exact ⟨ih, trivial⟩

namespace FaultLayout

/-- What holds of the tags of a layout holds of every tag of code and reason. -/
theorem head_allTags {P : Tag → Prop} {layout : FaultLayout}
    (each : ∀ tag ∈ layout.codeTags ++ layout.reasonTags, P tag) (f : SoapFault) :
    (layout.head f).AllTags P :=
  Content.allTags_append.mpr
    ⟨within_allTags (fun tag member => each tag (List.mem_append_left _ member)) trivial,
      within_allTags (fun tag member => each tag (List.mem_append_right _ member))
        ((escapedData_allTags P _ _).mpr trivial)⟩

theorem tags_writable (version : SoapVersion) :
    ∀ tag ∈ (faultLayout version).codeTags ++ (faultLayout version).reasonTags, tag.Lexical ∧ tag.QuoteFree := by
  cases version <;> decide +kernel

theorem tags_plain (version : SoapVersion) :
    ∀ tag ∈ (faultLayout version).codeTags ++ (faultLayout version).reasonTags,
      (tag.Unique ∧ tag.Resolvable) ∧ PrefixesPlain tag := by
  have none_declared : ∀ tag ∈ (faultLayout version).codeTags ++ (faultLayout version).reasonTags,
      (tag.Unique ∧ tag.Resolvable) ∧ ∀ a ∈ tag.attributes, a.declares = none := by
    cases version <;> decide +kernel
  refine fun tag member => ⟨(none_declared tag member).1, fun a own p declares => ?_⟩
  rw [(none_declared tag member).2 a own] at declares
  cases declares

theorem code_lexical (version : SoapVersion) (code : FaultCode) :
    (Data.text ((faultLayout version).code code)).Lexical := by
  cases version <;> cases code <;> decide +kernel

theorem head_writable (version : SoapVersion) (f : SoapFault) :
    ((faultLayout version).head f).Writable where
  tags := head_allTags (fun tag member => (tags_writable version tag member).1) f
  quotes := head_allTags (fun tag member => (tags_writable version tag member).2) f
  data := Content.allData_append.mpr
    ⟨within_allData ⟨code_lexical version f.code, trivial⟩,
      within_allData (escapedData_lexical _ trivial)⟩

theorem head_markup (version : SoapVersion) (f : SoapFault) (detail : Text) :
    (((faultLayout version).head f).write ++ detail).head? = some '<' := by
  cases version <;> rfl

/-- Around a detail that reads, a fault reads as its head and that detail. -/
theorem text_reads (lawful : ext.xml.Lawful) (compositional : ext.xml.Compositional)
    (version : SoapVersion) (f : SoapFault) {detail : Text} {c : Content}
    (reads : ext.xml.Reads detail c) (shape : detail.head? = some '<' ∨ detail = [] ∧ c = .nil) :
    ext.xml.Reads ((faultLayout version).text f detail)
      ((faultLayout version).frame.document
        (.element (faultLayout version).faultTag (((faultLayout version).head f).coalesce.append c) .nil)) := by
  have headMarkup := head_markup version f []
  rw [List.append_nil] at headMarkup
  have headReads := lawful.written_tag (head_writable version f) headMarkup
  have inner : ext.xml.Reads (((faultLayout version).head f).write ++ detail)
      (((faultLayout version).head f).coalesce.append c) := by
    rcases shape with markup | ⟨rfl, rfl⟩
    · exact compositional.appended _ _ _ _ headMarkup markup headReads reads
    · rwa [List.append_nil, Content.append_nil]
  obtain ⟨tagLexical, tagQuotes⟩ := (faultLayout version).frame.part_writable (show IsName "Fault".toList by decide)
  exact Frame.document_reads compositional _ rfl
    (compositional.nested _ _ _ tagLexical tagQuotes (head_markup version f detail) inner)

end FaultLayout

/-! Bodies and details as they come from a handler. -/

/-- One element that declares the prefixes it uses, with what the results use of its being
well-formed. -/
structure IsElementText (ext : Externals) (s : Text) (el : Element) : Prop where
  markup : s.head? = some '<'
  reads : ext.xml.Reads s el.alone
  sound : el.alone.Sound

/-- Content as it reads between two tags, with what the results use of its being well-formed; the
prefixes it uses may be declared around it. -/
structure IsContentText (ext : Externals) (s : Text) (c : Content) : Prop where
  reads : ext.xml.Reads ((unprefixed "detail".toList).around s) (.element (unprefixed "detail".toList) c .nil)
  lexical : c.AllTags Tag.Lexical
  data : c.AllData Data.Clean
  namespaces : ∃ scope, c.NamespaceWellFormed scope

theorem IsContentText.plain {s : Text} {c : Content} (content : IsContentText ext s c) :
    c.AllTags Tag.Unique ∧ c.AllTags Tag.Resolvable ∧ Plain c := by
  obtain ⟨scope, wellFormed⟩ := content.namespaces
  exact ⟨wellFormed.unique, wellFormed.resolvable,
    wellFormed.allTags fun _ _ tag a member p declares =>
    ⟨(tag.declared a member p declares).1, (tag.declared a member p declares).2.2⟩⟩

/-- What a handler may return. -/
def HandlerResult (ext : Externals) : Except SoapFault Text → Prop
  | .ok bytes => ∃ el, IsElementText ext bytes el
  | .error f => ∀ raw, f.detailXml = some raw → ∃ c, IsContentText ext raw c

theorem detailTag_writable (version : SoapVersion) :
    (faultLayout version).detailTag.Lexical ∧ (faultLayout version).detailTag.QuoteFree := by
  cases version <;> decide +kernel

theorem detail_around (version : SoapVersion) (s : Text) :
    (match version with
      | .soap11 => "<detail>".toList ++ s ++ "</detail>".toList
      | .soap12 => "<env:Detail>".toList ++ s ++ "</env:Detail>".toList) = (faultLayout version).detailTag.around s := by
  have pieces (tag : Tag) : tag.around s = '<' :: (tag.writeBody ++ ['>']) ++ s ++ closeTag tag.name := by
    simp [Tag.around]
  rw [pieces]
  cases version <;>
    exact congrArg₂ (fun before after => before ++ s ++ after) (by decide +kernel) (by decide +kernel)

/-- The three kinds of detail: none, content of a handler, and escaped text. -/
theorem faultDetail_cases (escapes : ext.Escapes) (f : SoapFault) (version : SoapVersion) :
    (f.detailXml = none ∧ faultDetail ext f version = []) ∨
    (∃ raw, f.detailXml = some raw ∧ faultDetail ext f version = (faultLayout version).detailTag.around raw) ∨
    (∃ detail, f.detailXml = none ∧ faultDetail ext f version =
      (faultLayout version).detailTag.around (escapedData detail .nil).write) := by
  have write (detail : Text) : (escapedData detail .nil).write = ext.escape detail := by
    rw [escapedData_write, escapes, Content.write, List.append_nil]
  cases given : f.detailXml with
  | some raw =>
    right; left
    refine ⟨raw, rfl, ?_⟩
    rw [← detail_around]
    cases version <;> simp only [faultDetail, given]
  | none =>
    cases version with
    | soap12 => exact .inl ⟨rfl, by simp only [faultDetail, given]⟩
    | soap11 =>
      cases plain : f.detail with
      | none => exact .inl ⟨rfl, by simp only [faultDetail, given, plain]⟩
      | some detail =>
        right; right
        refine ⟨detail, rfl, ?_⟩
        rw [← detail_around .soap11, write]
        simp only [faultDetail, given, plain]

/-- A detail reads as content without repeated attributes. -/
theorem faultDetail_reads (lawful : ext.xml.Lawful) (compositional : ext.xml.Compositional)
    (escapes : ext.Escapes) (f : SoapFault) (version : SoapVersion)
    (well : HandlerResult ext (.error f)) :
    ∃ c, ext.xml.Reads (faultDetail ext f version) c ∧
      ((faultDetail ext f version).head? = some '<' ∨ faultDetail ext f version = [] ∧ c = .nil) ∧
      c.AllTags Tag.Unique ∧ c.AllTags Tag.Resolvable ∧ Plain c := by
  obtain ⟨tagLexical, tagQuotes⟩ := detailTag_writable version
  have tagNames : (faultLayout version).detailTag.Unique ∧ (faultLayout version).detailTag.Resolvable := by
    cases version <;> decide +kernel
  have tagPlain : PrefixesPlain (faultLayout version).detailTag := by
    have bare : (faultLayout version).detailTag.attributes = [] := by cases version <;> rfl
    intro a member
    rw [bare] at member
    cases member
  -- no detail, one that a handler gave as markup, or one that is written as text
  rcases faultDetail_cases escapes f version
      with ⟨_, empty⟩ | ⟨raw, given, shape⟩ | ⟨detail, _, shape⟩
  · refine ⟨.nil, ?_, .inr ⟨empty, rfl⟩, trivial, trivial, trivial⟩
    rw [empty]
    exact lawful.written .nil ⟨trivial, trivial, trivial⟩ (by simp [Content.write])
  · obtain ⟨c, content⟩ := well raw given
    obtain ⟨unique, resolvable, plain⟩ := content.plain
    refine ⟨.element (faultLayout version).detailTag c .nil, ?_, .inl (by rw [shape]; rfl),
      ⟨tagNames.1, unique, trivial⟩, ⟨tagNames.2, resolvable, trivial⟩, tagPlain, plain, trivial⟩
    rw [shape]
    exact compositional.rewrapped _ _ raw c (by decide +kernel) (by decide +kernel) tagLexical tagQuotes content.reads
  · have written := lawful.written_tag (c := .element (faultLayout version).detailTag (escapedData detail .nil) .nil)
      ⟨⟨tagLexical, (escapedData_allTags _ _ _).mpr trivial, trivial⟩,
        ⟨tagQuotes, (escapedData_allTags _ _ _).mpr trivial, trivial⟩, escapedData_lexical _ trivial, trivial⟩ rfl
    refine ⟨(Content.element (faultLayout version).detailTag (escapedData detail .nil) .nil).coalesce, ?_,
      .inl (by rw [shape]; rfl), ?_, ?_, ?_⟩
    · rw [shape]
      simpa [Content.write, Tag.around] using written
    · exact (Content.coalesce_allTags _ _).mpr ⟨tagNames.1, (escapedData_allTags _ _ _).mpr trivial,
        trivial⟩
    · exact (Content.coalesce_allTags _ _).mpr ⟨tagNames.2, (escapedData_allTags _ _ _).mpr trivial,
        trivial⟩
    · exact (Content.coalesce_allTags _ _).mpr ⟨tagPlain, (escapedData_allTags _ _ _).mpr trivial,
        trivial⟩

/-! What a response is. -/

/-- The content of the first element of each name, from the top down. -/
def Content.descend : List ExpandedName → Scope → Content → Option Content
  | [], _, c => some c
  | name :: path, scope, c =>
    (c.elements.find? fun el => elementName (scope.enter el.tag.attributes) el.tag.name = name).bind fun el =>
      el.kids.bind (Content.descend path (scope.enter el.tag.attributes))

theorem Content.descend_cons {name : ExpandedName} {scope : Scope} {c : Content}
    {after : List Element} {tag : Tag} {kids : Content} (path : List ExpandedName)
    (before : List Element) (found : c.elements = before ++ ⟨tag, some kids⟩ :: after)
    (others : ∀ el ∈ before, elementName (scope.enter el.tag.attributes) el.tag.name ≠ name)
    (named : elementName (scope.enter tag.attributes) tag.name = name) :
    Content.descend (name :: path) scope c = Content.descend path (scope.enter tag.attributes) kids := by
  have first : c.elements.find? (fun el => elementName (scope.enter el.tag.attributes) el.tag.name = name) =
      some ⟨tag, some kids⟩ := by
    rw [found, List.find?_append, List.find?_eq_none.mpr (by simpa using others)]
    simp [named]
  rw [Content.descend, first]
  rfl

/-- The names around the fault of a version. -/
def envelopePath (version : SoapVersion) : List ExpandedName :=
  ["Envelope".toList, "Body".toList, "Fault".toList].map fun name => ⟨.bound (Envelope.envelopeNs version), name⟩

/-- The reason of the fault in a message: `Reason/Text`, or `faultstring` in SOAP 1.1. -/
def ReasonReads (ext : Externals) (text : Text) (version : SoapVersion) (reason : Text) : Prop :=
  ∃ c kids, ext.xml.Reads text c ∧
    Content.descend (envelopePath version ++ (faultLayout version).reasonPath) Scope.initial c = some kids ∧
    kids.charTree predefined = .stop reason

theorem faultFrame_version (version : SoapVersion) :
    (faultLayout version).frame.version = version := by
  cases version <;> rfl

/-- The reason is found below the fault, whatever the code and the detail are. -/
theorem reason_descends (version : SoapVersion) (f : SoapFault) (c : Content) :
    Content.descend (faultLayout version).reasonPath (faultLayout version).frame.scope
      (((faultLayout version).head f).coalesce.append c) = some (escapedData f.reason .nil).coalesce := by
  cases version with
  | soap11 =>
    refine (Content.descend_cons [] [⟨unprefixed "faultcode".toList, _⟩] rfl ?_ ?_).trans rfl
    · intro el member
      obtain rfl := List.mem_singleton.mp member
      exact (by decide +kernel : elementName (Frame.scope .soapEnv) "faultcode".toList ≠ ⟨.unbound, "faultstring".toList⟩)
    · exact (by decide +kernel : elementName (Frame.scope .soapEnv) "faultstring".toList = ⟨.unbound, "faultstring".toList⟩)
  | soap12 =>
    refine (Content.descend_cons _ [⟨(Frame.env .soap12).part "Code".toList, _⟩] rfl ?_ ?_).trans ?_
    · intro el member
      obtain rfl := List.mem_singleton.mp member
      exact (by decide +kernel : elementName (Frame.scope (.env .soap12)) "env:Code".toList ≠ ⟨.bound soap12Ns, "Reason".toList⟩)
    · exact (by decide +kernel : elementName (Frame.scope (.env .soap12)) "env:Reason".toList = ⟨.bound soap12Ns, "Reason".toList⟩)
    · refine (Content.descend_cons [] [] rfl (fun _ absent => by cases absent) ?_).trans rfl
      exact (by decide +kernel : elementName (Frame.scope (.env .soap12)) "env:Text".toList = ⟨.bound soap12Ns, "Text".toList⟩)

/-- A fault is a message of its version, whose reason reads as it was given. -/
theorem fault_reads (lawful : ext.xml.Lawful) (compositional : ext.xml.Compositional)
    (escapes : ext.Escapes) (f : SoapFault) (version : SoapVersion)
    (well : HandlerResult ext (.error f)) :
    (∃ body, Envelope.parseEnvelope ext (f.toXmlBytesVersioned ext version) = .ok ⟨version, [], body⟩) ∧
      ReasonReads ext (f.toXmlBytesVersioned ext version) version f.reason := by
  obtain ⟨c, detailReads, shape, unique, resolvable, plain⟩ :=
    faultDetail_reads lawful compositional escapes f version well
  have reads := FaultLayout.text_reads lawful compositional version f detailReads shape
  rw [← toXmlBytesVersioned_eq escapes] at reads
  constructor
  · have headTags (P : Tag → Prop)
        (each : ∀ tag ∈ (faultLayout version).codeTags ++ (faultLayout version).reasonTags, P tag) :
        ((faultLayout version).head f).coalesce.AllTags P :=
      (Content.coalesce_allTags _ _).mpr (FaultLayout.head_allTags each f)
    have faultPlain : PrefixesPlain (faultLayout version).faultTag :=
      fun _ absent => by cases absent
    have faultResolvable : (faultLayout version).faultTag.Resolvable :=
      by cases version <;> decide +kernel
    have accepted := Frame.accepted lawful (faultLayout version).frame rfl reads
      ⟨List.nodup_nil, Content.allTags_append.mpr
        ⟨headTags _ fun tag member => (FaultLayout.tags_plain version tag member).1.1, unique⟩, trivial⟩
      ⟨faultResolvable, Content.allTags_append.mpr
        ⟨headTags _ fun tag member => (FaultLayout.tags_plain version tag member).1.2, resolvable⟩, trivial⟩
      ⟨faultPlain, Content.allTags_append.mpr
        ⟨headTags _ fun tag member => (FaultLayout.tags_plain version tag member).2, plain⟩, trivial⟩
    rwa [faultFrame_version] at accepted
  · refine ⟨_, _, reads, ?_, (Content.charTree_coalesce _ _).trans (escapedData_charTree f.reason)⟩
    have nothing {P : Element → Prop} : ∀ el ∈ ([] : List Element), P el :=
      fun _ absent => by cases absent
    have root := (faultLayout version).frame.root_named
    have part := (faultLayout version).frame.part_named
    rw [faultFrame_version] at root part
    refine (Content.descend_cons _ [] rfl nothing root).trans ?_
    refine (Content.descend_cons _ [] rfl nothing (part "Body".toList)).trans ?_
    exact (Content.descend_cons _ [] rfl nothing (part "Fault".toList)).trans (reason_descends version f c)

/-- The body a handler returned is a message of the version it is wrapped in. -/
theorem body_reads (lawful : ext.xml.Lawful) (compositional : ext.xml.Compositional)
    (version : SoapVersion) {bytes : Text} (well : HandlerResult ext (.ok bytes)) :
    ∃ body, Envelope.parseEnvelope ext (serializeEnvelope bytes version) = .ok ⟨version, [], body⟩ := by
  obtain ⟨el, text⟩ := well
  rw [serializeEnvelope_eq]
  have starts : el.alone.elements.head? = some el := by rcases el with ⟨tag, _ | kids⟩ <;> rfl
  have reads := Frame.document_reads compositional (.env version) text.markup text.reads
  exact Frame.accepted lawful (.env version) starts reads text.sound.namespaces.unique
    text.sound.namespaces.resolvable (Envelope.plain_of_sound text.sound)

end Server

end SoapServer
