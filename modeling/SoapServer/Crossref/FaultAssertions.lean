import SoapServer.Crossref.Masks
import SoapServer.Server.Messages

/-! What the conformance harness asserts about a fault: its code, and that its detail holds an element.

Both are read off the response in one pass. The faults of the server read as they were made.
-/

set_option autoImplicit false

namespace SoapServer.Crossref

open Markup hiding localName

/-- Why a scenario passes or does not. -/
inductive Verdict where
  | pass
  | sutFail (reason : Text)
  | referenceDisagreement (reason : Text)
  | knownDivergence (reason : Text)
  | harnessError (reason : Text)
  deriving DecidableEq, Repr

/-- Whitespace as Unicode has it, which is trimmed from the two ends of a string. -/
def isUnicodeWhitespace (c : Char) : Bool :=
  (9 ≤ c.toNat && c.toNat ≤ 13) || c.toNat = 32 || c.toNat = 0x85 || c.toNat = 0xA0 || c.toNat = 0x1680 ||
    (0x2000 ≤ c.toNat && c.toNat ≤ 0x200A) || c.toNat = 0x2028 || c.toNat = 0x2029 || c.toNat = 0x202F ||
    c.toNat = 0x205F || c.toNat = 0x3000

def trimUnicode (s : Text) : Text :=
  ((s.dropWhile isUnicodeWhitespace).reverse.dropWhile isUnicodeWhitespace).reverse

/-! The code. -/

/-- What the search for a code has met: an open `Code`, an open element that holds the code, and its
text. -/
structure CodeSearch where
  inCodeParent : Bool
  inValue : Bool
  accumulated : Text

def targetSuffix (isSoap11 : Bool) : Text := if isSoap11 then "faultcode".toList else "Value".toList

def CodeSearch.start (isSoap11 : Bool) (s : CodeSearch) (l : Text) : CodeSearch :=
  if isSoap11 then if l = targetSuffix isSoap11 then { s with inValue := true, accumulated := [] } else s
  else if l = "Code".toList then { s with inCodeParent := true }
  else if l = "Value".toList ∧ s.inCodeParent then { s with inValue := true, accumulated := [] }
  else s

/-- The text of the first code there is; the search ends with it. -/
def findFaultCode (isSoap11 : Bool) : CodeSearch → List (Except Text Event) → Option Text
  | _, [] => none
  | _, .error _ :: _ => none
  | s, .ok (.start tag) :: rest => findFaultCode isSoap11 (s.start isSoap11 (localNameStr tag.name)) rest
  | s, .ok (.close name) :: rest =>
    if s.inValue ∧ localNameStr name = targetSuffix isSoap11 then some (trimUnicode s.accumulated)
    else if !isSoap11 ∧ localNameStr name = "Code".toList
      then findFaultCode isSoap11 { s with inCodeParent := false } rest
    else findFaultCode isSoap11 s rest
  | s, .ok (.data (.text raw)) :: rest =>
    findFaultCode isSoap11 (if s.inValue then { s with accumulated := s.accumulated ++ raw } else s) rest
  | s, .ok _ :: rest => findFaultCode isSoap11 s rest

def codeMismatch (scenarioName codeText declaredCode : Text) : Verdict :=
  .sutFail (['['] ++ scenarioName ++ "] fault code mismatch: our code '".toList ++ codeText ++
    "' local='".toList ++
    localNameStr codeText ++ "', declared='".toList ++ declaredCode ++ "'".toList)

/-- No verdict when the code is the declared one, or when there is none. -/
def enforceFaultCode (reader : Reader) (body declaredCode scenarioName : Text) (isSoap11 : Bool) :
    Option Verdict :=
  match findFaultCode isSoap11 ⟨false, false, []⟩ (reader.events true body) with
  | some codeText => if localNameStr codeText = declaredCode then none
      else some (codeMismatch scenarioName codeText declaredCode)
  | none => none

/-! The detail. -/

structure DetailSearch where
  inDetail : Bool
  foundChildElement : Bool
  foundEscapedText : Bool
  detailSeen : Bool

def detailName : Text := "Detail".toList

def DetailSearch.step (s : DetailSearch) : Event → DetailSearch
  | .start tag =>
    if localNameStr tag.name = detailName then { s with inDetail := true, detailSeen := true }
    else if s.inDetail then { s with foundChildElement := true }
    else s
  -- an empty tag is no child
  | .empty _ => s
  | .close name => if localNameStr name = detailName then { s with inDetail := false } else s
  | .data (.text raw) =>
    if s.inDetail ∧ ("&lt;".toList <:+: raw ∨ (trimUnicode raw).head? = some '<')
      then { s with foundEscapedText := true }
    else s
  | .data _ => s

/-- The loop ends at the first error. -/
def searchDetail : DetailSearch → List (Except Text Event) → DetailSearch
  | s, [] => s
  | s, .error _ :: _ => s
  | s, .ok event :: rest => searchDetail (s.step event) rest

def detailFailure (scenarioName reason : Text) : Verdict :=
  .sutFail (['['] ++ scenarioName ++ "] raw_xml_child: ".toList ++ reason)

def enforceRawXmlChildDetail (reader : Reader) (body scenarioName : Text) : Option Verdict :=
  let s := searchDetail ⟨false, false, false, false⟩ (reader.events false body)
  if !s.detailSeen then
    some (detailFailure scenarioName "<Detail> element absent in our fault response".toList)
  else if s.foundEscapedText then
    some (detailFailure scenarioName
      "<Detail> contains escaped XML text (expected raw child element)".toList)
  else if !s.foundChildElement then
    some (detailFailure scenarioName
      "<Detail> has no child element (detail_policy requires raw XML child)".toList)
  else none

/-! The faults of the server. -/

open Server (FaultLayout faultLayout Frame HandlerResult IsContentText faultDetail)

variable {ext : Externals}

/-- The class of a code as a version names it. -/
def faultClass (version : SoapVersion) (code : FaultCode) : Text :=
  localNameStr ((faultLayout version).code code)

theorem searchDetail_stream (s : DetailSearch) (events : List Event) :
    searchDetail s (stream events) = events.foldl DetailSearch.step s := by
  induction events generalizing s with
  | nil => rfl
  | cons event rest ih => exact ih (s.step event)

/-- The code of a fault is found, whatever follows it. -/
theorem findFaultCode_head (version : SoapVersion) (f : SoapFault) (c : Content) :
    findFaultCode (version = .soap11) ⟨false, false, []⟩ (stream ((faultLayout version).frame.document
      (.element (faultLayout version).faultTag (((faultLayout version).head f).coalesce.append c)
        .nil)).trim.events) =
        some ((faultLayout version).code f.code) := by
  obtain ⟨code, reason, detail, detailXml⟩ := f
  cases version <;> cases code <;> rfl

/-- An element with content of its own. -/
def hasChild (c : Content) : Bool := c.elements.any fun el => el.kids.isSome

def Undetailed (c : Content) : Prop := c.AllTags fun tag => localNameStr tag.name ≠ detailName

instance (c : Content) : Decidable (Undetailed c) := by unfold Undetailed; infer_instance

namespace DetailSearch

variable {s : DetailSearch} {c : Content}

theorem step_close_other {name : Text} (other : localNameStr name ≠ detailName) (s : DetailSearch) :
    s.step (.close name) = s := if_neg other

/-- Outside of a detail nothing is found. -/
theorem foldl_outside (undetailed : Undetailed c) (outside : s.inDetail = false) :
    c.events.foldl step s = s := by
  induction c with
  | nil => rfl
  | data d rest ih =>
    have same : s.step (.data d) = s := by
      cases d with
      | text raw => exact if_neg fun both => by rw [outside] at both; cases both.1
      | _ => rfl
    rw [Content.events, List.foldl_cons, same]
    exact ih undetailed
  | empty tag rest ih => exact ih undetailed.2
  | element tag kids rest kidsIH restIH =>
    obtain ⟨other, inner, later⟩ := undetailed
    have start : s.step (.start tag.read) = s := by
      rw [step, if_neg (show localNameStr tag.read.name ≠ detailName from other),
        if_neg (by rw [outside]; decide)]
    simp only [Content.events, List.foldl_cons, List.foldl_append, start]
    rw [kidsIH inner, step_close_other other, restIH later]

/-- Data without markup of its own is never taken for an element that was escaped. -/
theorem step_clean {d : Data} (clean : d.Clean) (s : DetailSearch) : s.step (.data d) = s := by
  cases d with
  | text raw =>
    have plain : ∀ ch ∈ raw, ch ≠ '<' ∧ ch ≠ '&' := clean
    refine if_neg ?_
    rintro ⟨_, escaped | tag⟩
    · have member : '&' ∈ raw := escaped.subset (by decide)
      exact (plain _ member).2 rfl
    · have trimmed : '<' ∈ trimUnicode raw := List.mem_of_mem_head? tag
      have member : '<' ∈ raw := by
        rw [trimUnicode, List.mem_reverse] at trimmed
        have inner := (List.dropWhile_suffix _).subset trimmed
        rw [List.mem_reverse] at inner
        exact (List.dropWhile_suffix _).subset inner
      exact (plain _ member).1 rfl
  | _ => rfl

/-- The state after something that may hold a child. -/
def meets (s : DetailSearch) (found : Bool) : DetailSearch :=
  { s with foundChildElement := s.foundChildElement || found }

theorem meets_meets (s : DetailSearch) (a b : Bool) : (s.meets a).meets b = s.meets (a || b) := by
  simp only [meets, Bool.or_assoc]

/-- Inside of a detail the search finds an element with content of its own. -/
theorem foldl_inside (undetailed : Undetailed c) (clean : c.AllData Data.Clean)
    (inside : s.inDetail = true) :
    c.events.foldl step s = s.meets (hasChild c) := by
  induction c generalizing s with
  | nil => simp [Content.events, hasChild, Content.elements, meets]
  | data d rest ih =>
    rw [Content.events, List.foldl_cons, step_clean clean.1]
    exact ih undetailed clean.2 inside
  | empty tag rest ih => exact ih undetailed.2 clean inside
  | element tag kids rest kidsIH restIH =>
    obtain ⟨other, inner, later⟩ := undetailed
    have start : s.step (.start tag.read) = s.meets true := by
      rw [step, if_neg (show localNameStr tag.read.name ≠ detailName from other), if_pos inside,
        meets, Bool.or_true]
    have found : hasChild (.element tag kids rest) = true := rfl
    simp only [Content.events, List.foldl_cons, List.foldl_append, start]
    rw [kidsIH inner clean.1 (show (s.meets true).inDetail = true from inside),
      step_close_other other, meets_meets,
      restIH later clean.2 (show (s.meets _).inDetail = true from inside), meets_meets, found]
    rfl

theorem foldl_around {tag : Tag} (other : localNameStr tag.name ≠ detailName)
    (outside : s.inDetail = false)
    (kids : Content) :
    (Content.element tag kids .nil).events.foldl step s = kids.events.foldl step s := by
  have start : s.step (.start tag.read) = s := by
    rw [step, if_neg (show localNameStr tag.read.name ≠ detailName from other),
      if_neg (by rw [outside]; decide)]
  simp only [Content.events, List.foldl_cons, List.foldl_append, start, List.foldl_nil]
  exact step_close_other other _

end DetailSearch

theorem layout_undetailed (version : SoapVersion) :
    ∀ tag ∈ (faultLayout version).outerTags ++
      ((faultLayout version).codeTags ++ (faultLayout version).reasonTags),
      localNameStr tag.name ≠ detailName := by
  cases version <;> decide +kernel

/-- In a fault the search comes to the detail as it started. -/
theorem searchDetail_fault {version : SoapVersion} {f : SoapFault} {c : Content} {text : Text}
    (reads : ext.xml.Reads text ((faultLayout version).frame.document
      (.element (faultLayout version).faultTag (((faultLayout version).head f).coalesce.append c) .nil))) :
    searchDetail ⟨false, false, false, false⟩ (ext.xml.events false text) =
      c.events.foldl DetailSearch.step ⟨false, false, false, false⟩ := by
  have outer (tag : Tag) (member : tag ∈ (faultLayout version).outerTags) :
      localNameStr tag.name ≠ detailName :=
    layout_undetailed version tag (List.mem_append_left _ member)
  have head : Undetailed ((faultLayout version).head f).coalesce :=
    (Content.coalesce_allTags _ _).mpr
      (FaultLayout.head_allTags
        (fun tag member => layout_undetailed version tag (List.mem_append_right _ member)) f)
  rw [reads, searchDetail_stream]
  rw [Frame.document, DetailSearch.foldl_around (outer _ (by simp [FaultLayout.outerTags])) rfl,
    DetailSearch.foldl_around (outer _ (by simp [FaultLayout.outerTags])) rfl,
    DetailSearch.foldl_around (outer _ (by simp [FaultLayout.outerTags])) rfl, Content.events_append,
      List.foldl_append,
    DetailSearch.foldl_outside head rfl]

theorem undetailed_absent {c : Content} (undetailed : Undetailed c) {reader : Reader} {text : Text}
    (scenarioName : Text)
    (search : searchDetail ⟨false, false, false, false⟩ (reader.events false text) =
      c.events.foldl DetailSearch.step ⟨false, false, false, false⟩) :
    (enforceRawXmlChildDetail reader text scenarioName).isSome := by
  rw [enforceRawXmlChildDetail, search, DetailSearch.foldl_outside undetailed rfl]
  rfl

/-- The detail of a SOAP 1.2 fault is in order exactly when it holds an element with content. -/
theorem detail_search_v12 {c : Content} (undetailed : Undetailed c) (clean : c.AllData Data.Clean)
    {reader : Reader}
    {text : Text} (scenarioName : Text)
    (search : searchDetail ⟨false, false, false, false⟩ (reader.events false text) =
      (Content.element FaultLayout.v12.detailTag c .nil).events.foldl DetailSearch.step
        ⟨false, false, false, false⟩) :
    enforceRawXmlChildDetail reader text scenarioName = none ↔ hasChild c = true := by
  have opened : DetailSearch.step ⟨false, false, false, false⟩ (.start FaultLayout.v12.detailTag.read) =
      ⟨true, false, false, true⟩ := rfl
  rw [enforceRawXmlChildDetail, search]
  simp only [Content.events, List.foldl_cons, List.foldl_append, List.foldl_nil, opened]
  rw [DetailSearch.foldl_inside undetailed clean rfl]
  cases hasChild c with
  | true => exact ⟨fun _ => rfl, fun _ => rfl⟩
  | false =>
    apply iff_of_false
    · intro absent
      cases absent
    · intro found
      cases found

/-- A fault as a document, around the detail it has. -/
def faultDocument (version : SoapVersion) (f : SoapFault) (detail : Content) : Content :=
  (faultLayout version).frame.document
    (.element (faultLayout version).faultTag (((faultLayout version).head f).coalesce.append detail) .nil)

theorem faultDocument_reads (lawful : ext.xml.Lawful) (compositional : ext.xml.Compositional)
    (escapes : ext.Escapes)
    {version : SoapVersion} {f : SoapFault} {c : Content}
    (reads : ext.xml.Reads (faultDetail ext f version) c)
    (shape : (faultDetail ext f version).head? = some '<' ∨ faultDetail ext f version = [] ∧ c = .nil) :
    ext.xml.Reads (f.toXmlBytesVersioned ext version) (faultDocument version f c) := by
  rw [Server.toXmlBytesVersioned_eq escapes]
  exact FaultLayout.text_reads lawful compositional version f reads shape

/-- Without an element of its own, the detail has no tag named so: it is text, and in SOAP 1.1 only. -/
theorem faultDetail_undetailed (lawful : ext.xml.Lawful) (escapes : ext.Escapes) {f : SoapFault}
    (none_ : f.detailXml = none)
    (version : SoapVersion) : ∃ c, ext.xml.Reads (faultDetail ext f version) c ∧
      ((faultDetail ext f version).head? = some '<' ∨ faultDetail ext f version = [] ∧ c = .nil) ∧
        Undetailed c := by
  have nothing : ext.xml.Reads [] .nil :=
    lawful.written .nil ⟨trivial, trivial, trivial⟩ (by simp [Content.write])
  rcases Server.faultDetail_cases escapes f version
      with ⟨_, empty⟩ | ⟨raw, given, _⟩ | ⟨text, _, shape⟩
  · rw [empty]
    exact ⟨.nil, nothing, .inr ⟨rfl, rfl⟩, trivial⟩
  · rw [none_] at given
    cases given
  · cases version with
    | soap12 =>
      have empty : faultDetail ext f .soap12 = [] := by simp only [faultDetail, none_]
      rw [empty]
      exact ⟨.nil, nothing, .inr ⟨rfl, rfl⟩, trivial⟩
    | soap11 =>
      obtain ⟨lexical, quotes⟩ := Server.detailTag_writable .soap11
      have written := lawful.written_tag
        (c := .element (faultLayout .soap11).detailTag (escapedData text .nil) .nil)
        ⟨⟨lexical, (escapedData_allTags _ _ _).mpr trivial, trivial⟩,
          ⟨quotes, (escapedData_allTags _ _ _).mpr trivial, trivial⟩, escapedData_lexical _ trivial,
            trivial⟩ rfl
      have undetailed : Undetailed
          (.element (faultLayout .soap11).detailTag (escapedData text .nil) .nil) :=
        ⟨by decide, (escapedData_allTags _ _ _).mpr trivial, trivial⟩
      refine ⟨_, ?_, .inl (by rw [shape]; rfl), (Content.coalesce_allTags _ _).mpr undetailed⟩
      rw [shape]
      simpa [Content.write, Tag.around] using written

theorem faultDetail_element (compositional : ext.xml.Compositional) (escapes : ext.Escapes)
    {f : SoapFault} {raw : Text}
    {c : Content} (given : f.detailXml = some raw) (content : IsContentText ext raw c)
    (version : SoapVersion) :
    ext.xml.Reads (faultDetail ext f version) (.element (faultLayout version).detailTag c .nil) ∧
      (faultDetail ext f version).head? = some '<' := by
  rcases Server.faultDetail_cases escapes f version
      with ⟨none_, _⟩ | ⟨raw', given', shape⟩ | ⟨_, none_, _⟩
  · rw [none_] at given
    cases given
  · obtain rfl := Option.some.inj (given.symm.trans given')
    obtain ⟨lexical, quotes⟩ := Server.detailTag_writable version
    rw [shape]
    exact ⟨compositional.rewrapped _ _ raw c (by decide +kernel)
      (by decide +kernel) lexical quotes content.reads, rfl⟩
  · rw [none_] at given
    cases given

/-- What the harness asserts of a fault is what the fault says. The code passes exactly when it is
declared, as the version names it; the detail passes exactly in SOAP 1.2 and with an element that has
content. -/
theorem fault_assertions_exact (lawful : ext.xml.Lawful) (compositional : ext.xml.Compositional)
    (escapes : ext.Escapes)
    (f : SoapFault) (version : SoapVersion) (well : HandlerResult ext (.error f))
    (declaredCode scenarioName : Text) :
    (enforceFaultCode ext.xml (f.toXmlBytesVersioned ext version) declaredCode scenarioName
      (version = .soap11) =
      if faultClass version f.code = declaredCode then none
      else some (codeMismatch scenarioName ((faultLayout version).code f.code) declaredCode)) ∧
    (f.detailXml = none →
      (enforceRawXmlChildDetail ext.xml (f.toXmlBytesVersioned ext version) scenarioName).isSome) ∧
    ∀ raw c, f.detailXml = some raw → IsContentText ext raw c → Undetailed c →
      (enforceRawXmlChildDetail ext.xml (f.toXmlBytesVersioned ext version) scenarioName = none ↔
        version = .soap12 ∧ ∃ el ∈ c.elements, el.kids.isSome) := by
  obtain ⟨detail, detailReads, shape, _⟩ :=
    Server.faultDetail_reads lawful compositional escapes f version well
  have reads := faultDocument_reads lawful compositional escapes detailReads shape
  refine ⟨?_, fun none_ => ?_, fun raw c given content undetailed => ?_⟩
  · have found := findFaultCode_head version f detail
    rw [enforceFaultCode, lawful.trims _ _ reads]
    rw [faultDocument, found]
    rfl
  · obtain ⟨c, detailReads, shape, undetailed⟩ :=
      faultDetail_undetailed lawful escapes none_ version
    have reads := faultDocument_reads lawful compositional escapes detailReads shape
    exact undetailed_absent undetailed scenarioName (searchDetail_fault reads)
  · obtain ⟨detailReads, markup⟩ := faultDetail_element compositional escapes given content version
    have search := searchDetail_fault
      (faultDocument_reads lawful compositional escapes detailReads (.inl markup))
    cases version with
    | soap11 =>
      -- SOAP 1.1 writes the detail under a name that the search does not ask for
      have whole : Undetailed (.element (faultLayout .soap11).detailTag c .nil) :=
        ⟨by decide, undetailed, trivial⟩
      have absent := undetailed_absent whole scenarioName search
      refine ⟨fun passed => ?_, fun both => by cases both.1⟩
      rw [passed] at absent
      cases absent
    | soap12 =>
      rw [detail_search_v12 undetailed content.data scenarioName search, hasChild, List.any_eq_true]
      exact (and_iff_right rfl).symm

/-! The fault of the handler `Faulty`. -/

def faultyHandler : SoapFault :=
  { SoapFault.sender "operation failed".toList with
    detailXml := some ("<c:ErrorInfo xmlns:c=\"http://crossref.example/controlled\">".toList ++
      "<c:Field>missing-text</c:Field></c:ErrorInfo>".toList) }

def errorInfo : Content :=
  .element ⟨"c:ErrorInfo".toList, [⟨"xmlns:c".toList, "http://crossref.example/controlled".toList⟩]⟩
    (.element ⟨"c:Field".toList, []⟩ (.data (.text "missing-text".toList) .nil) .nil) .nil

theorem errorInfo_content : ∃ raw, faultyHandler.detailXml = some raw ∧
    IsContentText .scanning raw errorInfo := by
  refine ⟨_, rfl, ?_, by decide +kernel, by decide +kernel, Scope.initial, ?_⟩
  · show Reader.events _ _ _ = _
    decide +kernel
  · decide +kernel

theorem faultyHandler_asserted :
    enforceFaultCode Markup.scanner (faultyHandler.toXmlBytesVersioned .scanning .soap12)
      "Sender".toList "raw_xml_child".toList
        false = none ∧
      enforceRawXmlChildDetail Markup.scanner (faultyHandler.toXmlBytesVersioned .scanning .soap12)
        "raw_xml_child".toList = none := by
  obtain ⟨raw, given, content⟩ := errorInfo_content
  have well : HandlerResult .scanning (.error faultyHandler) := fun other same =>
    ⟨errorInfo, Option.some.inj (given.symm.trans same) ▸ content⟩
  obtain ⟨code, _, detail⟩ := fault_assertions_exact Externals.scanning_lawful Markup.scanner_compositional
    Externals.scanning_escapes faultyHandler .soap12 well "Sender".toList "raw_xml_child".toList
  refine ⟨code.trans (if_pos (by decide)), ?_⟩
  exact (detail raw errorInfo given content (by decide)).mpr ⟨rfl, _, .head _, rfl⟩

end SoapServer.Crossref
