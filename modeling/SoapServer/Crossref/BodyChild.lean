import SoapServer.Crossref.FaultAssertions

/-! The element that the harness takes out of a response to validate it.

It is copied tag by tag, with its texts and nothing else between them.
-/

set_option autoImplicit false

namespace SoapServer.Crossref

open Markup hiding localName

structure ChildSearch where
  inBody : Bool
  collecting : Bool
  depth : Nat
  out : Text

/-- A tag as it is copied: attributes the iterator fails on are left out. -/
def copiedTag (empty : Bool) (tag : ReadTag) : Text :=
  tagSource empty ⟨tag.name, tag.attributes.reduceOption⟩

/-- The loop of the extraction. It ends without a child at the first error. -/
def searchChild : ChildSearch → List (Except Text Event) → Option Text
  | _, [] => none
  | _, .error _ :: _ => none
  | s, .ok (.start tag) :: rest =>
    if !s.inBody then searchChild (if localName tag = "Body".toList then { s with inBody := true }
      else s) rest
    else if !s.collecting then
      searchChild { s with collecting := true, depth := 1, out := copiedTag false tag } rest
    else searchChild { s with depth := s.depth + 1, out := s.out ++ copiedTag false tag } rest
  | s, .ok (.empty tag) :: rest =>
    if s.inBody ∧ !s.collecting then some (copiedTag true tag)
    else if s.collecting then searchChild { s with out := s.out ++ copiedTag true tag } rest
    else searchChild s rest
  | s, .ok (.close name) :: rest =>
    if s.collecting then
      if s.depth = 1 then some (s.out ++ closeTag name)
      else searchChild { s with depth := s.depth - 1, out := s.out ++ closeTag name } rest
    else searchChild s rest
  | s, .ok (.data (.text raw)) :: rest => searchChild
      (if s.collecting then { s with out := s.out ++ raw } else s) rest
  -- references too are left out
  | s, .ok (.data _) :: rest => searchChild s rest

def extractBodyChild (reader : Reader) (envelope : Text) : Option Text :=
  searchChild ⟨false, false, 0, []⟩ (reader.events false envelope)

/-- The content with texts between its tags and nothing else. -/
def textOnly : Content → Content
  | .nil => .nil
  | .data (.text raw) rest => .data (.text raw) (textOnly rest)
  | .data _ rest => textOnly rest
  | .empty tag rest => .empty tag (textOnly rest)
  | .element tag kids rest => .element tag (textOnly kids) (textOnly rest)

def textOnlyElement (el : Element) : Element := ⟨el.tag, el.kids.map textOnly⟩

theorem copiedTag_read {tag : Tag} (unique : tag.Unique) (empty : Bool) :
    copiedTag empty tag.read = tagSource empty tag := by
  rw [copiedTag, Tag.read_of_unique unique, reduceOption_some]

/-! The steps of the loop while a child is copied. -/

section Copying

variable {depth : Nat} {out : Text} {more : List (Except Text Event)}

theorem searchChild_start (tag : ReadTag) :
    searchChild ⟨true, true, depth, out⟩ (.ok (.start tag) :: more) =
      searchChild ⟨true, true, depth + 1, out ++ copiedTag false tag⟩ more := rfl

theorem searchChild_empty (tag : ReadTag) :
    searchChild ⟨true, true, depth, out⟩ (.ok (.empty tag) :: more) =
      searchChild ⟨true, true, depth, out ++ copiedTag true tag⟩ more := by
  rw [searchChild, if_neg (fun fresh => by cases fresh.2), if_pos rfl]

theorem searchChild_close (name : Text) :
    searchChild ⟨true, true, depth + 2, out⟩ (.ok (.close name) :: more) =
      searchChild ⟨true, true, depth + 1, out ++ closeTag name⟩ more := by
  rw [searchChild, if_pos rfl, if_neg (show depth + 2 ≠ 1 by omega)]
  rfl

/-- Content is copied at the depth it is met. -/
theorem searchChild_content {c : Content} (unique : c.AllTags Tag.Unique) :
    searchChild ⟨true, true, depth + 1, out⟩ (stream c.events ++ more) =
      searchChild ⟨true, true, depth + 1, out ++ (textOnly c).write⟩ more := by
  induction c generalizing depth out more with
  | nil => simp [Content.events, textOnly, Content.write]
  | data d rest ih =>
    cases d with
    | text raw =>
      have step : searchChild ⟨true, true, depth + 1, out ++ raw⟩ (stream rest.events ++ more) = _ :=
        ih unique
      rw [List.append_assoc] at step
      exact step
    | _ => exact ih unique
  | empty tag rest ih =>
    simp only [Content.events, stream_cons, List.cons_append, textOnly, Content.write]
    rw [searchChild_empty, copiedTag_read unique.1, ih unique.2]
    simp only [tagSource, emptyText, if_true, List.append_assoc, List.cons_append, List.nil_append]
  | element tag kids rest kidsIH restIH =>
    simp only [Content.events, stream_cons, stream_append, List.cons_append, List.append_assoc,
      textOnly, Content.write]
    rw [searchChild_start, copiedTag_read unique.1, kidsIH unique.2.1, searchChild_close,
      restIH unique.2.2]
    simp only [tagSource, startText, Bool.false_eq_true, if_false, List.append_assoc,
      List.cons_append, List.nil_append]

end Copying

/-! The child. -/

variable {reader : Reader} {more : List (Except Text Event)}

/-- Before the child there may be anything but elements. -/
theorem searchChild_first {c : Content} {el : Element} (first : c.elements.head? = some el)
    (unique : c.AllTags Tag.Unique) :
    searchChild ⟨true, false, 0, []⟩ (stream c.events ++ more) =
      some (textOnlyElement el).alone.write := by
  induction c with
  | nil => cases first
  | data d rest ih =>
    have skipped := ih first unique
    cases d <;> exact skipped
  | empty tag rest ih =>
    obtain rfl := Option.some.inj first
    have step : searchChild ⟨true, false, 0, []⟩ (.ok (.empty tag.read) :: (stream rest.events ++ more)) =
        some (copiedTag true tag.read) := rfl
    rw [Content.events, stream_cons, List.cons_append, step, copiedTag_read unique.1]
    simp [tagSource, emptyText, textOnlyElement, Element.alone, Content.write]
  | element tag kids rest =>
    obtain rfl := Option.some.inj first
    have opened (later : List (Except Text Event)) :
      searchChild ⟨true, false, 0, []⟩ (.ok (.start tag.read) :: later) =
        searchChild ⟨true, true, 1, copiedTag false tag.read⟩ later := rfl
    have closed (out name : Text) (later : List (Except Text Event)) :
        searchChild ⟨true, true, 1, out⟩ (.ok (.close name) :: later) = some (out ++ closeTag name) := rfl
    simp only [Content.events, stream_cons, stream_append, List.cons_append, List.append_assoc]
    rw [opened, copiedTag_read unique.1, searchChild_content unique.2.1, closed]
    simp [tagSource, startText, textOnlyElement, Element.alone, Content.write]

theorem textOnly_names (c : Content) (scope : Scope) :
    (textOnly c).names scope = c.names scope := by
  induction c generalizing scope with
  | nil => rfl
  | data d rest ih => cases d <;> exact ih scope
  | empty tag rest ih => simp only [textOnly, Content.names, ih]
  | element tag kids rest kidsIH restIH => simp only [textOnly, Content.names, kidsIH, restIH]

theorem textOnly_allTags (P : Tag → Prop) (c : Content) : (textOnly c).AllTags P ↔ c.AllTags P := by
  induction c with
  | nil => rfl
  | data d rest ih => cases d <;> exact ih
  | empty tag rest ih => simp only [textOnly, Content.AllTags, ih]
  | element tag kids rest kidsIH restIH => simp only [textOnly, Content.AllTags, kidsIH, restIH]

theorem textOnly_lexical {c : Content} (clean : c.AllData Data.Clean) :
    (textOnly c).AllData Data.Lexical := by
  induction c with
  | nil => trivial
  | data d rest ih =>
    cases d with
    | text raw => exact ⟨clean.1, ih clean.2⟩
    | _ => exact ih clean.2
  | empty tag rest ih => exact ih clean
  | element tag kids rest kidsIH restIH => exact ⟨kidsIH clean.1, restIH clean.2⟩

theorem textOnlyElement_alone (el : Element) : (textOnlyElement el).alone = textOnly el.alone := by
  rcases el with ⟨tag, _ | kids⟩ <;> rfl

variable {ext : Externals}

/-- The search passes the start tags of an envelope. -/
theorem searchChild_document (frame : Server.Frame) (c : Content) :
    searchChild ⟨false, false, 0, []⟩ (stream (frame.document c).events) =
      searchChild ⟨true, false, 0, []⟩ (stream c.events ++
        stream [.close (frame.part "Body".toList).name, .close frame.root.name]) := by
  have root : ¬ localName frame.root.read = "Body".toList := by
    cases frame with
    | env version => cases version <;> decide
    | soapEnv => decide
  have body : localName (frame.part "Body".toList).read = "Body".toList := by
    cases frame with
    | env version => cases version <;> decide
    | soapEnv => decide
  simp only [Server.Frame.document, Content.events, stream_cons, stream_append, stream_nil,
    List.cons_append, List.append_assoc, List.nil_append]
  rw [searchChild, if_pos (by decide), if_neg root, searchChild, if_pos (by decide), if_pos body]

/-- What the harness validates of a response is the element of the handler: a document of its own, with the
elements and attributes under their names, though without references and comments between them. -/
theorem served_child_stands_alone (lawful : ext.xml.Lawful) (compositional : ext.xml.Compositional)
    {bytes : Text}
    {el : Element} (text : Server.IsElementText ext bytes el)
    (quotes : el.alone.AllTags Tag.QuoteFree) (version : SoapVersion) :
    ∃ child, extractBodyChild ext.xml (serializeEnvelope bytes version) = some child ∧
      child = (textOnly el.alone).write ∧ Envelope.StandsAlone ext child Scope.initial el := by
  have unique := text.sound.namespaces.unique
  have starts : el.alone.elements.head? = some el := by rcases el with ⟨tag, _ | kids⟩ <;> rfl
  have reads := Server.Frame.document_reads compositional (.env version) text.markup text.reads
  have extracted : extractBodyChild ext.xml (serializeEnvelope bytes version) =
      some (textOnly el.alone).write := by
    rw [extractBodyChild, Server.serializeEnvelope_eq, reads,
      searchChild_document, ← textOnlyElement_alone]
    exact searchChild_first starts unique
  refine ⟨_, extracted, rfl, ⟨el.tag, el.kids.map fun kids => (textOnly kids).coalesce⟩, ?_, ?_, ?_⟩
  · have written := lawful.written_tag (c := textOnly el.alone) ⟨(textOnly_allTags _ _).mpr text.sound.lexical,
      (textOnly_allTags _ _).mpr quotes, textOnly_lexical text.sound.data⟩ (by rcases el with ⟨tag, _ | kids⟩ <;> rfl)
    rcases el with ⟨tag, _ | kids⟩ <;> exact written
  · exact (Envelope.alone_allTags.mp unique).1
  · rcases el with ⟨tag, _ | kids⟩
    · rfl
    · simp only [Option.map_some, Element.alone, Content.names, Content.names_coalesce,
        textOnly_names]

def note : Element :=
  ⟨⟨"c:Note".toList, [⟨"xmlns:c".toList, "urn:n".toList⟩]⟩, some (.data (.text "a".toList)
    (.empty ⟨"c:Sub".toList, []⟩ (.data (.generalRef "amp".toList) .nil)))⟩

def noteBytes : Text := "<c:Note xmlns:c=\"urn:n\">a<c:Sub/>&amp;</c:Note>".toList

theorem noteBytes_element : Server.IsElementText .scanning noteBytes note where
  markup := rfl
  reads := by
    show Reader.events _ _ _ = _
    decide +kernel
  sound := by decide +kernel

theorem note_child_stands_alone :
    ∃ child, extractBodyChild Externals.scanning.xml (serializeEnvelope noteBytes .soap11) = some child ∧
      child = (textOnly note.alone).write ∧ Envelope.StandsAlone .scanning child Scope.initial note :=
  served_child_stands_alone Externals.scanning_lawful Markup.scanner_compositional noteBytes_element
    (by decide +kernel) .soap11

end SoapServer.Crossref
