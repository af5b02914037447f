import SoapServer.Wsdl.ServiceAddress

/-! The text that is served for one service, as a document: in the ports of the service every
address has the new location. -/

set_option autoImplicit false

namespace SoapServer.Wsdl

open Markup

variable {serviceName : Text} {events : List RawEvent} {c : Content}

/-! The second pass on a forest. -/

variable {ext : Externals} {u : Text} {names : List Text} {st : PortMatch}

def PortMatch.run (names : List Text) (st : PortMatch) (events : List RawEvent) : PortMatch :=
  events.foldl (PortMatch.step names) st

/-- What the second pass writes. -/
def PortMatch.written (ext : Externals) (u : Text) (names : List Text) :
    PortMatch → List RawEvent → Text
  | _, [] => []
  | st, event :: rest => st.writeEvent ext u event ++ (st.step names event).written ext u names rest

theorem rewritePorts_stream (ext : Externals) (u : Text) (names : List Text) (st : PortMatch)
    (events : List RawEvent) :
    rewritePorts ext u names st (stream events) = st.written ext u names events := by
  induction events generalizing st with
  | nil => rfl
  | cons event rest ih => exact congrArg (st.writeEvent ext u event ++ ·) (ih (st.step names event))

theorem written_append (st : PortMatch) (a b : List RawEvent) :
    st.written ext u names (a ++ b) = st.written ext u names a ++ (st.run names a).written ext u names b := by
  induction a generalizing st with
  | nil => rfl
  | cons event rest ih =>
    rw [List.cons_append, PortMatch.written, PortMatch.written, ih, List.append_assoc]
    rfl

theorem writeEvent_close (st : PortMatch) (name space : Text) :
    st.writeEvent ext u (.close name space) = closeTag name := by
  unfold PortMatch.writeEvent
  split <;> rfl

theorem writeEvent_data (st : PortMatch) (d : Data) : st.writeEvent ext u (.data d) = d.write := by
  unfold PortMatch.writeEvent
  split <;> rfl

theorem writeEvent_start (body : Text) {tag : Tag} (unique : tag.Unique) :
    st.writeEvent ext u (.start body tag.read) =
      startText (if st.inMatchedPort = true then writtenBody ext u body tag else body) := by
  unfold PortMatch.writeEvent
  rw [rewriteEvent_start ext body unique]
  split <;> rfl

theorem writeEvent_empty (body : Text) {tag : Tag} (unique : tag.Unique) :
    st.writeEvent ext u (.empty body tag.read) =
      emptyText (if st.inMatchedPort = true then writtenBody ext u body tag else body) := by
  unfold PortMatch.writeEvent
  rw [rewriteEvent_empty ext body unique]
  split <;> rfl

/-- What the pass makes of an element: of its tags, and of what stands between them. -/
theorem written_element (st : PortMatch) (body space : Text) (tag : Tag)
    (inside rest : List RawEvent) :
    st.written ext u names (.start body tag.read :: (inside ++ .close tag.name space :: rest)) =
      st.writeEvent ext u (.start body tag.read) ++
        ((st.step names (.start body tag.read)).written ext u names inside ++ (closeTag tag.name ++
          (((st.step names (.start body tag.read)).run names inside).step names (.close tag.name space)).written
            ext u names rest)) := by
  rw [PortMatch.written, written_append, PortMatch.written, writeEvent_close]

theorem run_element (st : PortMatch) (body space : Text) (tag : Tag) (inside rest : List RawEvent) :
    st.run names (.start body tag.read :: (inside ++ .close tag.name space :: rest)) =
      (((st.step names (.start body tag.read)).run names inside).step names (.close tag.name space)).run names rest := by
  simp only [PortMatch.run, List.foldl_cons, List.foldl_append]

/-- Around an element that is no matched port the state comes back. -/
theorem step_element (body space : Text) {tag : Tag} (unnamed : ¬ NamedPort names tag)
    (deep : st.inMatchedPort = true → 1 ≤ st.portDepth) :
    ∃ inner, st.step names (.start body tag.read) = inner ∧ inner.inMatchedPort = st.inMatchedPort ∧
      (inner.inMatchedPort = true → 1 ≤ inner.portDepth) ∧ inner.step names (.close tag.name space) = st := by
  have start : st.step names (.start body tag.read) =
      if st.inMatchedPort then { st with portDepth := st.portDepth + 1 } else st := if_neg unnamed
  obtain ⟨isMatched, depth⟩ := st
  cases isMatched with
  | false => exact ⟨_, start, rfl, nofun, rfl⟩
  | true =>
    have deep : 1 ≤ depth := deep rfl
    refine ⟨_, start, rfl, fun _ => show 1 ≤ depth + 1 by omega, ?_⟩
    have isOpen : ¬ depth ≤ 0 := by omega
    simp only [PortMatch.step, if_true, Int.add_sub_cancel, if_neg isOpen]

/-- Where no port is matched the state comes back, and all events are written alike. -/
theorem written_unnamed (ext : Externals) (u : Text) (denotes : Denotes events c)
    (unnamed : c.AllTags fun tag => ¬ NamedPort names tag) (st : PortMatch)
    (deep : st.inMatchedPort = true → 1 ≤ st.portDepth) :
    st.run names events = st ∧ st.written ext u names events = events.flatMap (st.writeEvent ext u) := by
  induction denotes generalizing st with
  | nil => exact ⟨rfl, rfl⟩
  | @data d events c _ _ ih =>
    obtain ⟨run, written⟩ := ih unnamed st deep
    exact ⟨run, congrArg (st.writeEvent ext u (.data d) ++ ·) written⟩
  | @empty body tag events c _ _ ih =>
    have step : st.step names (.empty body tag.read) = st := if_neg unnamed.1
    obtain ⟨run, written⟩ := ih unnamed.2 st deep
    refine ⟨by rw [PortMatch.run, List.foldl_cons, step]; exact run, ?_⟩
    rw [PortMatch.written, step, written, List.flatMap_cons]
  | @element body space tag inside events kids c _ _ _ _ innerIH moreIH =>
    obtain ⟨inner, start, sameInside, innerDeep, close⟩ := step_element body space unnamed.1 deep
    obtain ⟨innerRun, innerWritten⟩ := innerIH unnamed.2.1 inner innerDeep
    obtain ⟨run, written⟩ := moreIH unnamed.2.2 st deep
    have alike : inner.writeEvent ext u = st.writeEvent ext u := by
      funext event
      unfold PortMatch.writeEvent
      rw [sameInside]
    rw [run_element, written_element, start, innerRun, close, innerWritten, run, written, alike]
    refine ⟨rfl, ?_⟩
    rw [List.flatMap_cons, List.flatMap_append, List.flatMap_cons, writeEvent_close]

/-! What is written, as a forest. -/

def rebuildTag (raw : Text) (tag : Tag) : Tag :=
  if localName tag.name = address then tag.setValue location raw else tag

/-- All addresses with the new location. -/
def rebuild (raw : Text) : Content → Content
  | .nil => .nil
  | .data d rest => .data d (rebuild raw rest)
  | .empty tag rest => .empty (rebuildTag raw tag) (rebuild raw rest)
  | .element tag kids rest => .element (rebuildTag raw tag) (rebuild raw kids) (rebuild raw rest)

/-- The children of the service; `open_` says that an empty port stands before, and no end
tag since then. -/
def serveChildren (raw : Text) : Bool → Content → Content
  | _, .nil => .nil
  | open_, .data d rest => .data d (serveChildren raw open_ rest)
  | open_, .empty tag rest =>
    if localName tag.name = port then .empty tag (serveChildren raw true rest)
    else .empty (if open_ then rebuildTag raw tag else tag) (serveChildren raw open_ rest)
  | open_, .element tag kids rest =>
    if localName tag.name = port then .element tag (rebuild raw kids) (serveChildren raw false rest)
    else if open_ then .element (rebuildTag raw tag) (rebuild raw kids) (serveChildren raw false rest)
    else .element tag kids (serveChildren raw false rest)

/-- The children of the root. -/
def serveSections (raw serviceName : Text) : Content → Content
  | .nil => .nil
  | .data d rest => .data d (serveSections raw serviceName rest)
  | .empty tag rest => .empty tag (serveSections raw serviceName rest)
  | .element tag kids rest =>
    .element tag (if NamedService serviceName tag then serveChildren raw false kids else kids)
      (serveSections raw serviceName rest)

theorem port_ne_address : port ≠ address := by decide

theorem service_ne_port : service ≠ port := by decide

/-- The text of a rebuilt tag is one of its tag. -/
theorem tagText_rebuilt {body : Text} {tag : Tag} (text : TagText body tag)
    (rebuildable : Rebuildable tag) (noTag : '<' ∉ ext.escape u) (noQuote : '"' ∉ ext.escape u) :
    TagText (writtenBody ext u body tag) (rebuildTag (ext.escape u) tag) := by
  unfold writtenBody rebuildTag
  by_cases called : localName tag.name = address
  · rw [if_pos called, if_pos called]
    exact tagText_of_quoteFree (setValue_lexical (tagText_lexical text) noTag)
      ((setValue_quoteFree_iff noQuote).mpr (rebuildable called)) (Tree.unique_setValue text.unique)
  · rw [if_neg called, if_neg called]
    exact text

theorem rebuildTag_name (raw : Text) (tag : Tag) : (rebuildTag raw tag).name = tag.name := by
  unfold rebuildTag
  split <;> rfl

section

variable (noTag : '<' ∉ ext.escape u) (noQuote : '"' ∉ ext.escape u)
include noTag noQuote

theorem rewritten_denotes (denotes : Denotes events c) (rebuildable : c.AllTags Rebuildable) :
    ∃ events', events'.flatMap RawEvent.source = events.flatMap (rewriteEvent ext u) ∧
      Denotes events' (rebuild (ext.escape u) c) := by
  induction denotes with
  | nil => exact ⟨[], rfl, .nil⟩
  | @data d events c clean _ ih =>
    obtain ⟨events', text, denotes⟩ := ih rebuildable
    exact ⟨.data d :: events', congrArg (d.write ++ ·) text, .data clean denotes⟩
  | @empty body tag events c text _ ih =>
    obtain ⟨events', rest, denotes⟩ := ih rebuildable.2
    refine ⟨_, ?_, .empty (tagText_rebuilt text rebuildable.1 noTag noQuote) denotes⟩
    rw [List.flatMap_cons, List.flatMap_cons, rewriteEvent_empty ext body text.unique, rest]
    rfl
  | @element body space tag inside events kids c text blank _ _ innerIH moreIH =>
    obtain ⟨inside', innerText, inner⟩ := innerIH rebuildable.2.1
    obtain ⟨events', rest, denotes⟩ := moreIH rebuildable.2.2
    refine ⟨_, ?_, .element (tagText_rebuilt text rebuildable.1 noTag noQuote) blank_nil inner denotes⟩
    simp only [List.flatMap_cons, List.flatMap_append, rewriteEvent_start ext body text.unique,
      innerText, rest, rebuildTag_name, RawEvent.source, List.append_nil]
    rfl

/-- In a matched port. -/
theorem written_matched (denotes : Denotes events c)
    (unnamed : c.AllTags fun tag => ¬ NamedPort names tag) (rebuildable : c.AllTags Rebuildable) :
    PortMatch.run names ⟨true, 1⟩ events = ⟨true, 1⟩ ∧
      ∃ events', PortMatch.written ext u names ⟨true, 1⟩ events = events'.flatMap RawEvent.source ∧
        Denotes events' (rebuild (ext.escape u) c) := by
  obtain ⟨run, written⟩ := written_unnamed ext u denotes unnamed ⟨true, 1⟩ (fun _ => Int.le_refl 1)
  obtain ⟨events', text, rebuilt⟩ := rewritten_denotes noTag noQuote denotes rebuildable
  exact ⟨run, events', written.trans text.symm, rebuilt⟩

omit noTag noQuote in
/-- Outside of the matched ports. -/
theorem written_outside (ext : Externals) (u : Text) (denotes : Denotes events c)
    (unnamed : c.AllTags fun tag => ¬ NamedPort names tag) :
    PortMatch.initial.run names events = .initial ∧
      PortMatch.initial.written ext u names events = (events.map RawEvent.tidy).flatMap RawEvent.source := by
  obtain ⟨run, written⟩ := written_unnamed ext u denotes unnamed .initial nofun
  refine ⟨run, ?_⟩
  rw [written, List.flatMap_map]
  exact List.flatMap_congr fun event _ => (RawEvent.tidy_source event).symm

/-- The state between the children of the service. -/
def PortMatch.pending (open_ : Bool) : PortMatch := if open_ then ⟨true, 0⟩ else .initial

omit noTag noQuote in
theorem pending_inMatchedPort (open_ : Bool) : (PortMatch.pending open_).inMatchedPort = open_ := by
  cases open_ <;> rfl

omit noTag noQuote in
theorem writtenBody_port {body : Text} {tag : Tag} (called : localName tag.name = port) :
    writtenBody ext u body tag = body :=
  if_neg (called ▸ port_ne_address)

/-- The children of the service are written as they should be. -/
theorem written_service (denotes : Denotes events c) (fit : PortsFit names c)
    (among : ∀ n ∈ portNames c, n ∈ names) (open_ : Bool) (rebuildable : PortsRebuildable open_ c) :
    ∃ open' events', (PortMatch.pending open_).run names events = .pending open' ∧
      (PortMatch.pending open_).written ext u names events = events'.flatMap RawEvent.source ∧
      Denotes events' (serveChildren (ext.escape u) open_ c) := by
  induction denotes generalizing open_ with
  | nil => exact ⟨open_, [], rfl, rfl, .nil⟩
  | @data d events c clean _ ih =>
    obtain ⟨open', events', run, written, denotes⟩ := ih fit among open_ rebuildable
    refine ⟨open', .data d :: events', run, ?_, .data clean denotes⟩
    rw [PortMatch.written, writeEvent_data, List.flatMap_cons]
    exact congrArg (d.write ++ ·) written
  | @empty body tag events c text _ ih =>
    have later : ∀ n ∈ portNames c, n ∈ names :=
      fun n member => among n (List.mem_append_right _ member)
    rw [PortMatch.written, writeEvent_empty body text.unique, pending_inMatchedPort]
    by_cases called : localName tag.name = port
    · -- an empty port stays open: it has no end tag to close it
      have matched : NamedPort names tag :=
        ⟨called, among _ (List.mem_append_left _ (by simp [portName, called, fit.1 called]))⟩
      have step : (PortMatch.pending open_).step names (.empty body tag.read) = .pending true :=
        if_pos matched
      rw [PortsRebuildable, if_pos called] at rebuildable
      obtain ⟨open', events', run, written, denotes⟩ := ih fit.2 later true rebuildable
      refine ⟨open', .empty body tag.read :: events', ?_, ?_, ?_⟩
      · rw [PortMatch.run, List.foldl_cons, step]
        exact run
      · rw [step, written, writtenBody_port called, ite_self]
        rfl
      · rw [serveChildren, if_pos called]
        exact .empty text denotes
    · -- any other empty tag is rewritten only behind an empty port
      have unmatched : ¬ NamedPort names tag := fun named => called named.1
      have step : (PortMatch.pending open_).step names (.empty body tag.read) = .pending open_ :=
        if_neg unmatched
      rw [PortsRebuildable, if_neg called] at rebuildable
      obtain ⟨open', events', run, written, denotes⟩ := ih fit.2 later open_ rebuildable.2
      have rebuilt : TagText (if open_ = true then writtenBody ext u body tag else body)
          (if open_ = true then rebuildTag (ext.escape u) tag else tag) := by
        split
        next isOpen => exact tagText_rebuilt text (rebuildable.1 isOpen) noTag noQuote
        next => exact text
      have whole := Denotes.empty rebuilt denotes
      refine ⟨open', _, ?_, ?_, (by rwa [serveChildren, if_neg called])⟩
      · rw [PortMatch.run, List.foldl_cons, step]
        exact run
      · rw [step, written]
        rfl
  | @element body space tag inside events kids c text blank inner _ _ moreIH =>
    have later : ∀ n ∈ portNames c, n ∈ names :=
      fun n member => among n (List.mem_append_right _ member)
    obtain ⟨inPort, ownTag, behind⟩ := rebuildable
    obtain ⟨open', events', run, written, denotes⟩ := moreIH fit.2.2 later false behind
    rw [run_element, written_element, writeEvent_start body text.unique, pending_inMatchedPort]
    by_cases called : localName tag.name = port
    · have matched : NamedPort names tag :=
        ⟨called, among _ (List.mem_append_left _ (by simp [portName, called, fit.1 called]))⟩
      -- the end tag of the port closes it, so that what follows is outside
      obtain ⟨matchedRun, inside', matchedWritten, matchedDenotes⟩ :=
        written_matched noTag noQuote inner fit.2.1 (inPort (.inl called))
      have start : (PortMatch.pending open_).step names (.start body tag.read) = ⟨true, 1⟩ :=
        if_pos matched
      have close : PortMatch.step names ⟨true, 1⟩ (.close tag.name space) = .pending false := rfl
      rw [start, matchedRun, close, matchedWritten, written, writtenBody_port called, ite_self]
      refine ⟨open', .start body tag.read :: (inside' ++ .close tag.name [] :: events'), run, ?_,
        ?_⟩
      · simp only [List.flatMap_cons, List.flatMap_append, RawEvent.source, List.append_nil]
      · rw [serveChildren, if_pos called]
        exact .element text blank_nil matchedDenotes denotes
    · have unmatched : ¬ NamedPort names tag := fun named => called named.1
      cases open_ with
      -- behind an empty port the element is taken for its content
      | true =>
        obtain ⟨matchedRun, inside', matchedWritten, matchedDenotes⟩ :=
          written_matched noTag noQuote inner fit.2.1 (inPort (.inr rfl))
        have start : (PortMatch.pending true).step names (.start body tag.read) = ⟨true, 1⟩ :=
          if_neg unmatched
        have close : PortMatch.step names ⟨true, 1⟩ (.close tag.name space) = .pending false := rfl
        rw [start, matchedRun, close, matchedWritten, written, if_pos rfl]
        refine ⟨open', .start (writtenBody ext u body tag) (rebuildTag (ext.escape u) tag).read ::
          (inside' ++ .close (rebuildTag (ext.escape u) tag).name [] :: events'), run, ?_, ?_⟩
        · simp only [List.flatMap_cons, List.flatMap_append, RawEvent.source, List.append_nil,
            rebuildTag_name]
        · rw [serveChildren, if_neg called, if_pos rfl]
          exact .element (tagText_rebuilt text (ownTag called rfl) noTag noQuote) blank_nil matchedDenotes denotes
      | false =>
        obtain ⟨outsideRun, outsideWritten⟩ := written_outside ext u inner fit.2.1
        have start : (PortMatch.pending false).step names (.start body tag.read) = .initial :=
          if_neg unmatched
        have close : PortMatch.initial.step names (.close tag.name space) = .pending false := rfl
        rw [start, outsideRun, close, outsideWritten, written, if_neg Bool.false_ne_true]
        refine ⟨open', .start body tag.read :: (inside.map RawEvent.tidy ++ .close tag.name [] :: events'), run, ?_, ?_⟩
        · simp only [List.flatMap_cons, List.flatMap_append, RawEvent.source, List.append_nil]
        · rw [serveChildren, if_neg called, if_neg Bool.false_ne_true]
          exact .element text blank_nil (denotes_tidy inner) denotes

/-- The children of the root are written as they should be. -/
theorem written_sections {deref : Text → Option Text} {inherited : Tree.Namespaces}
    (denotes : Denotes events c) (fit : SectionsFit deref serviceName names inherited c)
    (among : ∀ n ∈ servicePortNames serviceName c, n ∈ names) :
    PortMatch.initial.run names events = .initial ∧
      ∃ events', PortMatch.initial.written ext u names events = events'.flatMap RawEvent.source ∧
        Denotes events' (serveSections (ext.escape u) serviceName c) := by
  induction denotes with
  | nil => exact ⟨rfl, [], rfl, .nil⟩
  | @data d events c clean _ ih =>
    obtain ⟨run, events', written, denotes⟩ := ih fit among
    refine ⟨run, .data d :: events', ?_, .data clean denotes⟩
    rw [PortMatch.written, writeEvent_data, List.flatMap_cons]
    exact congrArg (d.write ++ ·) written
  | @empty body tag events c text _ ih =>
    obtain ⟨run, events', written, denotes⟩ := ih fit.2 among
    have step : PortMatch.initial.step names (.empty body tag.read) = .initial := if_neg fit.1
    refine ⟨?_, .empty body tag.read :: events', ?_, .empty text denotes⟩
    · rw [PortMatch.run, List.foldl_cons, step]
      exact run
    · rw [PortMatch.written, writeEvent_empty body text.unique, step, written]
      rfl
  | @element body space tag inside events kids c text blank inner _ _ moreIH =>
    obtain ⟨_, own, later⟩ := fit
    obtain ⟨run, events', written, denotes⟩ :=
      moreIH later fun n member => among n (List.mem_append_right _ member)
    -- no port stands outside of a service, so none is matched before it
    have unmatched : ¬ NamedPort names tag := by
      by_cases named : NamedService serviceName tag
      · exact fun matched => service_ne_port (named.1.symm.trans matched.1)
      · rw [if_neg named] at own
        exact own.2.1
    have start : PortMatch.initial.step names (.start body tag.read) = .initial := if_neg unmatched
    have close (open_ : Bool) : (PortMatch.pending open_).step names (.close tag.name space) = .initial := by
      cases open_ <;> rfl
    -- what stands inside of the element is rewritten if it is the service, and copied if not
    have served : ∃ open' inside', PortMatch.initial.run names inside = .pending open' ∧
        PortMatch.initial.written ext u names inside = inside'.flatMap RawEvent.source ∧
        Denotes inside' (if NamedService serviceName tag then serveChildren (ext.escape u) false kids else kids) := by
      by_cases named : NamedService serviceName tag
      · rw [if_pos named] at own ⊢
        have found : ∀ n ∈ portNames kids, n ∈ names := fun n member =>
          among n (List.mem_append_left _ (by rwa [if_pos named]))
        exact written_service noTag noQuote inner own.2.2 found false own.2.1
      · rw [if_neg named] at own ⊢
        obtain ⟨run, written⟩ := written_outside ext u inner own.2.2
        exact ⟨false, _, run, written, denotes_tidy inner⟩
    obtain ⟨open', inside', innerRun, innerWritten, innerDenotes⟩ := served
    rw [run_element, written_element, writeEvent_start body text.unique, start, innerRun, close,
      innerWritten, written]
    refine ⟨run, .start body tag.read :: (inside' ++ .close tag.name [] :: events'), ?_,
      .element text blank_nil innerDenotes denotes⟩
    simp only [List.flatMap_cons, List.flatMap_append, RawEvent.source, List.append_nil]
    rfl

/-- The document with the new addresses. -/
def serveDocument (raw serviceName : Text) : Content → Content
  | .nil => .nil
  | .data d rest => .data d (serveDocument raw serviceName rest)
  | .empty tag rest => .empty tag rest
  | .element tag kids rest => .element tag (serveSections raw serviceName kids) rest

theorem written_document {deref : Text → Option Text} {inherited : Tree.Namespaces} {tag : Tag}
    {kids : Content} (denotes : Denotes events c) (root : c.elements = [⟨tag, some kids⟩])
    (definitions : localName tag.name ≠ port)
    (fit : SectionsFit deref serviceName (servicePortNames serviceName kids) inherited kids) :
    ∃ events', PortMatch.initial.written ext u (servicePortNames serviceName kids) events =
        events'.flatMap RawEvent.source ∧
      Denotes events' (serveDocument (ext.escape u) serviceName c) := by
  induction denotes with
  | nil => cases root
  | @data d events c clean _ ih =>
    obtain ⟨events', written, denotes⟩ := ih root
    refine ⟨.data d :: events', ?_, .data clean denotes⟩
    rw [PortMatch.written, writeEvent_data, List.flatMap_cons]
    exact congrArg (d.write ++ ·) written
  | empty => cases root
  | @element body space own inside events kids c text _ inner more _ _ =>
    obtain ⟨same, bare⟩ := List.cons.inj root
    cases same
    -- the root is the only element, so behind it nothing is rewritten
    obtain ⟨run, inside', written, rebuilt⟩ :=
      written_sections noTag noQuote inner fit fun _ member => member
    have unnamed : c.AllTags fun tag => ¬ NamedPort (servicePortNames serviceName kids) tag :=
      allTags_of_no_elements bare
    obtain ⟨_, after⟩ := written_outside ext u more unnamed
    have start : PortMatch.initial.step (servicePortNames serviceName kids) (.start body tag.read) = .initial :=
      if_neg fun matched => definitions matched.1
    have close : PortMatch.initial.step (servicePortNames serviceName kids) (.close tag.name space) = .initial := rfl
    rw [written_element, writeEvent_start body text.unique, start, run, close, written, after]
    refine ⟨.start body tag.read :: (inside' ++ .close tag.name [] :: events.map RawEvent.tidy), ?_,
      .element text blank_nil rebuilt (denotes_tidy more)⟩
    simp only [List.flatMap_cons, List.flatMap_append, RawEvent.source, List.append_nil]
    rfl

end

end SoapServer.Wsdl
