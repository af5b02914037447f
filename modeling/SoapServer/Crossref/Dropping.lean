import SoapServer.Crossref.Canonicalization
import SoapServer.Crossref.Masking

/-! Dropping subtrees before a comparison: the elements at given paths are left out of a document,
with all that stands in them.
-/

set_option autoImplicit false

namespace SoapServer.Crossref

open Markup hiding localName
open Transducers (run run_nil_eq_ok run_cons_eq_ok run_append_eq_ok)

/-- The open elements, and how many of them there were when the dropped one was entered. -/
structure DropState where
  stack : List Text
  dropDepth : Option Nat
  deriving DecidableEq, Repr

def dropEvent (dropPaths : List MaskRule) (s : DropState) :
    RawEvent → Except Failure (Text × DropState)
  | .start body tag =>
    let stack := s.stack ++ [localName tag]
    if s.dropDepth.isSome then .ok ([], { s with stack })
    else if masked dropPaths stack then .ok ([], ⟨stack, some stack.length⟩)
    else .ok (startText body, { s with stack })
  | .empty body tag =>
    let stack := s.stack ++ [localName tag]
    if s.dropDepth.isSome then .ok ([], { s with stack := stack.dropLast })
    else if masked dropPaths stack then .ok ([], { s with stack := stack.dropLast })
    else .ok (emptyText body, { s with stack := stack.dropLast })
  | .close name _ =>
    match s.dropDepth with
    | some depth =>
      -- the end tag of the dropped element itself is left out too
      .ok ([], ⟨s.stack.dropLast, if s.stack.length = depth then none else some depth⟩)
    | none => .ok (closeTag name, { s with stack := s.stack.dropLast })
  | .data d => .ok (if s.dropDepth.isNone then d.write else [], s)

def dropSubtrees (reader : RawReader) (xml : Text)
    (dropPaths : List MaskRule) : Except Failure Text :=
  rewriteAll (dropEvent dropPaths) ⟨[], none⟩ (reader xml)

def maskOnlyWithDrops (reader : RawReader) (xml : Text) (textMasks : List MaskRule)
    (attrMasks : List AttrMaskRule)
    (dropPaths : List MaskRule) : Except Failure Text := do
  let dropped ← dropSubtrees reader xml dropPaths
  let masked ← applyMasks reader dropped textMasks attrMasks
  canonicalizePrefixes reader masked

/-- A document without the elements at the paths. -/
def without (dropPaths : List MaskRule) : List Text → Content → Content
  | _, .nil => .nil
  | path, .data d rest => .data d (without dropPaths path rest)
  | path, .empty tag rest =>
    if masked dropPaths (path ++ [localNameStr tag.name]) then without dropPaths path rest
    else .empty tag (without dropPaths path rest)
  | path, .element tag kids rest =>
    if masked dropPaths (path ++ [localNameStr tag.name]) then without dropPaths path rest
    else .element tag (without dropPaths (path ++ [localNameStr tag.name]) kids)
      (without dropPaths path rest)

/-- The pieces of one element at a path that is dropped. -/
inductive Subtree (dropPaths : List MaskRule) (path : List Text) : List RawEvent → Prop
  | empty {body : Text} {tag : Tag} (dropped : masked dropPaths (path ++ [localNameStr tag.name]) = true) :
    Subtree dropPaths path [.empty body tag.read]
  | element {body space : Text} {tag : Tag} {inside : List RawEvent} {kids : Content}
    (dropped : masked dropPaths (path ++ [localNameStr tag.name]) = true) (inner : Denotes inside kids) :
    Subtree dropPaths path (.start body tag.read :: (inside ++ [.close tag.name space]))

/-- Two documents that differ in dropped elements only: one may have others than the other, or none. -/
inductive DropVariant (dropPaths : List MaskRule) : List Text → List RawEvent → List RawEvent → Prop
  | nil {path : List Text} : DropVariant dropPaths path [] []
  | data {path : List Text} {d : Data} {events events' : List RawEvent}
    (more : DropVariant dropPaths path events events') :
    DropVariant dropPaths path (.data d :: events) (.data d :: events')
  | empty {path : List Text} {body : Text} {tag : Tag} {events events' : List RawEvent}
    (stays : masked dropPaths (path ++ [localNameStr tag.name]) = false)
    (more : DropVariant dropPaths path events events') :
    DropVariant dropPaths path (.empty body tag.read :: events) (.empty body tag.read :: events')
  | element {path : List Text} {body space space' : Text} {tag : Tag}
    {inside inside' events events' : List RawEvent}
    (stays : masked dropPaths (path ++ [localNameStr tag.name]) = false)
    (inner : DropVariant dropPaths (path ++ [localNameStr tag.name]) inside inside')
    (more : DropVariant dropPaths path events events') :
    DropVariant dropPaths path (.start body tag.read :: (inside ++ .close tag.name space :: events))
      (.start body tag.read :: (inside' ++ .close tag.name space' :: events'))
  | left {path : List Text} {subtree events events' : List RawEvent}
    (dropped : Subtree dropPaths path subtree)
    (more : DropVariant dropPaths path events events') :
    DropVariant dropPaths path (subtree ++ events) events'
  | right {path : List Text} {subtree events events' : List RawEvent}
    (dropped : Subtree dropPaths path subtree)
    (more : DropVariant dropPaths path events events') :
    DropVariant dropPaths path events (subtree ++ events')

variable {dropPaths : List MaskRule} {events events' : List RawEvent} {c : Content}
    {path : List Text}

/-! The loop. -/

theorem dropEvent_empty (dropPaths : List MaskRule) (path : List Text) (body : Text) (tag : Tag) :
    eachEvent (dropEvent dropPaths) ⟨path, none⟩ (.ok (.empty body tag.read)) =
      .ok (if masked dropPaths (path ++ [localNameStr tag.name]) then [] else emptyText body,
        ⟨path, none⟩) := by
  have same : (path ++ [localName tag.read]).dropLast = path := List.dropLast_concat
  simp only [eachEvent, dropEvent, Option.isSome_none, Bool.false_eq_true, if_false, same]
  cases at_ : masked dropPaths (path ++ [localNameStr tag.name]) with
  | true => exact if_pos at_
  | false => exact if_neg (Bool.eq_false_iff.mp at_)

/-- Nothing is written while an element is dropped, however deep its content is. -/
theorem run_dropping (denotes : Denotes events c) {depth : Nat} (inside : depth ≤ path.length) :
    run (eachEvent (dropEvent dropPaths)) ⟨path, some depth⟩ (stream events) =
      .ok ([], ⟨path, some depth⟩) := by
  induction denotes generalizing path with
  | nil => rfl
  | data _ _ ih => exact run_cons_eq_ok.mpr ⟨_, _, _, rfl, ih inside, rfl⟩
  | @empty body tag events c _ _ ih =>
    have step : eachEvent (dropEvent dropPaths) ⟨path, some depth⟩ (.ok (.empty body tag.read)) =
        .ok ([], ⟨path, some depth⟩) :=
      congrArg (fun stack => Except.ok ([], DropState.mk stack (some depth))) List.dropLast_concat
    exact run_cons_eq_ok.mpr ⟨_, _, _, step, ih inside, rfl⟩
  | @element body space tag innerEvents events kids c _ _ _ _ innerIH moreIH =>
    have below : depth ≤ (path ++ [localNameStr tag.name]).length := by
      rw [List.length_append]
      exact Nat.le_succ_of_le inside
    have deeper : (path ++ [localNameStr tag.name]).length ≠ depth := by
      rw [List.length_append]
      exact Nat.ne_of_gt (Nat.lt_succ_of_le inside)
    have close : eachEvent (dropEvent dropPaths) ⟨path ++ [localNameStr tag.name], some depth⟩
        (.ok (.close tag.name space)) = .ok ([], ⟨path, some depth⟩) := by
      simp only [eachEvent, dropEvent, if_neg deeper, List.dropLast_concat]
    have later := run_cons_eq_ok.mpr ⟨_, _, _, close, moreIH inside, rfl⟩
    have both := run_append_eq_ok.mpr ⟨_, _, _, innerIH below, later, rfl⟩
    rw [stream_cons, stream_append]
    exact run_cons_eq_ok.mpr ⟨_, _, _, rfl, both, rfl⟩

/-- A dropped element leaves nothing, and the loop as it was. -/
theorem Subtree.run (dropped : Subtree dropPaths path events) :
    Transducers.run (eachEvent (dropEvent dropPaths)) ⟨path, none⟩ (stream events) =
      .ok ([], ⟨path, none⟩) := by
  cases dropped with
  | @empty body tag at_ =>
    have step := dropEvent_empty dropPaths path body tag
    rw [if_pos at_] at step
    exact run_cons_eq_ok.mpr ⟨_, _, _, step, rfl, rfl⟩
  | @element body space tag inside kids at_ inner =>
    have start : eachEvent (dropEvent dropPaths) ⟨path, none⟩ (.ok (.start body tag.read)) =
        .ok ([], ⟨path ++ [localNameStr tag.name], some (path ++ [localNameStr tag.name]).length⟩) :=
          if_pos at_
    have close : eachEvent (dropEvent dropPaths)
        ⟨path ++ [localNameStr tag.name], some (path ++ [localNameStr tag.name]).length⟩
          (.ok (.close tag.name space)) =
          .ok ([], ⟨path, none⟩) := by
      simp only [eachEvent, dropEvent, if_true, List.dropLast_concat]
    have later := run_cons_eq_ok.mpr ⟨_, _, _, close, run_nil_eq_ok.mpr ⟨rfl, rfl⟩, rfl⟩
    have both := run_append_eq_ok.mpr ⟨_, _, _, run_dropping inner le_rfl, later, rfl⟩
    rw [stream_cons, stream_append]
    exact run_cons_eq_ok.mpr ⟨_, _, _, start, both, rfl⟩

/-- An element that stays, around what is written for its content. -/
theorem run_staying {body space : Text} {tag : Tag} {inside : List RawEvent} {inner later : Text}
    (stays : masked dropPaths (path ++ [localNameStr tag.name]) = false)
    (first : run (eachEvent (dropEvent dropPaths)) ⟨path ++ [localNameStr tag.name], none⟩
    (stream inside) =
      .ok (inner, ⟨path ++ [localNameStr tag.name], none⟩))
    (rest : run (eachEvent (dropEvent dropPaths)) ⟨path, none⟩ (stream events) =
    .ok (later, ⟨path, none⟩)) :
    run (eachEvent (dropEvent dropPaths)) ⟨path, none⟩
        (stream (.start body tag.read :: (inside ++ .close tag.name space :: events))) =
      .ok (startText body ++ (inner ++ (closeTag tag.name ++ later)), ⟨path, none⟩) := by
  have start : eachEvent (dropEvent dropPaths) ⟨path, none⟩ (.ok (.start body tag.read)) =
      .ok (startText body, ⟨path ++ [localNameStr tag.name], none⟩) :=
        if_neg (Bool.eq_false_iff.mp stays)
  have close : eachEvent (dropEvent dropPaths) ⟨path ++ [localNameStr tag.name], none⟩
    (.ok (.close tag.name space)) =
      .ok (closeTag tag.name, ⟨path, none⟩) := by
    simp only [eachEvent, dropEvent, List.dropLast_concat]
  have tail := run_cons_eq_ok.mpr ⟨_, _, _, close, rest, rfl⟩
  have both := run_append_eq_ok.mpr ⟨_, _, _, first, tail, rfl⟩
  rw [stream_cons, stream_append]
  exact run_cons_eq_ok.mpr ⟨_, _, _, start, both, rfl⟩

/-! What is written. -/

theorem run_dropEvent (denotes : Denotes events c) (dropPaths : List MaskRule) (path : List Text) :
    ∃ kept, run (eachEvent (dropEvent dropPaths)) ⟨path, none⟩ (stream events) =
        .ok (kept.flatMap RawEvent.source, ⟨path, none⟩) ∧
      Denotes kept (without dropPaths path c) ∧ kept.Sublist (events.map RawEvent.tidy) := by
  -- on the document; an element at a masked path is skipped with all that is in it
  induction denotes generalizing path with
  | nil => exact ⟨[], rfl, .nil, .slnil⟩
  | @data d events c clean _ ih =>
    obtain ⟨kept, ran, stands, sub⟩ := ih path
    exact ⟨.data d :: kept, run_cons_eq_ok.mpr ⟨_, _, _, rfl, ran, rfl⟩, .data clean stands,
      sub.cons_cons _⟩
  | @empty body tag events c text _ ih =>
    obtain ⟨kept, ran, stands, sub⟩ := ih path
    rw [without]
    cases at_ : masked dropPaths (path ++ [localNameStr tag.name]) with
    | true =>
      refine ⟨kept, ?_, stands, sub.cons _⟩
      exact run_append_eq_ok.mpr ⟨_, _, _, Subtree.run (.empty at_), ran, rfl⟩
    | false =>
      have step := dropEvent_empty dropPaths path body tag
      rw [if_neg (Bool.eq_false_iff.mp at_)] at step
      exact ⟨.empty body tag.read :: kept, run_cons_eq_ok.mpr ⟨_, _, _, step, ran, rfl⟩,
        .empty text stands, sub.cons_cons _⟩
  | @element body space tag inside events kids c text blank inner _ innerIH moreIH =>
    obtain ⟨kept, ran, stands, sub⟩ := moreIH path
    obtain ⟨keptInside, ranInside, standsInside, subInside⟩ :=
      innerIH (path ++ [localNameStr tag.name])
    rw [without, List.map_cons, List.map_append, List.map_cons]
    cases at_ : masked dropPaths (path ++ [localNameStr tag.name]) with
    | true =>
      refine ⟨kept, ?_, stands, ?_⟩
      · -- from the start tag to its end tag nothing is written
        have gone : run _ _ (stream (.start body tag.read :: (inside ++ [.close tag.name space]))) = _ :=
          Subtree.run (.element at_ inner)
        have both := run_append_eq_ok.mpr ⟨_, _, _, gone, ran, rfl⟩
        rw [← stream_append, List.cons_append, List.append_assoc] at both
        exact both
      · exact ((sub.cons _).trans (List.sublist_append_right _ _)).cons _
    | false =>
      refine ⟨.start body tag.read :: (keptInside ++ .close tag.name [] :: kept), ?_,
        .element text blank_nil standsInside stands, (subInside.append (sub.cons_cons _)).cons_cons _⟩
      rw [run_staying at_ ranInside ran]
      simp [RawEvent.source]

theorem DropVariant.run (variant : DropVariant dropPaths path events events') :
    ∃ written, Transducers.run (eachEvent (dropEvent dropPaths)) ⟨path, none⟩ (stream events) =
      .ok (written, ⟨path, none⟩) ∧
      Transducers.run (eachEvent (dropEvent dropPaths)) ⟨path, none⟩ (stream events') =
        .ok (written, ⟨path, none⟩) := by
  induction variant with
  | nil => exact ⟨[], rfl, rfl⟩
  | data _ ih =>
    obtain ⟨written, first, second⟩ := ih
    exact ⟨_, run_cons_eq_ok.mpr ⟨_, _, _, rfl, first, rfl⟩,
      run_cons_eq_ok.mpr ⟨_, _, _, rfl, second, rfl⟩⟩
  | empty stays _ ih =>
    obtain ⟨written, first, second⟩ := ih
    exact ⟨_, run_cons_eq_ok.mpr ⟨_, _, _, dropEvent_empty _ _ _ _, first, rfl⟩,
      run_cons_eq_ok.mpr ⟨_, _, _, dropEvent_empty _ _ _ _, second, rfl⟩⟩
  | element stays _ _ innerIH moreIH =>
    obtain ⟨inner, firstInner, secondInner⟩ := innerIH
    obtain ⟨later, firstLater, secondLater⟩ := moreIH
    exact ⟨_, run_staying stays firstInner firstLater, run_staying stays secondInner secondLater⟩
  | left dropped _ ih =>
    obtain ⟨written, first, second⟩ := ih
    rw [stream_append]
    exact ⟨written, run_append_eq_ok.mpr ⟨_, _, _, dropped.run, first, rfl⟩, second⟩
  | right dropped _ ih =>
    obtain ⟨written, first, second⟩ := ih
    rw [stream_append]
    exact ⟨written, first, run_append_eq_ok.mpr ⟨_, _, _, dropped.run, second, rfl⟩⟩

/-- Dropping writes the pieces of the document without the elements at the paths, which is what is then
compared; and what stands in these elements, or whether they are there, makes no difference to it. -/
theorem drops_subtrees {reader : RawReader} {xml : Text} (document : Reports reader xml events c)
    (dropPaths textMasks : List MaskRule) (attrMasks : List AttrMaskRule) :
    ∃ kept, dropSubtrees reader xml dropPaths = .ok (kept.flatMap RawEvent.source) ∧
      Denotes kept (without dropPaths [] c) ∧ kept.Sublist (events.map RawEvent.tidy) ∧
      maskOnlyWithDrops reader xml textMasks attrMasks dropPaths =
        maskOnly reader (kept.flatMap RawEvent.source) textMasks attrMasks ∧
      ∀ xml' events' c', Reports reader xml' events' c' → DropVariant dropPaths [] events events' →
        maskOnlyWithDrops reader xml' textMasks attrMasks dropPaths =
          maskOnlyWithDrops reader xml textMasks attrMasks dropPaths := by
  obtain ⟨kept, ran, stands, sub⟩ := run_dropEvent document.denotes dropPaths []
  have dropped : dropSubtrees reader xml dropPaths = .ok (kept.flatMap RawEvent.source) := by
    rw [dropSubtrees, rewriteAll, document.reads, ran]
    rfl
  refine ⟨kept, dropped, stands, sub, by rw [maskOnlyWithDrops, dropped]; rfl,
    fun xml' events' c' document' variant => ?_⟩
  obtain ⟨written, first, second⟩ := variant.run
  have same : dropSubtrees reader xml' dropPaths = dropSubtrees reader xml dropPaths := by
    rw [dropSubtrees, dropSubtrees, rewriteAll, rewriteAll, document.reads, document'.reads, first,
      second]
  rw [maskOnlyWithDrops, maskOnlyWithDrops, same]

/-- An envelope with something in its header. -/
def envelopeWith (header : Content) : Content :=
  .element ⟨"Envelope".toList, []⟩ (.element ⟨"Header".toList, []⟩ header (.empty ⟨"Body".toList, []⟩ .nil)) .nil

def headerDrop : List MaskRule := [.new "Envelope/Header".toList]

def stamped (created : String) : Content :=
  .element ⟨"Timestamp".toList, []⟩ (.data (.text created.toList) .nil) .nil

def headerWith (kids : Content) : Content := .element ⟨"Header".toList, []⟩ kids .nil

theorem headerWith_subtree {kids : Content} (inner : Denotes kids.pieces kids) :
    Subtree headerDrop ["Envelope".toList] (headerWith kids).pieces :=
  .element (by decide +kernel) inner

theorem envelopeWith_reports (header : Content)
    (tags : header.AllTags fun tag => tag.Lexical ∧ tag.QuoteFree ∧ tag.Unique)
    (lexical : header.AllData Data.Lexical) (normal : header.Normal) :
    Reports pieceScanner (envelopeWith header).write (envelopeWith header).pieces
      (envelopeWith header) := by
  have all : (envelopeWith header).AllTags fun tag => tag.Lexical ∧ tag.QuoteFree ∧ tag.Unique :=
    ⟨by decide, ⟨by decide, tags, by decide, trivial⟩, trivial⟩
  have data : (envelopeWith header).AllData Data.Lexical := ⟨⟨lexical, trivial⟩, trivial⟩
  have writable : (envelopeWith header).Writable :=
    ⟨all.mono fun _ tag => tag.1, all.mono fun _ tag => tag.2.1, data⟩
  have single : (envelopeWith header).Normal := ⟨⟨normal, trivial⟩, trivial⟩
  exact ⟨(Content.pieces_source _).symm, pieceScanner_readsBack.written _ writable single
    (all.mono fun _ tag => tag.2.2) (head_ne_byteOrderMark rfl),
    denotes_pieces all (data.mono fun _ => clean_of_lexical)⟩

/-- A header does not show in what is compared once it is dropped. -/
theorem header_dropped :
    maskOnlyWithDrops pieceScanner (envelopeWith (stamped "12:00")).write [.new "Envelope/Body".toList] []
        headerDrop =
      maskOnlyWithDrops pieceScanner (envelopeWith .nil).write [.new "Envelope/Body".toList] []
        headerDrop := by
  have bare := envelopeWith_reports .nil trivial trivial trivial
  have full := envelopeWith_reports (stamped "12:00") (by decide) (by decide)
    ⟨⟨by decide, (fun _ _ same => by cases same), trivial⟩, trivial⟩
  obtain ⟨_, _, _, _, _, others⟩ := drops_subtrees bare headerDrop [.new "Envelope/Body".toList] []
  have both : DropVariant headerDrop [] (envelopeWith .nil).pieces
      (envelopeWith (stamped "12:00")).pieces := by
    have inside : DropVariant headerDrop ["Envelope".toList]
        ((headerWith .nil).pieces ++ (Content.empty ⟨"Body".toList, []⟩ .nil).pieces)
        ((headerWith (stamped "12:00")).pieces ++ (Content.empty ⟨"Body".toList, []⟩ .nil).pieces) :=
      .left (headerWith_subtree .nil) (.right (headerWith_subtree (denotes_pieces (by decide) (by decide)))
        (.empty (by decide +kernel) .nil))
    exact .element (by decide +kernel) inside .nil
  exact others _ _ _ full both

end SoapServer.Crossref
