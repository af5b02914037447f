import SoapServer.Crossref.Prefixes
import SoapServer.PieceScanner

/-! What masking hides: two documents that differ in masked character content are compared by
what is written for them.
-/

set_option autoImplicit false

namespace SoapServer.Crossref

open Markup hiding localName
open Transducers (run run_nil_eq_ok run_cons_eq_ok run_append_eq_ok)

/-- The reader reports the pieces of a well-formed text. -/
structure Reports (reader : RawReader) (xml : Text) (events : List RawEvent) (c : Content) :
    Prop where
  source : xml = events.flatMap RawEvent.source
  reads : reader xml = stream events
  denotes : Denotes events c

/-- Plain text, a section or a reference. -/
def IsCharacter : Data → Prop
  | .text _ | .cdata _ | .generalRef _ => True
  | .comment _ | .pi _ | .decl _ | .docType _ => False

def ofData (ds : List Data) : Content := ds.foldr .data .nil

/-- Two documents that differ only in the character content of leaves at a masked path. -/
inductive MaskedVariant (masks : List MaskRule) : List Text → Content → Content → Prop
  | nil {path : List Text} : MaskedVariant masks path .nil .nil
  | data {path : List Text} {d : Data} {c c' : Content} (more : MaskedVariant masks path c c') :
    MaskedVariant masks path (.data d c) (.data d c')
  | empty {path : List Text} {tag : Tag} {c c' : Content} (more : MaskedVariant masks path c c') :
    MaskedVariant masks path (.empty tag c) (.empty tag c')
  | element {path : List Text} {tag : Tag} {kids kids' c c' : Content}
    (inner : MaskedVariant masks (path ++ [localNameStr tag.name]) kids kids') (more : MaskedVariant masks path c c') :
    MaskedVariant masks path (.element tag kids c) (.element tag kids' c')
  | leaf {path : List Text} {tag : Tag} {ds ds' : List Data} {c c' : Content}
    (isMasked : masked masks (path ++ [localNameStr tag.name]) = true) (filled : ds ≠ []) (filled' : ds' ≠ [])
    (chars : ∀ d ∈ ds, IsCharacter d) (chars' : ∀ d ∈ ds', IsCharacter d) (more : MaskedVariant masks path c c') :
    MaskedVariant masks path (.element tag (ofData ds) c) (.element tag (ofData ds') c')

/-- The reference that a fragment is, if it is one. -/
def reference : Data → Option Text
  | .generalRef name => some name
  | .text _ | .cdata _ | .comment _ | .pi _ | .decl _ | .docType _ => none

/-- The references directly inside an element, in their places among the other fragments. -/
def ownReferences : Content → List (Option Text)
  | .nil => []
  | .data d rest => reference d :: ownReferences rest
  | .empty _ rest | .element _ _ rest => ownReferences rest

/-- The references in each element at a masked path, in document order. -/
def maskedReferences (masks : List MaskRule) : List Text → Content → List (List (Option Text))
  | _, .nil => []
  | path, .data _ rest | path, .empty _ rest => maskedReferences masks path rest
  | path, .element tag kids rest =>
    (if masked masks (path ++ [localNameStr tag.name]) then [ownReferences kids] else []) ++
      (maskedReferences masks (path ++ [localNameStr tag.name]) kids ++ maskedReferences masks path rest)

/-- Masking hides the differences: the two documents are written as one. -/
structure HidesMasked (reader : RawReader) (masks : List MaskRule) (attrMasks : List AttrMaskRule)
    (xml xml' : Text) :
    Prop where
  normalized : normalize reader xml masks = normalize reader xml' masks
  maskedOnly : maskOnly reader xml masks attrMasks = maskOnly reader xml' masks attrMasks

variable {masks : List MaskRule} {attrMasks : List AttrMaskRule} {events : List RawEvent}
    {c c' : Content}
  {path : List Text}

/-! What `normalize` writes for a document. -/

theorem allAttributes_read {tag : Tag} (unique : tag.Unique) :
    allAttributes tag.read = .ok tag.attributes := by
  rw [allAttributes, Tag.read_of_unique unique]
  induction tag.attributes with
  | nil => rfl
  | cons a rest ih =>
    rw [List.map_cons, List.mapM_cons, ih]
    rfl

def sortedTag (tag : Tag) : Tag := ⟨tag.name, sortByKey tag.attributes⟩

theorem writeSortedStart_read {tag : Tag} (unique : tag.Unique) (empty : Bool) :
    writeSortedStart tag.read empty = .ok (tagSource empty (sortedTag tag)) := by
  rw [writeSortedStart, allAttributes_read unique]
  rfl

def normalData (masks : List MaskRule) (path : List Text) : Data → Text
  | .text raw => if masked masks path then maskSentinel else (Data.text raw).write
  | .cdata raw => if masked masks path then maskSentinel else (Data.cdata raw).write
  | other => other.write

def normalText (masks : List MaskRule) : List Text → Content → Text
  | _, .nil => []
  | path, .data d rest => normalData masks path d ++ normalText masks path rest
  | path, .empty tag rest => tagSource true (sortedTag tag) ++ normalText masks path rest
  | path, .element tag kids rest =>
    tagSource false (sortedTag tag) ++ (normalText masks (path ++ [localNameStr tag.name]) kids ++
      (closeTag tag.name ++ normalText masks path rest))

theorem normalizeEvent_data (d : Data) :
    normalizeEvent masks path (.data d) = .ok (normalData masks path d, path) := by
  cases d <;> rfl

theorem run_normalizeEvent (denotes : Denotes events c) (path : List Text) :
    run (eachEvent (normalizeEvent masks)) path (stream events) = .ok (normalText masks path c, path) := by
  induction denotes generalizing path with
  | nil => rfl
  | @data d events c _ _ ih =>
    exact run_cons_eq_ok.mpr ⟨_, _, _, normalizeEvent_data d, ih path, rfl⟩
  | @empty body tag events c text _ ih =>
    have step : eachEvent (normalizeEvent masks) path (.ok (.empty body tag.read)) =
        .ok (tagSource true (sortedTag tag), path) := by
      rw [eachEvent, normalizeEvent, writeSortedStart_read text.unique]
      exact congrArg (fun stack => Except.ok (_, stack)) List.dropLast_concat
    exact run_cons_eq_ok.mpr ⟨_, _, _, step, ih path, rfl⟩
  | @element body space tag inside events kids c text _ _ _ innerIH moreIH =>
    have start : eachEvent (normalizeEvent masks) path (.ok (.start body tag.read)) =
        .ok (tagSource false (sortedTag tag), path ++ [localNameStr tag.name]) := by
      rw [eachEvent, normalizeEvent, writeSortedStart_read text.unique]
      rfl
    have close : eachEvent (normalizeEvent masks) (path ++ [localNameStr tag.name]) (.ok (.close tag.name space)) =
        .ok (closeTag tag.name, path) := by
      rw [eachEvent, normalizeEvent, List.dropLast_concat]
    have later := run_cons_eq_ok.mpr ⟨_, _, _, close, moreIH path, rfl⟩
    have both := run_append_eq_ok.mpr ⟨_, _, _, innerIH (path ++ [localNameStr tag.name]), later,
      rfl⟩
    rw [stream_cons, stream_append]
    exact run_cons_eq_ok.mpr ⟨_, _, _, start, both, rfl⟩

theorem normalize_document {reader : RawReader} {xml : Text}
    (document : Reports reader xml events c) :
    normalize reader xml masks = .ok (normalText masks [] c) := by
  rw [normalize, rewriteAll, document.reads, run_normalizeEvent document.denotes]
  rfl

/-! The text of masked content. -/

/-- A fragment of masked content after `normalize`: references stay. -/
def maskedFragment : Option Text → Text
  | none => maskSentinel
  | some name => (Data.generalRef name).write

theorem normalText_ofData {ds : List Data} (isMasked : masked masks path = true)
    (chars : ∀ d ∈ ds, IsCharacter d) :
    normalText masks path (ofData ds) = (ownReferences (ofData ds)).flatMap maskedFragment := by
  induction ds with
  | nil => rfl
  | cons d rest ih =>
    have first : normalData masks path d = maskedFragment (reference d) := by
      have character := chars d (.head _)
      cases d with
      | text raw | cdata raw => exact if_pos isMasked
      | generalRef name => rfl
      | comment raw | pi raw | decl raw | docType raw => exact character.elim
    have more := ih fun other member => chars other (.tail _ member)
    change normalData masks path d ++ normalText masks path (ofData rest) = _
    rw [first, more]
    rfl

/-- Masked content is read off its text, up to the tag behind it. -/
theorem maskedFragments_inj {references references' : List (Option Text)} {x y : Text}
    (clean : ∀ name, some name ∈ references → ';' ∉ name)
    (clean' : ∀ name, some name ∈ references' → ';' ∉ name)
    (same : references.flatMap maskedFragment ++ '<' :: x = references'.flatMap maskedFragment ++ '<' :: y) :
    references = references' ∧ x = y := by
  induction references generalizing references' with
  | nil =>
    cases references' with
    | nil => exact ⟨rfl, (List.cons.inj same).2⟩
    | cons other rest => cases other <;> cases same
  | cons first rest ih =>
    have cleanRest : ∀ name, some name ∈ rest → ';' ∉ name :=
      fun name member => clean name (.tail _ member)
    cases references' with
    | nil => cases first <;> cases same
    | cons other rest' =>
      have cleanRest' : ∀ name, some name ∈ rest' → ';' ∉ name :=
        fun name member => clean' name (.tail _ member)
      rw [List.flatMap_cons, List.flatMap_cons, List.append_assoc, List.append_assoc] at same
      cases first with
      | none =>
        cases other with
        | none =>
          obtain ⟨rfl, rest⟩ := ih cleanRest cleanRest' (List.append_cancel_left same)
          exact ⟨rfl, rest⟩
        | some name => cases same
      | some name =>
        cases other with
        | none => cases same
        | some name' =>
          simp only [maskedFragment, Data.write, List.cons_append, List.append_assoc,
            List.nil_append, List.cons.injEq, true_and] at same
          -- the name of a reference ends at its semicolon
          have cut := splitOnce_append ';' name (rest.flatMap maskedFragment ++ '<' :: x) (clean name (.head _))
          rw [same, splitOnce_append ';' name' _ (clean' name' (.head _))] at cut
          obtain ⟨rfl, others⟩ := Prod.mk.inj (Option.some.inj cut)
          obtain ⟨rfl, rest⟩ := ih cleanRest cleanRest' others.symm
          exact ⟨rfl, rest⟩

theorem denotes_clean (denotes : Denotes events c) : c.AllData Data.Clean := by
  induction denotes with
  | nil => trivial
  | data clean _ ih => exact ⟨clean, ih⟩
  | empty _ _ ih => exact ih
  | element _ _ _ _ innerIH moreIH => exact ⟨innerIH, moreIH⟩

theorem ownReferences_clean (clean : c.AllData Data.Clean) :
    ∀ name, some name ∈ ownReferences c → ';' ∉ name := by
  induction c with
  | nil => exact fun name member => by cases member
  | data d rest ih =>
    intro name member
    rcases List.mem_cons.mp member with same | member
    · cases d with
      | generalRef other =>
        cases same
        exact fun member => (clean.1 _ member).1 rfl
      | text raw | cdata raw | comment raw | pi raw | decl raw | docType raw => cases same
    · exact ih clean.2 name member
  | empty tag rest ih => exact ih clean
  | element tag kids rest _ ih => exact ih clean.2

theorem maskedReferences_ofData (ds : List Data) :
    maskedReferences masks path (ofData ds) = [] := by
  induction ds with
  | nil => rfl
  | cons d rest ih => exact ih

/-- Variants differ below their elements only. -/
theorem MaskedVariant.ownReferences (variant : MaskedVariant masks path c c') :
    ownReferences c = ownReferences c' := by
  induction variant with
  | nil => rfl
  | data _ ih => exact congrArg (List.cons _) ih
  | empty _ ih | element _ _ _ ih | leaf _ _ _ _ _ _ ih => exact ih

/-- Two variants are written alike, whatever follows, just when their masked references agree. -/
theorem references_of_normalText (variant : MaskedVariant masks path c c')
    (clean : c.AllData Data.Clean) (clean' : c'.AllData Data.Clean) {x y : Text}
    (same : normalText masks path c ++ x = normalText masks path c' ++ y) :
    maskedReferences masks path c = maskedReferences masks path c' ∧ x = y := by
  induction variant generalizing x y with
  | nil => exact ⟨rfl, same⟩
  | data _ ih =>
    simp only [normalText, List.append_assoc] at same
    exact ih clean.2 clean'.2 (List.append_cancel_left same)
  | empty _ ih =>
    simp only [normalText, List.append_assoc] at same
    exact ih clean clean' (List.append_cancel_left same)
  | @element path tag kids kids' c c' inner _ innerIH moreIH =>
    simp only [normalText, List.append_assoc] at same
    obtain ⟨kidsSame, rest⟩ := innerIH clean.1 clean'.1 (List.append_cancel_left same)
    obtain ⟨moreSame, rest⟩ := moreIH clean.2 clean'.2 (List.append_cancel_left rest)
    refine ⟨?_, rest⟩
    rw [maskedReferences, maskedReferences, inner.ownReferences, kidsSame, moreSame]
  -- a masked element may hold other data in the two; what is left of it are its references
  | @leaf path tag ds ds' c c' isMasked _ _ chars chars' _ ih =>
    simp only [normalText, normalText_ofData isMasked chars, normalText_ofData isMasked chars', List.append_assoc] at same
    have text := List.append_cancel_left same
    rw [closeTag, List.cons_append] at text
    obtain ⟨own, rest⟩ := maskedFragments_inj (ownReferences_clean clean.1) (ownReferences_clean clean'.1) text
    obtain ⟨moreSame, rest⟩ := ih clean.2 clean'.2 (List.append_cancel_left rest)
    refine ⟨?_, rest⟩
    rw [maskedReferences, maskedReferences, own, maskedReferences_ofData, maskedReferences_ofData,
      moreSame]

/-! Variants whose masked references agree. -/

theorem MaskedVariant.length_references (variant : MaskedVariant masks path c c') :
    (maskedReferences masks path c).length = (maskedReferences masks path c').length := by
  induction variant with
  | nil => rfl
  | data _ ih | empty _ ih => exact ih
  | element _ _ innerIH moreIH =>
    simp only [maskedReferences, List.length_append, innerIH, moreIH]
    split <;> rfl
  | leaf isMasked _ _ _ _ _ ih =>
    simp only [maskedReferences, maskedReferences_ofData, if_pos isMasked, List.length_append, ih]
    rfl

theorem references_of_element {tag : Tag} {kids kids' : Content}
    (inner : MaskedVariant masks (path ++ [localNameStr tag.name]) kids kids')
    (same : maskedReferences masks path (.element tag kids c) = maskedReferences masks path (.element tag kids' c')) :
    maskedReferences masks (path ++ [localNameStr tag.name]) kids =
        maskedReferences masks (path ++ [localNameStr tag.name]) kids' ∧
      maskedReferences masks path c = maskedReferences masks path c' := by
  rw [maskedReferences, maskedReferences, inner.ownReferences] at same
  exact List.append_inj (List.append_cancel_left same) inner.length_references

theorem references_of_leaf {tag : Tag} {ds ds' : List Data}
    (isMasked : masked masks (path ++ [localNameStr tag.name]) = true)
    (same : maskedReferences masks path (.element tag (ofData ds) c) =
      maskedReferences masks path (.element tag (ofData ds') c')) :
    ownReferences (ofData ds) = ownReferences (ofData ds') ∧
      maskedReferences masks path c = maskedReferences masks path c' := by
  simp only [maskedReferences, maskedReferences_ofData, if_pos isMasked] at same
  exact List.cons.inj same

theorem normalText_of_references (variant : MaskedVariant masks path c c')
    (same : maskedReferences masks path c = maskedReferences masks path c') :
    normalText masks path c = normalText masks path c' := by
  induction variant with
  | nil => rfl
  | data _ ih => rw [normalText, normalText, ih same]
  | empty _ ih => rw [normalText, normalText, ih same]
  | element inner _ innerIH moreIH =>
    obtain ⟨kidsSame, moreSame⟩ := references_of_element inner same
    rw [normalText, normalText, innerIH kidsSame, moreIH moreSame]
  | leaf isMasked _ _ chars chars' _ ih =>
    obtain ⟨own, moreSame⟩ := references_of_leaf isMasked same
    rw [normalText, normalText, normalText_ofData isMasked chars, normalText_ofData isMasked chars',
      own, ih moreSame]

/-! What `apply_masks` writes for a document. -/

def maskedTag (attrMasks : List AttrMaskRule) (stack : List Text) (tag : Tag) : Tag :=
  ⟨tag.name, sortByKey (tag.attributes.filter fun a => !attrMasks.any fun rule => rule.shouldDropAttr stack a.key)⟩

theorem writeMaskedStart_read {tag : Tag} (unique : tag.Unique) (stack : List Text) (empty : Bool) :
    writeMaskedStart tag.read stack attrMasks empty = .ok (tagSource empty (maskedTag attrMasks stack tag)) := by
  rw [writeMaskedStart, allAttributes_read unique]
  rfl

def maskData (masks : List MaskRule) (s : MaskState) : Data → Text × MaskState
  | .text raw => maskRun masks s (.text raw)
  | .cdata raw => maskRun masks s (.cdata raw)
  | .generalRef name => (if masked masks s.stack then [] else (Data.generalRef name).write, s)
  | other => (other.write, s)

theorem applyMasksEvent_data (s : MaskState) (d : Data) :
    applyMasksEvent masks attrMasks s (.data d) = .ok (maskData masks s d) := by
  cases d <;> rfl

theorem maskRun_stack (s : MaskState) (d : Data) : (maskRun masks s d).2.stack = s.stack := by
  unfold maskRun
  split
  · split <;> rfl
  · rfl

theorem maskData_stack (s : MaskState) (d : Data) : (maskData masks s d).2.stack = s.stack := by
  cases d with
  | text raw | cdata raw => exact maskRun_stack s _
  | _ => rfl

def maskText (masks : List MaskRule) (attrMasks : List AttrMaskRule) : MaskState → Content → Text
  | _, .nil => []
  | s, .data d rest => (maskData masks s d).1 ++ maskText masks attrMasks (maskData masks s d).2 rest
  | s, .empty tag rest =>
    tagSource true (maskedTag attrMasks (s.stack ++ [localNameStr tag.name]) tag) ++
      maskText masks attrMasks ⟨s.stack, false⟩ rest
  | s, .element tag kids rest =>
    tagSource false (maskedTag attrMasks (s.stack ++ [localNameStr tag.name]) tag) ++
      (maskText masks attrMasks ⟨s.stack ++ [localNameStr tag.name], false⟩ kids ++
        (closeTag tag.name ++ maskText masks attrMasks ⟨s.stack, false⟩ rest))

theorem run_applyMasksEvent (denotes : Denotes events c) (s : MaskState) :
    ∃ written, run (eachEvent (applyMasksEvent masks attrMasks)) s (stream events) =
      .ok (maskText masks attrMasks s c, ⟨s.stack, written⟩) := by
  -- a tag begins without a sentinel, and the end tag leaves the path of its element
  induction denotes generalizing s with
  | nil => exact ⟨s.sentinelWritten, rfl⟩
  | @data d events c _ _ ih =>
    obtain ⟨written, ran⟩ := ih (maskData masks s d).2
    rw [maskData_stack] at ran
    have step : eachEvent (applyMasksEvent masks attrMasks) s (.ok (.data d)) = .ok (maskData masks s d) :=
      applyMasksEvent_data s d
    exact ⟨written, run_cons_eq_ok.mpr ⟨_, _, _, step, ran, rfl⟩⟩
  | @empty body tag events c text _ ih =>
    obtain ⟨written, ran⟩ := ih ⟨s.stack, false⟩
    have step : eachEvent (applyMasksEvent masks attrMasks) s (.ok (.empty body tag.read)) =
        .ok (tagSource true (maskedTag attrMasks (s.stack ++ [localNameStr tag.name]) tag), ⟨s.stack, false⟩) := by
      rw [eachEvent, applyMasksEvent, localName, writeMaskedStart_read text.unique]
      exact congrArg (fun stack => Except.ok (_, MaskState.mk stack false)) List.dropLast_concat
    exact ⟨written, run_cons_eq_ok.mpr ⟨_, _, _, step, ran, rfl⟩⟩
  | @element body space tag inside events kids c text _ _ _ innerIH moreIH =>
    obtain ⟨inWritten, inner⟩ := innerIH ⟨s.stack ++ [localNameStr tag.name], false⟩
    obtain ⟨written, more⟩ := moreIH ⟨s.stack, false⟩
    have start : eachEvent (applyMasksEvent masks attrMasks) s (.ok (.start body tag.read)) =
        .ok (tagSource false (maskedTag attrMasks (s.stack ++ [localNameStr tag.name]) tag),
          ⟨s.stack ++ [localNameStr tag.name], false⟩) := by
      rw [eachEvent, applyMasksEvent, localName, writeMaskedStart_read text.unique]
      rfl
    have close : eachEvent (applyMasksEvent masks attrMasks)
        ⟨s.stack ++ [localNameStr tag.name], inWritten⟩ (.ok (.close tag.name space)) =
        .ok (closeTag tag.name, ⟨s.stack, false⟩) := by
      rw [eachEvent, applyMasksEvent, List.dropLast_concat]
    have later := run_cons_eq_ok.mpr ⟨_, _, _, close, more, rfl⟩
    have both := run_append_eq_ok.mpr ⟨_, _, _, inner, later, rfl⟩
    rw [stream_cons, stream_append]
    exact ⟨written, run_cons_eq_ok.mpr ⟨_, _, _, start, both, rfl⟩⟩

theorem applyMasks_document {reader : RawReader} {xml : Text}
    (document : Reports reader xml events c) :
    applyMasks reader xml masks attrMasks = .ok (maskText masks attrMasks ⟨[], false⟩ c) := by
  obtain ⟨written, ran⟩ := @run_applyMasksEvent masks attrMasks events c document.denotes ⟨[], false⟩
  rw [applyMasks, rewriteAll, document.reads, ran]
  rfl

/-- Masked content is one sentinel, unless it consists of references. -/
theorem maskText_ofData {ds : List Data} (isMasked : masked masks path = true)
    (chars : ∀ d ∈ ds, IsCharacter d) (written : Bool) :
    maskText masks attrMasks ⟨path, written⟩ (ofData ds) =
      if written = false ∧ none ∈ ownReferences (ofData ds) then maskSentinel else [] := by
  induction ds generalizing written with
  | nil => simp [ofData, ownReferences, maskText]
  | cons d rest ih =>
    have more := ih fun other member => chars other (.tail _ member)
    have character := chars d (.head _)
    change (maskData masks ⟨path, written⟩ d).1 ++ maskText masks attrMasks (maskData masks ⟨path, written⟩ d).2 (ofData rest) =
      if written = false ∧ none ∈ reference d :: ownReferences (ofData rest) then maskSentinel else []
    cases d with
    | text raw | cdata raw => cases written <;> simp [maskData, maskRun, isMasked, more, reference]
    | generalRef name => simp [maskData, isMasked, more, reference]
    | comment raw | pi raw | decl raw | docType raw => exact character.elim

theorem maskText_of_references (variant : MaskedVariant masks path c c')
    (same : maskedReferences masks path c = maskedReferences masks path c') (written : Bool) :
    maskText masks attrMasks ⟨path, written⟩ c = maskText masks attrMasks ⟨path, written⟩ c' := by
  induction variant generalizing written with
  | nil => rfl
  | @data path d c c' _ ih =>
    have state : (maskData masks ⟨path, written⟩ d).2 = ⟨path, (maskData masks ⟨path, written⟩ d).2.sentinelWritten⟩ := by
      rw [MaskState.mk.injEq]
      exact ⟨maskData_stack _ d, rfl⟩
    rw [maskText, maskText, state, ih same]
  | empty _ ih => rw [maskText, maskText, ih same]
  | element inner _ innerIH moreIH =>
    obtain ⟨kidsSame, moreSame⟩ := references_of_element inner same
    rw [maskText, maskText, innerIH kidsSame, moreIH moreSame]
  | leaf isMasked _ _ chars chars' _ ih =>
    obtain ⟨own, moreSame⟩ := references_of_leaf isMasked same
    rw [maskText, maskText, maskText_ofData isMasked chars, maskText_ofData isMasked chars', own,
      ih moreSame]

/-- Masking hides what two documents differ in exactly when their masked contents have the same
references in the same places. -/
theorem hides_masked_iff {reader : RawReader} {xml xml' : Text} {events' : List RawEvent}
    (document : Reports reader xml events c) (document' : Reports reader xml' events' c')
    (variant : MaskedVariant masks [] c c') :
    HidesMasked reader masks attrMasks xml xml' ↔ maskedReferences masks [] c = maskedReferences masks [] c' := by
  constructor
  · intro hides
    have normalized := hides.normalized
    rw [normalize_document document, normalize_document document', Except.ok.injEq] at normalized
    exact (references_of_normalText variant (denotes_clean document.denotes) (denotes_clean document'.denotes)
      (congrArg (· ++ []) normalized)).1
  · intro same
    constructor
    · rw [normalize_document document, normalize_document document',
        normalText_of_references variant same]
    · rw [maskOnly, maskOnly, applyMasks_document document, applyMasks_document document',
        maskText_of_references variant same]

/-- Whatever stands at a masked path, no two documents can be told apart by it. -/
def MaskingHides : Prop :=
  ∀ (reader : RawReader) (masks : List MaskRule) (attrMasks : List AttrMaskRule) (xml xml' : Text)
    (events events' : List RawEvent) (c c' : Content), Reports reader xml events c → Reports reader xml' events' c' →
    MaskedVariant masks [] c c' → HidesMasked reader masks attrMasks xml xml'

/-- A header with a nonce. -/
def nonceHeader (content : Data) : Content :=
  .element ⟨"Header".toList, []⟩ (.element ⟨"Nonce".toList, []⟩ (ofData [content]) .nil) .nil

def nonceMask : List MaskRule := [.new "Header/Nonce".toList]

theorem reports_nonceHeader (content : Data) (clean : content.Clean)
    (reads : pieceScanner ((nonceHeader content).pieces.flatMap RawEvent.source) =
      stream (nonceHeader content).pieces) :
    Reports pieceScanner ((nonceHeader content).pieces.flatMap RawEvent.source) (nonceHeader content).pieces
      (nonceHeader content) where
  source := rfl
  reads := reads
  denotes := denotes_pieces ⟨by decide, ⟨by decide, trivial, trivial⟩, trivial⟩ ⟨⟨⟨clean, trivial⟩, trivial⟩, trivial⟩

theorem nonceHeader_variant (content content' : Data) (char : IsCharacter content)
    (char' : IsCharacter content') :
    MaskedVariant nonceMask [] (nonceHeader content) (nonceHeader content') := by
  refine .element (.leaf (by decide +kernel) (List.cons_ne_nil _ _) (List.cons_ne_nil _ _) ?_ ?_ .nil) .nil
  · exact List.forall_mem_singleton.mpr char
  · exact List.forall_mem_singleton.mpr char'

def ampersand : Data := .generalRef "amp".toList

def plainNonce : Data := .text "AAAA".toList

def sectionNonce : Data := .cdata "BB".toList

/-- A reference at a masked path is not masked. -/
theorem reference_not_hidden : ¬ MaskingHides := by
  intro hides
  have document := reports_nonceHeader ampersand (by decide) (by decide +kernel)
  have document' := reports_nonceHeader plainNonce (by decide) (by decide +kernel)
  have hidden := hides _ nonceMask [] _ _ _ _ _ _ document document' (nonceHeader_variant _ _ trivial trivial)
  exact absurd hidden.normalized (by decide +kernel)

theorem section_hidden :
    HidesMasked pieceScanner nonceMask []
      ((nonceHeader sectionNonce).pieces.flatMap RawEvent.source) ((nonceHeader plainNonce).pieces.flatMap RawEvent.source) :=
  (hides_masked_iff (reports_nonceHeader sectionNonce trivial (by decide +kernel))
    (reports_nonceHeader plainNonce (by decide) (by decide +kernel)) (nonceHeader_variant _ _ trivial trivial)).mpr
    (by decide +kernel)

end SoapServer.Crossref
