import SoapServer.Crossref.CanonicalForm
import SoapServer.Wsdl.AddressRewriting
import SoapServer.PieceScanner

/-! What a frozen answer is compared for.

An answer is normalized before it is frozen, and every later answer before it is compared. The
comparison finds each difference between two documents, apart from the order of attributes and the texts
that are masked.
-/

set_option autoImplicit false

namespace Markup.Content

/-! Texts in front of content. -/

theorem prependText_filled {s : Text} (filled : s ≠ []) (c : Content) :
    ∃ t more, c.prependText s = .data (.text t) more := by
  unfold prependText
  split
  · exact ⟨_, _, rfl⟩
  · rw [if_neg filled]
    exact ⟨_, _, rfl⟩

theorem prependText_apart {s : Text} (filled : s ≠ []) {c : Content}
    (apart : ∀ t r, c ≠ .data (.text t) r) :
    c.prependText s = .data (.text s) c := by
  unfold prependText
  split
  next t r => exact absurd rfl (apart t r)
  next => exact if_neg filled

/-- The content behind a text that is put in front can be told from what is written. -/
theorem prependText_inj {s : Text} (filled : s ≠ []) {c c' : Content} (normal : c.Normal)
    (normal' : c'.Normal)
    (same : c.prependText s = c'.prependText s) : c = c' := by
  -- a text in front of a text makes a longer one, and no text of normal content is empty
  have longer {t : Text} {r d : Content} (normal : Normal (.data (.text t) r))
    (apart : ∀ t r, d ≠ .data (.text t) r)
      (same : prependText s (.data (.text t) r) = d.prependText s) : False := by
    rw [prependText_apart filled apart] at same
    exact normal.1 (List.append_right_eq_self.mp (Data.text.inj (Content.data.inj same).1))
  by_cases starts : ∃ t r, c = .data (.text t) r
  · obtain ⟨t, r, rfl⟩ := starts
    by_cases starts' : ∃ t r, c' = .data (.text t) r
    · obtain ⟨t', r', rfl⟩ := starts'
      obtain ⟨texts, rfl⟩ := Content.data.inj same
      rw [List.append_cancel_left (Data.text.inj texts)]
    · exact (longer normal (fun t r begins => starts' ⟨t, r, begins⟩) same).elim
  · have apart : ∀ t r, c ≠ .data (.text t) r := fun t r begins => starts ⟨t, r, begins⟩
    by_cases starts' : ∃ t r, c' = .data (.text t) r
    · obtain ⟨t', r', rfl⟩ := starts'
      exact (longer normal' apart same.symm).elim
    · rw [prependText_apart filled apart,
        prependText_apart filled fun t r begins => starts' ⟨t, r, begins⟩] at same
      exact (Content.data.inj same).2

/-- A piece is the first one, unless it is a text in front of another one. -/
theorem coalesce_data {d : Data} {rest : Content}
    (apart : ∀ s, d = .text s → s ≠ [] ∧ ∀ t r, rest.coalesce ≠ .data (.text t) r) :
    (Content.data d rest).coalesce = .data d rest.coalesce := by
  cases d with
  | text s => exact prependText_apart (apart s rfl).1 (apart s rfl).2
  | _ => rfl

theorem Normal.rest {d : Data} {c : Content} (normal : (Content.data d c).Normal) : c.Normal := by
  cases d with
  | text raw => exact normal.2.2
  | _ => exact normal

/-- Content that is written plainly can be told from its text, up to the runs of character data. -/
theorem coalesce_of_write {c c' : Content} (writable : c.Writable) (writable' : c'.Writable)
    (unique : c.AllTags Tag.Unique) (unique' : c'.AllTags Tag.Unique) (same : c.write = c'.write) :
    c.coalesce = c'.coalesce := by
  -- inside a tag, where nothing is taken for a byte order mark
  let tag : Tag := ⟨"a".toList, []⟩
  have inside {c : Content} (writable : c.Writable) (unique : c.AllTags Tag.Unique) :
      scanner.Reads (Content.element tag c .nil).write (.element tag c.coalesce .nil) ∧
        (Content.element tag c.coalesce .nil).AllTags Tag.Unique := by
    constructor
    · have lexical : tag.Lexical ∧ tag.QuoteFree := by decide
      exact scanner_lawful.written_tag (c := .element tag c .nil) ⟨⟨lexical.1, writable.tags, trivial⟩,
        ⟨lexical.2, writable.quotes, trivial⟩, writable.data, trivial⟩ rfl
    · exact ⟨List.nodup_nil, (coalesce_allTags _ c).mpr unique, trivial⟩
  obtain ⟨reads, uniqueInside⟩ := inside writable unique
  obtain ⟨reads', uniqueInside'⟩ := inside writable' unique'
  have written : (Content.element tag c .nil).write = (Content.element tag c' .nil).write := by
    simp only [write, same]
  rw [written] at reads
  have events : (Content.element tag c.coalesce .nil).events = (Content.element tag c'.coalesce .nil).events :=
    stream_inj (reads.symm.trans reads')
  have read {d : Content} (unique : d.AllTags Tag.Unique) :
      SoapServer.Tree.readContent (d.events.length + 1) d.events = some (d, []) := by
    have found := SoapServer.Tree.readContent_events unique (Nat.lt_succ_self d.events.length) (.inl rfl)
    rwa [List.append_nil] at found
  have found := read uniqueInside
  rw [events, read uniqueInside'] at found
  injection (Prod.mk.inj (Option.some.inj found)).1 with _ content _
  exact content.symm

end Markup.Content

namespace SoapServer.Crossref

open Markup hiding localName

variable {masks : List MaskRule} {path : List Text} {c c' : Content}

/-- What a mask may stand for. -/
def IsFragment : Data → Prop
  | .text _ | .cdata _ => True
  | .generalRef _ | .comment _ | .pi _ | .decl _ | .docType _ => False

/-- Two documents that differ at most in the order of attributes and in fragments that are masked. -/
inductive Unchanged (masks : List MaskRule) : List Text → Content → Content → Prop
  | nil {path : List Text} : Unchanged masks path .nil .nil
  | data {path : List Text} {d : Data} {c c' : Content} (more : Unchanged masks path c c') :
    Unchanged masks path (.data d c) (.data d c')
  | fragment {path : List Text} {d d' : Data} {c c' : Content} (isMasked : masked masks path = true)
    (first : IsFragment d) (second : IsFragment d') (more : Unchanged masks path c c') :
    Unchanged masks path (.data d c) (.data d' c')
  | empty {path : List Text} {name : Text} {attributes attributes' : List Attribute} {c c' : Content}
    (sameAttributes : attributes.Perm attributes') (more : Unchanged masks path c c') :
    Unchanged masks path (.empty ⟨name, attributes⟩ c) (.empty ⟨name, attributes'⟩ c')
  | element {path : List Text} {name : Text} {attributes attributes' : List Attribute}
    {kids kids' c c' : Content}
    (sameAttributes : attributes.Perm attributes')
    (inner : Unchanged masks (path ++ [localNameStr name]) kids kids')
    (more : Unchanged masks path c c') :
    Unchanged masks path (.element ⟨name, attributes⟩ kids c) (.element ⟨name, attributes'⟩ kids' c')

/-- A document that is written plainly, with its runs of character data as the reader reports them. -/
structure Plain (reader : RawReader) (xml : Text) (events : List RawEvent) (c : Content) : Prop
    extends Reports reader xml events c where
  normal : c.Normal
  quotes : c.AllTags Tag.QuoteFree
  data : c.AllData Data.Lexical

/-! The document that is written. -/

def normalPiece (masks : List MaskRule) (path : List Text) : Data → Data
  | .text raw => .text (if masked masks path then maskSentinel else raw)
  | .cdata raw => if masked masks path then .text maskSentinel else .cdata raw
  | other => other

def normalForm (masks : List MaskRule) : List Text → Content → Content
  | _, .nil => .nil
  | path, .data d rest => .data (normalPiece masks path d) (normalForm masks path rest)
  | path, .empty tag rest => .empty (sortedTag tag) (normalForm masks path rest)
  | path, .element tag kids rest =>
    .element (sortedTag tag) (normalForm masks (path ++ [localNameStr tag.name]) kids)
      (normalForm masks path rest)

theorem normalPiece_hidden {d : Data} (isMasked : masked masks path = true)
    (fragment : IsFragment d) :
    normalPiece masks path d = .text maskSentinel := by
  cases d with
  | text raw => exact congrArg Data.text (if_pos isMasked)
  | cdata raw => exact if_pos isMasked
  | _ => exact fragment.elim

theorem normalPiece_shown {d : Data} (shown : masked masks path = true → ¬ IsFragment d) :
    normalPiece masks path d = d := by
  cases d with
  | text raw => exact congrArg Data.text (if_neg fun isMasked => shown isMasked trivial)
  | cdata raw => exact if_neg fun isMasked => shown isMasked trivial
  | _ => rfl

theorem normalPiece_write (d : Data) :
    (normalPiece masks path d).write = normalData masks path d := by
  cases d with
  | text raw | cdata raw =>
    simp only [normalPiece, normalData]
    split <;> rfl
  | _ => rfl

theorem normalForm_write (c : Content) :
    (normalForm masks path c).write = normalText masks path c := by
  induction c generalizing path with
  | nil => rfl
  | data d rest ih => rw [normalForm, Content.write, normalText, normalPiece_write, ih]
  | empty tag rest ih => rw [normalForm, write_empty, normalText, ih]
  | element tag kids rest kidsIH restIH => rw [normalForm, write_element, normalText, kidsIH, restIH]; rfl

theorem tags_of_denotes {events : List RawEvent} (denotes : Denotes events c) :
    c.AllTags fun tag => tag.Lexical ∧ tag.Unique := by
  induction denotes with
  | nil => trivial
  | data _ _ ih => exact ih
  | empty text _ ih => exact ⟨⟨Wsdl.tagText_lexical text, text.unique⟩, ih⟩
  | element text _ _ _ innerIH moreIH => exact ⟨⟨Wsdl.tagText_lexical text, text.unique⟩, innerIH, moreIH⟩

theorem perm_sortByKey (attributes : List Attribute) : (sortByKey attributes).Perm attributes :=
  List.perm_insertionSort _ _

theorem sortByKey_sorted (attributes : List Attribute) :
    (sortByKey attributes).Pairwise fun a b => a.key ≤ b.key :=
  have : Std.Total fun a b : Attribute => a.key ≤ b.key := ⟨fun a b => le_total a.key b.key⟩
  have : IsTrans Attribute fun a b => a.key ≤ b.key := ⟨fun _ _ _ => le_trans⟩
  List.pairwise_insertionSort _ _

/-- Attributes of different names are sorted alike exactly when they are the same ones. -/
theorem sortByKey_eq_iff {attributes attributes' : List Attribute}
    (unique : (attributes.map (·.key)).Nodup) :
    sortByKey attributes = sortByKey attributes' ↔ attributes.Perm attributes' := by
  have sorted := perm_sortByKey attributes
  have sorted' := perm_sortByKey attributes'
  constructor
  · intro same
    exact sorted.symm.trans (same ▸ sorted')
  · intro perm
    apply List.Perm.eq_of_pairwise _ (sortByKey_sorted _) (sortByKey_sorted _)
      (sorted.trans (perm.trans sorted'.symm))
    intro a b member member' before after
    have among := sorted.mem_iff.mp member
    have among' := perm.mem_iff.mpr (sorted'.mem_iff.mp member')
    exact List.inj_on_of_nodup_map unique among among' (le_antisymm before after)

theorem sortedTag_eq_iff {name name' : Text} {attributes attributes' : List Attribute}
    (unique : (⟨name, attributes⟩ : Tag).Unique) :
    sortedTag ⟨name, attributes⟩ = sortedTag ⟨name', attributes'⟩ ↔
      name = name' ∧ attributes.Perm attributes' := by
  rw [sortedTag, sortedTag, Tag.mk.injEq, sortByKey_eq_iff unique]

theorem normalForm_allTags {P : Tag → Prop} (sorts : ∀ tag, P tag → P (sortedTag tag))
    (all : c.AllTags P) :
    (normalForm masks path c).AllTags P := by
  induction c generalizing path with
  | nil => trivial
  | data d rest ih => exact ih all
  | empty tag rest ih => exact ⟨sorts tag all.1, ih all.2⟩
  | element tag kids rest kidsIH restIH => exact ⟨sorts tag all.1, kidsIH all.2.1, restIH all.2.2⟩

theorem normalPiece_lexical {d : Data} (lexical : d.Lexical) :
    (normalPiece masks path d).Lexical := by
  have sentinel : (Data.text maskSentinel).Lexical := by decide
  cases d with
  | text raw | cdata raw =>
    simp only [normalPiece]
    split
    · exact sentinel
    · exact lexical
  | _ => exact lexical

theorem normalForm_lexical (lexical : c.AllData Data.Lexical) :
    (normalForm masks path c).AllData Data.Lexical := by
  induction c generalizing path with
  | nil => trivial
  | data d rest ih => exact ⟨normalPiece_lexical lexical.1, ih lexical.2⟩
  | empty tag rest ih => exact ih lexical
  | element tag kids rest kidsIH restIH => exact ⟨kidsIH lexical.1, restIH lexical.2⟩

theorem Plain.unique {reader : RawReader} {xml : Text} {events : List RawEvent}
    (plain : Plain reader xml events c) :
    c.AllTags Tag.Unique :=
  (tags_of_denotes plain.denotes).mono fun _ tag => tag.2

theorem unique_sortedTag (tag : Tag) (unique : tag.Unique) : (sortedTag tag).Unique :=
  ((perm_sortByKey tag.attributes).map _).nodup_iff.mpr unique

theorem Plain.normalForm_writable {reader : RawReader} {xml : Text} {events : List RawEvent}
    (plain : Plain reader xml events c) : (normalForm masks path c).Writable where
  tags := normalForm_allTags
    (fun _ lexical => ⟨lexical.1, fun a member => lexical.2 a ((perm_sortByKey _).mem_iff.mp member)⟩)
    ((tags_of_denotes plain.denotes).mono fun _ tag => tag.1)
  quotes := normalForm_allTags
    (fun _ free a member => free a ((perm_sortByKey _).mem_iff.mp member)) plain.quotes
  data := normalForm_lexical plain.data

/-! Documents from their normal forms. -/

theorem Unchanged.normalForm (unchanged : Unchanged masks path c c')
    (unique : c.AllTags Tag.Unique) :
    normalForm masks path c = normalForm masks path c' := by
  induction unchanged with
  | nil => rfl
  | data _ ih => exact congrArg (Content.data _) (ih unique)
  | fragment isMasked first second _ ih =>
    rw [Crossref.normalForm, Crossref.normalForm, normalPiece_hidden isMasked first,
      normalPiece_hidden isMasked second, ih unique]
  | empty same _ ih =>
    rw [Crossref.normalForm, Crossref.normalForm, (sortedTag_eq_iff unique.1).mpr ⟨rfl, same⟩,
      ih unique.2]
  | element same _ _ innerIH moreIH =>
    rw [Crossref.normalForm, Crossref.normalForm, (sortedTag_eq_iff unique.1).mpr ⟨rfl, same⟩,
      innerIH unique.2.1, moreIH unique.2.2]

/-- Where nothing is masked, no text comes to stand in front of another one. -/
theorem normalForm_apart (shown : masked masks path ≠ true) (apart : ∀ t r, c ≠ .data (.text t) r) :
    ∀ t r, (normalForm masks path c).coalesce ≠ .data (.text t) r := by
  intro t r begins
  cases c with
  | nil | empty | element => cases begins
  | data d rest =>
    have notText : ∀ s, d ≠ .text s := fun s isText =>
      apart s rest (congrArg (Content.data · rest) isText)
    rw [normalForm, normalPiece_shown fun isMasked => absurd isMasked shown,
      Content.coalesce_data fun s isText => absurd isText (notText s)] at begins
    exact notText t (Content.data.inj begins).1

/-- Data comes first where it came first. -/
theorem normalForm_data (masks : List MaskRule) (path : List Text) {d : Data}
    (normal : (Content.data d c).Normal) :
    ∃ e more, (normalForm masks path (.data d c)).coalesce = .data e more := by
  rw [normalForm]
  cases written : normalPiece masks path d with
  | text s =>
    have filled : s ≠ [] := by
      rintro rfl
      cases d with
      | text raw =>
        have texts := Data.text.inj written
        split at texts
        · cases texts
        · exact normal.1 texts
      | cdata raw =>
        simp only [normalPiece] at written
        split at written <;> cases written
      | _ => cases written
    obtain ⟨t, more, begins⟩ := Content.prependText_filled filled (normalForm masks path c).coalesce
    exact ⟨_, _, begins⟩
  | _ => exact ⟨_, _, rfl⟩

/-- What data comes to tells which data it was, and what stands behind it. -/
theorem unchanged_data {d d' : Data} (normal : (Content.data d c).Normal)
    (normal' : (Content.data d' c').Normal)
    (same : (normalForm masks path (.data d c)).coalesce = (normalForm masks path (.data d' c')).coalesce)
    (more : (normalForm masks path c).coalesce = (normalForm masks path c').coalesce →
      Unchanged masks path c c') :
    Unchanged masks path (.data d c) (.data d' c') := by
  rw [normalForm, normalForm] at same
  -- where both pieces stay as they are, they are the heads of what is written
  have heads (shown : masked masks path = true → ¬ IsFragment d)
      (shown' : masked masks path = true → ¬ IsFragment d') :
      Unchanged masks path (.data d c) (.data d' c') := by
    have head {d : Data} {c : Content} (normal : (Content.data d c).Normal)
        (shown : masked masks path = true → ¬ IsFragment d) :
        (Content.data (normalPiece masks path d) (normalForm masks path c)).coalesce =
          .data d (normalForm masks path c).coalesce := by
      rw [normalPiece_shown shown]
      apply Content.coalesce_data
      rintro s rfl
      exact ⟨normal.1, normalForm_apart (fun isMasked => shown isMasked trivial) normal.2.1⟩
    rw [head normal shown, head normal' shown'] at same
    obtain ⟨rfl, rests⟩ := Content.data.inj same
    exact .data (more rests)
  -- a sentinel is a text, and no piece that stays as it is under a mask is one
  have sentinel {d d' : Data} {c c' : Content} (isMasked : masked masks path = true)
      (fragment : IsFragment d) (other : ¬ IsFragment d')
      (same : (Content.data (normalPiece masks path d) (normalForm masks path c)).coalesce =
        (Content.data (normalPiece masks path d') (normalForm masks path c')).coalesce) : False := by
    have notText : ∀ s, d' ≠ .text s := by
      rintro s rfl
      exact other trivial
    obtain ⟨t, after, begins⟩ :=
      Content.prependText_filled (show maskSentinel ≠ [] by decide) (normalForm masks path c).coalesce
    rw [normalPiece_hidden isMasked fragment, normalPiece_shown fun _ => other,
      Content.coalesce_data fun s isText =>
        absurd isText (notText s), Content.coalesce, begins] at same
    exact notText t (Content.data.inj same).1.symm
  by_cases isMasked : masked masks path = true
  · by_cases first : IsFragment d <;> by_cases second : IsFragment d'
    · rw [normalPiece_hidden isMasked first, normalPiece_hidden isMasked second] at same
      exact .fragment isMasked first second (more (Content.prependText_inj (by decide)
        (Content.coalesce_normal _) (Content.coalesce_normal _) same))
    · exact (sentinel isMasked first second same).elim
    · exact (sentinel isMasked second first same.symm).elim
    · exact heads (fun _ => first) (fun _ => second)
  · exact heads (fun yes => absurd yes isMasked) (fun yes => absurd yes isMasked)

/-- Documents are unchanged where their normal forms are written alike. -/
theorem unchanged_of_normalForm (normal : c.Normal) (normal' : c'.Normal)
    (unique : c.AllTags Tag.Unique)
    (same : (normalForm masks path c).coalesce = (normalForm masks path c').coalesce) :
    Unchanged masks path c c' := by
  -- on one normal form; the other one begins with the same event
  induction c generalizing path c' with
  | nil =>
    cases c' with
    | nil => exact .nil
    | data d' rest' =>
      obtain ⟨_, _, begins⟩ := normalForm_data masks path normal'
      rw [begins] at same
      cases same
    | empty | element => cases same
  | data d rest ih =>
    have begins := normalForm_data masks path normal
    cases c' with
    | nil | empty | element =>
      obtain ⟨_, _, begins⟩ := begins
      rw [begins] at same
      cases same
    | data d' rest' =>
      -- a masked text may be written alike without being the same
      exact unchanged_data normal normal' same (ih normal.rest normal'.rest unique)
  | empty tag rest ih =>
    cases c' with
    | nil | element => cases same
    | data d' rest' =>
      obtain ⟨_, _, begins⟩ := normalForm_data masks path normal'
      rw [begins] at same
      cases same
    | empty tag' rest' =>
      obtain ⟨tags, rests⟩ := Content.empty.inj same
      obtain ⟨name, attributes⟩ := tag
      obtain ⟨name', attributes'⟩ := tag'
      obtain ⟨rfl, perm⟩ := (sortedTag_eq_iff unique.1).mp tags
      exact .empty perm (ih normal normal' unique.2 rests)
  | element tag kids rest kidsIH restIH =>
    cases c' with
    | nil | empty => cases same
    | data d' rest' =>
      obtain ⟨_, _, begins⟩ := normalForm_data masks path normal'
      rw [begins] at same
      cases same
    | element tag' kids' rest' =>
      obtain ⟨tags, inner, rests⟩ := Content.element.inj same
      obtain ⟨name, attributes⟩ := tag
      obtain ⟨name', attributes'⟩ := tag'
      obtain ⟨rfl, perm⟩ := (sortedTag_eq_iff unique.1).mp tags
      exact .element perm (kidsIH normal.1 normal'.1 unique.2.1 inner)
        (restIH normal.2 normal'.2 unique.2.2 rests)

/-! The comparison. -/

section

variable {reader : RawReader} {xml xml' : Text} {events events' : List RawEvent}

/-- Two answers are frozen as one text exactly when they are one document, apart from the order of the
attributes in each tag and from the fragments that are masked. -/
theorem same_frozen_iff (masks : List MaskRule) (plain : Plain reader xml events c)
    (plain' : Plain reader xml' events' c') :
    normalize reader xml masks = normalize reader xml' masks ↔ Unchanged masks [] c c' := by
  rw [normalize_document plain.toReports, normalize_document plain'.toReports, Except.ok.injEq,
    ← normalForm_write, ← normalForm_write]
  constructor
  · intro same
    have unique {c : Content} (unique : c.AllTags Tag.Unique) :
        (normalForm masks [] c).AllTags Tag.Unique :=
      normalForm_allTags unique_sortedTag unique
    exact unchanged_of_normalForm plain.normal plain'.normal plain.unique
      (Content.coalesce_of_write plain.normalForm_writable plain'.normalForm_writable (unique plain.unique)
        (unique plain'.unique) same)
  · intro unchanged
    rw [unchanged.normalForm plain.unique]

end

end SoapServer.Crossref
