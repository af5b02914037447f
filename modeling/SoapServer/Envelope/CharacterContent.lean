import SoapServer.Envelope.FragmentNames

/-! The character content of the extracted fragments.

A copy keeps text and references and drops CDATA sections, so it has the content of the
original exactly when every section in it is empty.
-/

set_option autoImplicit false

namespace Markup

/-- The decoded character data of a forest: a run before each element, and one at the end. -/
inductive CharTree where
  | stop (tail : Text)
  | element (before name : Text) (kids rest : CharTree)
  deriving DecidableEq

namespace CharTree

def prepend (s : Text) : CharTree → CharTree
  | .stop tail => .stop (s ++ tail)
  | .element before name kids rest => .element (s ++ before) name kids rest

/-- The number of characters. -/
def size : CharTree → Nat
  | .stop tail => tail.length
  | .element before _ kids rest => before.length + kids.size + rest.size

theorem prepend_append (s t : Text) (tree : CharTree) :
    tree.prepend (s ++ t) = (tree.prepend t).prepend s := by
  cases tree <;> simp [prepend]

theorem prepend_nil (tree : CharTree) : tree.prepend [] = tree := by
  cases tree <;> rfl

theorem prepend_injective (s : Text) {a b : CharTree} (same : a.prepend s = b.prepend s) :
    a = b := by
  cases a <;> cases b <;> simp_all [prepend]

theorem size_prepend (s : Text) (tree : CharTree) :
    (tree.prepend s).size = s.length + tree.size := by
  cases tree <;> simp [prepend, size]
  omega

end CharTree

/-- What a piece of character data stands for; `deref` decodes references. -/
def Data.decode (deref : Text → Text) : Data → Text
  | .text raw | .cdata raw => raw
  | .generalRef name => deref name
  | .comment _ | .pi _ | .decl _ | .docType _ => []

def Content.charTree (deref : Text → Text) : Content → CharTree
  | .nil => .stop []
  | .data d rest => (rest.charTree deref).prepend (d.decode deref)
  | .empty tag rest => .element [] tag.name (.stop []) (rest.charTree deref)
  | .element tag kids rest => .element [] tag.name (kids.charTree deref) (rest.charTree deref)

/-- Not a section with characters in it. -/
def Data.NoSection : Data → Prop
  | .cdata raw => raw = []
  | _ => True

instance : (d : Data) → Decidable d.NoSection
  | .cdata raw => inferInstanceAs (Decidable (raw = []))
  | .text _ | .generalRef _ | .comment _ | .pi _ | .decl _ | .docType _ => inferInstanceAs (Decidable True)

variable (deref : Text → Text)

theorem Content.charTree_prependText (s : Text) (c : Content) :
    (prependText s c).charTree deref = (c.charTree deref).prepend s := by
  unfold prependText
  split
  · exact CharTree.prepend_append _ _ _
  · split
    · next empty => rw [empty, CharTree.prepend_nil]
    · rfl

theorem Content.charTree_coalesce (c : Content) : c.coalesce.charTree deref = c.charTree deref := by
  induction c with
  | nil => rfl
  | data d rest ih =>
    cases d with
    | text s =>
      rw [coalesce, charTree_prependText, ih]
      rfl
    | _ => simp only [coalesce, charTree, ih]
  | empty tag rest ih => simp only [coalesce, charTree, ih]
  | element tag kids rest kidsIH restIH => simp only [coalesce, charTree, kidsIH, restIH]

theorem Content.size_kept_le (c : Content) :
    (c.kept.charTree deref).size ≤ (c.charTree deref).size := by
  induction c with
  | nil => exact le_rfl
  | data d rest ih =>
    cases d <;> simp only [kept, charTree, CharTree.size_prepend] <;> omega
  | empty tag rest ih => simpa [kept, charTree, CharTree.size] using ih
  | element tag kids rest kidsIH restIH =>
    simp only [kept, charTree, CharTree.size]
    omega

/-- A copy has the characters of the original exactly when no section has any. -/
theorem Content.charTree_kept_iff (c : Content) :
    c.kept.charTree deref = c.charTree deref ↔ c.AllData Data.NoSection := by
  induction c with
  | nil => simp [kept, AllData]
  | data d rest ih =>
    cases d with
    | text raw =>
      simp only [kept, charTree, AllData, Data.NoSection, true_and, ← ih]
      exact ⟨CharTree.prepend_injective _, congrArg _⟩
    | generalRef name =>
      simp only [kept, charTree, AllData, Data.NoSection, true_and, ← ih]
      exact ⟨CharTree.prepend_injective _, congrArg _⟩
    | cdata raw =>
      simp only [kept, charTree, AllData, Data.NoSection, Data.decode, ← ih]
      constructor
      · intro same
        -- a section with characters would make the original larger than its copy
        have smaller := rest.size_kept_le deref
        rw [same, CharTree.size_prepend] at smaller
        obtain rfl : raw = [] := List.length_eq_zero_iff.mp (by omega)
        exact ⟨rfl, by rw [same, CharTree.prepend_nil]⟩
      · rintro ⟨rfl, same⟩
        rw [same, CharTree.prepend_nil]
    | _ => simp only [kept, charTree, AllData, Data.NoSection, Data.decode, CharTree.prepend_nil, true_and, ih]
  | empty tag rest ih =>
    simp only [kept, charTree, AllData, CharTree.element.injEq, true_and, ih]
  | element tag kids rest kidsIH restIH =>
    simp only [kept, charTree, AllData, CharTree.element.injEq, true_and, kidsIH, restIH]

/-- The end of a forest: no event, or a closing tag. -/
def Ends (events : List Event) : Prop := ∀ event ∈ events.head?, ∃ name, event = .close name

theorem ends_close (name : Text) (rest : List Event) : Ends (.close name :: rest) := by
  rintro event ⟨⟩
  exact ⟨name, rfl⟩

/-- The events of a forest tell its characters, and where it ends. -/
theorem Content.charTree_of_events (a b : Content) {after rest : List Event} (ends : Ends after)
    (endsToo : Ends rest) (same : a.events ++ after = b.events ++ rest) :
    a.charTree deref = b.charTree deref ∧ after = rest := by
  -- event by event; a forest ends where the other does, as what follows begins with an end tag
  induction a generalizing b after rest with
  | nil =>
    cases b with
    | nil => exact ⟨rfl, same⟩
    | _ =>
      obtain rfl : after = _ := same
      obtain ⟨name, wrong⟩ := ends _ rfl
      cases wrong
  | data d more ih =>
    cases b with
    | data d' more' =>
      simp only [events, List.cons_append, List.cons.injEq, Event.data.injEq] at same
      obtain ⟨rfl, same⟩ := same
      obtain ⟨tree, tail⟩ := ih more' ends endsToo same
      exact ⟨by rw [charTree, charTree, tree], tail⟩
    | nil =>
      obtain rfl : _ = rest := same
      obtain ⟨name, wrong⟩ := endsToo _ rfl
      cases wrong
    | _ => cases same
  | empty tag more ih =>
    cases b with
    | empty tag' more' =>
      simp only [events, List.cons_append, List.cons.injEq, Event.empty.injEq] at same
      obtain ⟨tags, same⟩ := same
      obtain ⟨tree, tail⟩ := ih more' ends endsToo same
      exact ⟨by rw [charTree, charTree, tree, show tag.name = tag'.name from congrArg ReadTag.name tags], tail⟩
    | nil =>
      obtain rfl : _ = rest := same
      obtain ⟨name, wrong⟩ := endsToo _ rfl
      cases wrong
    | _ => cases same
  | element tag kids more kidsIH restIH =>
    cases b with
    | element tag' kids' more' =>
      simp only [events, List.cons_append, List.cons.injEq, Event.start.injEq, List.append_assoc] at same
      obtain ⟨tags, same⟩ := same
      -- the end tag closes both at once
      obtain ⟨inner, rest'⟩ := kidsIH kids' (ends_close _ _) (ends_close _ _) same
      obtain ⟨tree, tail⟩ := restIH more' ends endsToo (List.cons.inj rest').2
      exact ⟨by rw [charTree, charTree, inner, tree, show tag.name = tag'.name from congrArg ReadTag.name tags],
        tail⟩
    | nil =>
      obtain rfl : _ = rest := same
      obtain ⟨name, wrong⟩ := endsToo _ rfl
      cases wrong
    | _ => cases same

end Markup

namespace SoapServer.Envelope

open Markup

/-- A text is one element with the character content of `el`. -/
def SameCharacters (ext : Externals) (deref : Text → Text) (text : Text) (el : Element) : Prop :=
  ∃ root : Element, ext.xml.Reads text root.alone ∧ root.alone.charTree deref = el.alone.charTree deref

structure KeepsCharacters (ext : Externals) (deref : Text → Text) (m : Message)
    (parsed : ParsedEnvelope) :
    Prop where
  headers : List.Forall₂ (SameCharacters ext deref) parsed.headerChildren m.headerParts
  body : SameCharacters ext deref parsed.bodyElement m.first

theorem fragment_charTree_iff (deref : Text → Text) (bindings : Scope) (el : Element) :
    (fragment bindings el).alone.charTree deref = el.alone.charTree deref ↔ el.AllData Data.NoSection := by
  rcases el with ⟨tag, _ | kids⟩
  · simp [fragment, Element.alone, Content.charTree, Element.AllData]
  · simp [fragment, Element.alone, Content.charTree, Element.AllData, kids.charTree_kept_iff]

/-- A fragment has the characters of its element exactly when no section in it has any. -/
theorem fragment_sameCharacters_iff {ext : Externals} (lawful : ext.xml.Lawful)
    (deref : Text → Text) {m : Message} (sound : m.document.Sound) (quotes : QuoteFree m)
    {pair : Tag × Element} (member : pair ∈ m.extracted) :
    SameCharacters ext deref (fragment (m.bindings pair.1) pair.2).write pair.2 ↔
      pair.2.AllData Data.NoSection := by
  have own := fragment_reads lawful sound quotes member
  rw [← fragment_charTree_iff deref (m.bindings pair.1)]
  have nothing : Ends [] := fun _ head => by cases head
  constructor
  · rintro ⟨root, reads, same⟩
    have events := stream_inj (reads.symm.trans own)
    have trees := (root.alone.charTree_of_events deref _ nothing nothing (congrArg (· ++ []) events)).1
    rw [← same, trees, Content.charTree_coalesce]
  · intro same
    refine ⟨⟨(fragment (m.bindings pair.1) pair.2).tag, _⟩, alone_coalesce _ ▸ own, ?_⟩
    rw [← alone_coalesce, Content.charTree_coalesce, same]

/-- Among messages whose values stand between double quotes, the fragments keep their
characters exactly when every CDATA section copied is empty. -/
theorem fragments_keep_characters_iff {ext : Externals} (lawful : ext.xml.Lawful)
    (deref : Text → Text) (m : Message) {input : Text} (reads : ext.xml.Reads input m.document)
    {doctypes : Text → Option Entities} (wellFormed : m.WellFormed doctypes)
    (quotes : QuoteFree m) :
    (∃ parsed, parseEnvelope ext input = .ok parsed ∧ KeepsCharacters ext deref m parsed) ↔
      ∀ pair ∈ m.extracted, pair.2.AllData Data.NoSection := by
  have sound := wellFormed.sound
  have parses := parseEnvelope_sound lawful m reads sound
  have each (pair) (member : pair ∈ m.extracted) :=
    fragment_sameCharacters_iff lawful deref sound quotes member
  constructor
  · rintro ⟨parsed, result, keeps⟩
    obtain rfl := Except.ok.inj (parses.symm.trans result)
    have headers := List.forall₂_same.mp (List.forall₂_map_left_iff.mp keeps.headers)
    have same : ∀ pair ∈ m.extracted, SameCharacters ext deref (fragment (m.bindings pair.1) pair.2).write pair.2 :=
      Message.forall_extracted.mpr ⟨headers, keeps.body⟩
    exact fun pair member => (each pair member).mp (same pair member)
  · intro bare
    have same : ∀ pair ∈ m.extracted, SameCharacters ext deref (fragment (m.bindings pair.1) pair.2).write pair.2 :=
      fun pair member => (each pair member).mpr (bare pair member)
    obtain ⟨headers, body⟩ := Message.forall_extracted.mp same
    exact ⟨_, parses, List.forall₂_map_left_iff.mpr (List.forall₂_same.mpr headers), body⟩

/-- Every fragment of every message keeps its characters. -/
def FragmentsKeepCharacters (ext : Externals) (doctypes : Text → Option Entities)
    (deref : Text → Text) : Prop :=
  ∀ (m : Message) (input : Text), ext.xml.Reads input m.document → m.WellFormed doctypes →
    ∃ parsed, parseEnvelope ext input = .ok parsed ∧ KeepsCharacters ext deref m parsed

theorem order_keeps_characters :
    ∃ parsed, parseEnvelope .scanning order.document.write = .ok parsed ∧ KeepsCharacters .scanning id order parsed :=
  (fragments_keep_characters_iff Externals.scanning_lawful id order order_reads order_wellFormed
    (by decide +kernel)).mpr (by decide +kernel)

/-- The body of the message holds one element with the section `x` in it. -/
def withSection : Message where
  version := .soap12
  prolog := .nil
  envelope := envelopeTag
  kids := .element ⟨"s:Body".toList, []⟩ (.element operationTag (.data (.cdata ['x']) .nil) .nil) .nil
  epilog := .nil
  header := none
  body := ⟨"s:Body".toList, []⟩
  bodyKids := .element operationTag (.data (.cdata ['x']) .nil) .nil
  first := ⟨operationTag, some (.data (.cdata ['x']) .nil)⟩
  bare := Content.elements_nil
  named := envelopeTag_named
  headers := by decide +kernel
  bodies := by decide +kernel
  firstChild := rfl

/-- A section in the body is lost. -/
theorem withSection_lost : ¬ FragmentsKeepCharacters .scanning noDoctypes id := by
  intro keeps
  have reads : scanner.Reads withSection.document.write withSection.document :=
    scanner_lawful.written_tag (c := withSection.document) (by decide +kernel) (by decide +kernel)
  have wellFormed : withSection.WellFormed noDoctypes :=
    wellFormedDocument_plain _ rfl (by decide +kernel) rfl (by decide +kernel) (by decide +kernel)
  have sound := wellFormed.sound
  have member : (withSection.body, withSection.first) ∈ withSection.extracted := by
    simp [Message.extracted]
  have quotes : QuoteFree withSection := by decide +kernel
  obtain ⟨parsed, result, kept⟩ := keeps withSection _ reads wellFormed
  have parses := parseEnvelope_sound Externals.scanning_lawful withSection reads sound
  obtain rfl := Except.ok.inj (parses.symm.trans result)
  have bare := (fragment_sameCharacters_iff Externals.scanning_lawful id sound quotes member).mp kept.body
  cases (bare _ rfl).1

end SoapServer.Envelope
