import SoapServer.Envelope.Parser

/-! What the loops of the envelope parser compute on the events of a document tree.

Each loop is compared with a function on the tree: `kept` for what is copied below the
root of a fragment, `Element.fragment` for a whole fragment, `scanParts` for the children
of the envelope.
-/

set_option autoImplicit false

namespace Markup

/-- What a copy keeps: tags, character data and references. -/
def Content.kept : Content → Content
  | .nil => .nil
  | .data (.text raw) rest => .data (.text raw) rest.kept
  | .data (.generalRef name) rest => .data (.generalRef name) rest.kept
  | .data _ rest => rest.kept
  | .empty tag rest => .empty tag rest.kept
  | .element tag kids rest => .element tag kids.kept rest.kept

/-- The first element of a forest, and what follows it. -/
def Content.firstElement : Content → Option (Element × Content)
  | .nil => none
  | .data _ rest => rest.firstElement
  | .empty tag rest => some (⟨tag, none⟩, rest)
  | .element tag kids rest => some (⟨tag, some kids⟩, rest)

theorem Content.firstElement_eq_head (c : Content) :
    c.firstElement.map Prod.fst = c.elements.head? := by
  induction c with
  | nil => rfl
  | data d rest ih => exact ih
  | empty tag rest => rfl
  | element tag kids rest => rfl

def Element.write (el : Element) : Text := el.alone.write

@[simp] theorem Tag.read_name (tag : Tag) : tag.read.name = tag.name := rfl

end Markup

namespace SoapServer.Envelope

open Markup

/-- The bindings in scope at the root of a fragment that it does not declare itself. -/
def inherited (bindings : Scope) (el : Element) : Scope :=
  bindings.filter fun binding => binding.1 ∉ (declarations el.tag.attributes).map Prod.fst

/-- The attributes that declare bindings. -/
def bindingAttributes (bindings : Scope) : List Attribute :=
  bindings.map fun binding => ⟨bindingKey binding.1, binding.2⟩

/-- The fragment for an element: its inherited bindings declared on the root, and its
content as copied. -/
def fragment (bindings : Scope) (el : Element) : Element :=
  ⟨⟨el.tag.name, bindingAttributes (inherited bindings el) ++ el.tag.attributes⟩,
    el.kids.map Content.kept⟩

/-- The declared prefixes of a tag are names without a colon, and only `xmlns` declares
the empty one. -/
def PrefixesPlain (tag : Tag) : Prop :=
  ∀ a ∈ tag.attributes, ∀ p, a.declares = some p → ':' ∉ p ∧ (p = [] → a.key = xmlns)

/-! Tags. -/

theorem validAttributes_some (attributes : List Attribute) :
    validAttributes (attributes.map some) = .ok attributes := by
  induction attributes with
  | nil => rfl
  | cons a rest ih => rw [List.map_cons, validAttributes, ih, bind_ok]

theorem trimStartMatches_key {p : Text} (plain : ':' ∉ p) :
    trimStartMatches xmlnsColon (xmlnsColon ++ p) = p := by
  have stop : ∀ fuel, trimPrefix xmlnsColon fuel p = p := by
    intro fuel
    cases fuel with
    | zero => rfl
    | succ fuel =>
      rw [trimPrefix]
      cases match_ : stripPrefix xmlnsColon p with
      | none => rfl
      | some rest =>
        rw [stripPrefix_eq_some] at match_
        exact absurd (match_ ▸ List.mem_append_left _ (by decide)) plain
  rw [trimStartMatches, show (xmlnsColon ++ p).length = (p.length + 5) + 1 from by
    rw [List.length_append]; exact Nat.add_comm 6 p.length, trimPrefix, stripPrefix_append]
  exact stop _

/-- On such a tag the code's bindings are its declarations. -/
theorem collectBindings_eq {attributes : List Attribute}
    (plain : ∀ a ∈ attributes, ∀ p, a.declares = some p → ':' ∉ p) :
    collectBindings attributes = declarations attributes := by
  unfold collectBindings declarations
  apply List.filterMap_congr
  intro a member
  by_cases whole : a.key = xmlns
  · have notPrefixed : stripPrefix xmlnsColon a.key = none := by rw [whole]; decide
    have declares : a.declares = some [] := if_pos whole
    rw [if_neg (by simp [notPrefixed]), if_pos whole, declares]
    rfl
  · have declares : a.declares = stripPrefix xmlnsColon a.key := if_neg whole
    cases found : stripPrefix xmlnsColon a.key with
    | none => simp [whole, declares, found]
    | some p =>
      have noColon := plain a member p (declares.trans found)
      rw [stripPrefix_eq_some] at found
      simp [declares, found, trimStartMatches_key noColon]

theorem bindingKey_mem_iff {tag : Tag} (plain : PrefixesPlain tag) (p : Text) :
    bindingKey p ∈ tag.attributes.map (·.key) ↔ p ∈ (declarations tag.attributes).map Prod.fst := by
  have declared (a : Attribute) (member : a ∈ tag.attributes) : a.key = bindingKey p ↔ a.declares = some p := by
    by_cases whole : a.key = xmlns
    · have declares : a.declares = some [] := if_pos whole
      rw [declares, whole, bindingKey]
      by_cases empty : p = []
      · simp [empty]
      · have : xmlns ≠ xmlnsColon ++ p := by
          intro same
          have := congrArg List.length same
          simp [xmlns, xmlnsColon] at this
        simp [empty, this, Ne.symm empty]
    · have declares : a.declares = stripPrefix xmlnsColon a.key := if_neg whole
      rw [declares, stripPrefix_eq_some, bindingKey]
      by_cases empty : p = []
      · subst empty
        simp only [if_true, whole, List.append_nil, false_iff]
        intro same
        -- `xmlns:` without a prefix is no declaration of a plain tag
        have := (plain a member [] (by rw [declares, same]; rfl)).2 rfl
        exact whole this
      · simp [empty]
  simp only [List.mem_map, declarations, List.mem_filterMap, Option.map_eq_some_iff]
  constructor
  · rintro ⟨a, member, same⟩
    exact ⟨(p, a.value), ⟨a, member, p, (declared a member).mp same, rfl⟩, rfl⟩
  · rintro ⟨b, ⟨a, member, q, declares, rfl⟩, rfl⟩
    exact ⟨a, member, (declared a member).mpr declares⟩

/-! Emission. -/

theorem emitTag_eq (name : Text) (bindings : Scope) (attributes : List Attribute) (close : Text) :
    emitTag name bindings attributes close =
      '<' :: ((Tag.mk name (bindingAttributes bindings ++ attributes)).writeBody ++ close) := by
  simp only [emitTag, Tag.writeBody, bindingAttributes, List.flatMap_append, List.flatMap_map,
    List.append_assoc]
  rfl

theorem emitNested_read {tag : Tag} (unique : tag.Unique) (close : Text) :
    emitNested tag.read close = .ok ('<' :: (tag.writeBody ++ close)) := by
  rw [emitNested, Tag.read_of_unique unique, validAttributes_some, bind_ok, emitTag_eq]
  rfl

theorem emitBodyRoot_read (el : Element) (unique : el.tag.Unique) (plain : PrefixesPlain el.tag)
    (bindings : Scope) (close : Text) :
    emitBodyRoot bindings el.tag.read close = .ok ('<' :: ((fragment bindings el).tag.writeBody ++ close)) := by
  rw [emitBodyRoot, Tag.read_of_unique unique, validAttributes_some, bind_ok,
    collectBindings_eq fun a member p declares => (plain a member p declares).1]
  exact congrArg Except.ok (emitTag_eq _ _ _ _)

theorem emitHeaderRoot_read (el : Element) (unique : el.tag.Unique) (plain : PrefixesPlain el.tag)
    (bindings : Scope) (close : Text) :
    emitHeaderRoot bindings el.tag.read close = '<' :: ((fragment bindings el).tag.writeBody ++ close) := by
  rw [emitHeaderRoot, Tag.read_of_unique unique, reduceOption_some, emitTag_eq]
  simp only [bindingKey_mem_iff plain]
  rfl

/-! The loops, on the events of a forest. -/

theorem skipToEnd_content (c : Content) (scope : Scope) (depth : Nat) (rest : Events) :
    skipToEnd (depth + 1) (stream (c.resolved scope) ++ rest) = skipToEnd (depth + 1) rest := by
  induction c generalizing scope depth rest with
  | nil => rfl
  | data d more ih => exact ih scope depth rest
  | empty tag more ih => exact ih scope depth rest
  | element tag kids more kidsIH restIH =>
    simp only [Content.resolved, stream_cons, stream_append, List.cons_append, List.append_assoc,
      skipToEnd]
    rw [kidsIH _ (depth + 1), skipToEnd, if_neg (by omega)]
    exact restIH scope depth rest

/-- Below the root of the body element, what is kept goes to the buffer. -/
theorem copyBodyChild_content (c : Content) (unique : c.AllTags Tag.Unique) (scope : Scope)
    (depth : Nat) (buf : Text) (rest : Events) :
    copyBodyChild (depth + 1) buf (stream (c.resolved scope) ++ rest) =
      copyBodyChild (depth + 1) (buf ++ c.kept.write) rest := by
  induction c generalizing scope depth buf rest with
  | nil => simp [Content.resolved, Content.kept, Content.write]
  | data d more ih =>
    cases d <;>
      simp [Content.resolved, copyBodyChild, Content.kept, Content.write, Data.write,
        ih unique scope depth]
  | empty tag more ih =>
    simp [Content.resolved, copyBodyChild, emitNested_read unique.1, ih unique.2 scope depth,
      Content.kept, Content.write, selfClosingEnd]
  | element tag kids more kidsIH restIH =>
    simp only [Content.resolved, stream_cons, stream_append, List.cons_append, List.append_assoc,
      copyBodyChild, emitNested_read unique.1, bind_ok]
    rw [kidsIH unique.2.1 _ (depth + 1), copyBodyChild, if_neg (by omega)]
    simp [restIH unique.2.2 scope depth, Content.kept, Content.write, openEnd]

/-- Inside a header child, what is kept goes to the buffer. -/
theorem collectHeaderChildren_content (bindings : Scope) (c : Content)
    (unique : c.AllTags Tag.Unique) (scope : Scope) (depth : Nat) (buf : Text)
    (children : List Text) (rest : Events) :
    collectHeaderChildren bindings (depth + 1) buf children (stream (c.resolved scope) ++ rest) =
      collectHeaderChildren bindings (depth + 1) (buf ++ c.kept.write) children rest := by
  induction c generalizing scope depth buf rest with
  | nil => simp [Content.resolved, Content.kept, Content.write]
  | data d more ih =>
    cases d <;>
      simp [Content.resolved, collectHeaderChildren, Content.kept, Content.write, Data.write,
        ih unique scope depth]
  | empty tag more ih =>
    simp [Content.resolved, collectHeaderChildren, emitNested_read unique.1,
      ih unique.2 scope depth, Content.kept, Content.write, selfClosingEnd]
  | element tag kids more kidsIH restIH =>
    simp only [Content.resolved, stream_cons, stream_append, List.cons_append, List.append_assoc,
      collectHeaderChildren, emitNested_read unique.1, bind_ok, if_neg (Nat.succ_ne_zero depth)]
    rw [kidsIH unique.2.1 _ (depth + 1), collectHeaderChildren, if_neg (by omega),
      if_neg (by omega)]
    simp [restIH unique.2.2 scope depth, Content.kept, Content.write, openEnd]

/-- The tags at the roots of fragments, of which nothing is asked below. -/
def RootsPlain (c : Content) : Prop := ∀ el ∈ c.elements, PrefixesPlain el.tag

theorem fragment_write_empty (bindings : Scope) (tag : Tag) :
    (fragment bindings ⟨tag, none⟩).write = '<' :: ((fragment bindings ⟨tag, none⟩).tag.writeBody ++ selfClosingEnd) :=
  rfl

theorem fragment_write_element (bindings : Scope) (tag : Tag) (kids : Content) :
    (fragment bindings ⟨tag, some kids⟩).write =
      '<' :: ((fragment bindings ⟨tag, some kids⟩).tag.writeBody ++ (openEnd ++ (kids.kept.write ++ closeTag tag.name))) := by
  simp [Element.write, Element.alone, fragment, Content.write, openEnd]

/-- The header loop turns every child into its fragment. -/
theorem collectHeaderChildren_forest (bindings : Scope) (c : Content)
    (unique : c.AllTags Tag.Unique) (plain : RootsPlain c) (scope : Scope) (buf : Text)
    (children : List Text) (ns : ResolveResult) (name : Text) (rest : Events) :
    collectHeaderChildren bindings 0 buf children
        (stream (c.resolved scope) ++ .ok (ns, .close name) :: rest) =
      .ok (children ++ c.elements.map fun el => (fragment bindings el).write, rest) := by
  induction c generalizing buf children with
  | nil => simp [Content.resolved, collectHeaderChildren, Content.elements]
  | data d more ih =>
    cases d <;> simp [Content.resolved, collectHeaderChildren, ih unique plain, Content.elements]
  | empty tag more ih =>
    have root := emitHeaderRoot_read ⟨tag, none⟩ unique.1 (plain _ (by simp [Content.elements]))
      bindings selfClosingEnd
    have later : RootsPlain more := fun el member => plain el (List.mem_cons_of_mem _ member)
    simp [Content.resolved, collectHeaderChildren, root, ih unique.2 later, Content.elements,
      fragment_write_empty]
  | element tag kids more kidsIH restIH =>
    have root := emitHeaderRoot_read ⟨tag, some kids⟩ unique.1 (plain _ (by simp [Content.elements]))
      bindings openEnd
    have later : RootsPlain more := fun el member => plain el (List.mem_cons_of_mem _ member)
    simp only [Content.resolved, stream_cons, stream_append, List.cons_append, List.append_assoc,
      collectHeaderChildren, if_true, root]
    rw [collectHeaderChildren_content bindings kids unique.2.1 _ 0, collectHeaderChildren,
      if_neg (by omega), if_pos (by omega), restIH unique.2.2 later, Content.elements, List.map_cons,
      fragment_write_element]
    simp

/-- The body loop turns the first element into its fragment. -/
theorem extractBodyFirstChild_content (bindings : Scope) (c : Content)
    (unique : c.AllTags Tag.Unique) (plain : RootsPlain c) (scope : Scope) (ns : ResolveResult)
    (name : Text) (rest : Events) :
    extractBodyFirstChild bindings (stream (c.resolved scope) ++ .ok (ns, .close name) :: rest) =
      match c.firstElement with
      | some (el, more) => .ok ((fragment bindings el).write,
          stream (more.resolved scope) ++ .ok (ns, .close name) :: rest)
      | none => senderFault "Missing Body".toList := by
  induction c with
  | nil => rfl
  | data d more ih => exact ih unique plain
  | empty tag more ih =>
    have root := emitBodyRoot_read ⟨tag, none⟩ unique.1 (plain _ (by simp [Content.elements]))
      bindings selfClosingEnd
    simp only [Content.resolved, stream_cons, List.cons_append, extractBodyFirstChild, root,
      bind_ok]
    rfl
  | element tag kids more kidsIH restIH =>
    have root := emitBodyRoot_read ⟨tag, some kids⟩ unique.1 (plain _ (by simp [Content.elements]))
      bindings openEnd
    simp only [Content.resolved, stream_cons, stream_append, List.cons_append, List.append_assoc,
      extractBodyFirstChild, root, bind_ok]
    rw [copyBodyChild_content kids unique.2.1 _ 0, copyBodyChild, if_pos (by omega)]
    simp [Content.firstElement, fragment_write_element]

/-- The children of the envelope as the code classifies them. -/
def scanParts (bindings scope : Scope) :
    Content → List Text → Option Text → Outcome (List Text × Option Text)
  | .nil, headers, body => .ok (headers, body)
  | .data _ rest, headers, body | .empty _ rest, headers, body => scanParts bindings scope rest headers body
  | .element tag kids rest, headers, body =>
    let ns := resolveElement (scope.enter tag.attributes) tag.name
    let inner := declarations tag.attributes ++ bindings
    if isSoapNs ns ∧ localName tag.name = "Header".toList then
      scanParts bindings scope rest (kids.elements.map fun el => (fragment inner el).write) body
    else if isSoapNs ns ∧ localName tag.name = "Body".toList then
      match kids.firstElement with
      | some (el, _) => scanParts bindings scope rest headers (some (fragment inner el).write)
      | none => senderFault "Missing Body".toList
    else scanParts bindings scope rest headers body

/-- Every tag in sight of the parser declares plain prefixes. -/
def Plain (c : Content) : Prop := c.AllTags PrefixesPlain

theorem Plain.roots {c : Content} (plain : Plain c) : RootsPlain c := by
  intro el member
  exact (Content.AllTags.of_mem plain member).1

theorem collectNsFromAttrs_read {tag : Tag} (unique : tag.Unique) (plain : PrefixesPlain tag)
    (bindings : Scope) :
    collectNsFromAttrs tag.read bindings = declarations tag.attributes ++ bindings := by
  rw [collectNsFromAttrs, Tag.read_of_unique unique, reduceOption_some,
    collectBindings_eq fun a member p declares => (plain a member p declares).1]

theorem resolved_length_pos (tag : Tag) (kids rest : Content) (scope : Scope) :
    (rest.resolved scope).length + 1 ≤ ((Content.element tag kids rest).resolved scope).length := by
  simp [Content.resolved]
  omega

/-- The loop over the children of the envelope computes `scanParts`. -/
theorem scanEnvelope_content (bindings : Scope) (c : Content) (unique : c.AllTags Tag.Unique)
    (plain : Plain c) (scope : Scope) (fuel : Nat) (enough : (c.resolved scope).length < fuel)
    (headers : List Text) (body : Option Text) (ns : ResolveResult) (name : Text) (rest : Events) :
    scanEnvelope bindings fuel headers body (stream (c.resolved scope) ++ .ok (ns, .close name) :: rest) =
      scanParts bindings scope c headers body := by
  -- child by child; the fuel is one for each event that is left
  induction c generalizing fuel headers body with
  | nil =>
    obtain ⟨fuel, rfl⟩ := Nat.exists_eq_add_one_of_ne_zero (Nat.ne_zero_of_lt enough)
    rfl
  | data d more ih =>
    obtain ⟨fuel, rfl⟩ := Nat.exists_eq_add_one_of_ne_zero (Nat.ne_zero_of_lt enough)
    exact ih unique plain fuel (by simp [Content.resolved] at enough; omega) headers body
  | empty tag more ih =>
    obtain ⟨fuel, rfl⟩ := Nat.exists_eq_add_one_of_ne_zero (Nat.ne_zero_of_lt enough)
    exact ih unique.2 plain.2 fuel (by simp [Content.resolved] at enough; omega) headers body
  | element tag kids more kidsIH restIH =>
    obtain ⟨fuel, rfl⟩ := Nat.exists_eq_add_one_of_ne_zero (Nat.ne_zero_of_lt enough)
    have fits : (more.resolved scope).length < fuel := by
      have := resolved_length_pos tag kids more scope
      omega
    have next := restIH unique.2.2 plain.2.2 fuel fits
    have inner := collectNsFromAttrs_read unique.1 plain.1 bindings
    have kidsPlain : RootsPlain kids := Plain.roots plain.2.1
    simp only [Content.resolved, stream_cons, stream_append, List.cons_append, List.append_assoc,
      scanEnvelope, scanParts, Tag.read_name, inner]
    split
    · -- a header
      rw [collectHeaderChildren_forest _ kids unique.2.1 kidsPlain, bind_ok]
      simp [next]
    · split
      · rw [extractBodyFirstChild_content _ kids unique.2.1 kidsPlain]
        cases kids.firstElement with
        | none => rfl
        | some found =>
          simp only [bind_ok]
          rw [skipToEnd_content found.2 _ 0, skipToEnd, if_pos (by omega), bind_ok]
          exact next _ _
      · -- anything else is skipped
        rw [skipElement, skipToEnd_content kids _ 0, skipToEnd, if_pos (by omega), bind_ok]
        exact next _ _

end SoapServer.Envelope
