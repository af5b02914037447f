import SoapServer.Tree

/-! A tree parser over the scanner, for documents without a document type. -/

set_option autoImplicit false

namespace SoapServer

open Markup

namespace Tree

def predefinedEntities : List (Text × Text) :=
  [("lt".toList, "<".toList), ("gt".toList, ">".toList), ("amp".toList, "&".toList), ("apos".toList, "'".toList),
    ("quot".toList, "\"".toList)]

def predefinedEntity (name : Text) : Option Text := predefinedEntities.lookup name

/-- The tag of what the scanner reports, unless an attribute repeats. -/
def unread (tag : ReadTag) : Option Tag :=
  if none ∈ tag.attributes then none else some ⟨tag.name, tag.attributes.reduceOption⟩

/-- The content up to an end tag without its start tag, and the events from there on. -/
def readContent : Nat → List Event → Option (Content × List Event)
  | 0, _ => none
  | _ + 1, [] => some (.nil, [])
  | _ + 1, .close name :: rest => some (.nil, .close name :: rest)
  | fuel + 1, .data d :: rest => do
    let (c, after) ← readContent fuel rest
    some (.data d c, after)
  | fuel + 1, .empty tag :: rest => do
    let tag ← unread tag
    let (c, after) ← readContent fuel rest
    some (.empty tag c, after)
  | fuel + 1, .start tag :: rest => do
    let tag ← unread tag
    let (kids, after) ← readContent fuel rest
    match after with
    | .close name :: after =>
      if name = tag.name then do
        let (c, after) ← readContent fuel after
        some (.element tag kids c, after)
      else none
    | _ => none

def readDocument (events : List Event) : Option DomNode :=
  match readContent (events.length + 1) events with
  | some (c, []) =>
    match c.elements with
    | [root] => documentTree predefinedEntity root
    | _ => none
  | _ => none

end Tree

/-- The tree parser over the scanner. -/
def scanTree (s : Text) : Except Text DomNode := do
  let events ← (scanner.events false s).mapM id
  match Tree.readDocument events with
  | some node => .ok node
  | none => .error "malformed document".toList

namespace Tree

theorem unread_read {tag : Tag} (unique : tag.Unique) : unread tag.read = some tag := by
  simp [unread, Tag.read_of_unique unique, reduceOption_some]

theorem readContent_events {c : Content} (unique : c.AllTags Tag.Unique) {fuel : Nat}
    (enough : c.events.length < fuel) {tail : List Event}
    (ends : tail = [] ∨ ∃ name rest, tail = .close name :: rest) :
    readContent fuel (c.events ++ tail) = some (c, tail) := by
  induction c generalizing fuel tail with
  | nil =>
    obtain ⟨fuel, rfl⟩ := Nat.exists_eq_succ_of_ne_zero (by omega : fuel ≠ 0)
    rcases ends with rfl | ⟨name, rest, rfl⟩ <;> rfl
  | data d rest ih =>
    obtain ⟨fuel, rfl⟩ := Nat.exists_eq_succ_of_ne_zero (by omega : fuel ≠ 0)
    have := ih unique (by simpa [Content.events] using enough) ends
    simp [Content.events, readContent, this]
  | empty tag rest ih =>
    obtain ⟨fuel, rfl⟩ := Nat.exists_eq_succ_of_ne_zero (by omega : fuel ≠ 0)
    have := ih unique.2 (by simpa [Content.events] using enough) ends
    simp [Content.events, readContent, unread_read unique.1, this]
  | element tag kids rest kidsIH restIH =>
    obtain ⟨fuel, rfl⟩ := Nat.exists_eq_succ_of_ne_zero (by omega : fuel ≠ 0)
    simp only [Content.events, List.length_cons, List.length_append] at enough
    have inner := kidsIH unique.2.1 (show kids.events.length < fuel by omega)
      (.inr ⟨tag.name, rest.events ++ tail, rfl⟩)
    have after := restIH unique.2.2 (show rest.events.length < fuel by omega) ends
    simp [Content.events, readContent, unread_read unique.1, inner, after]

theorem coalesce_of_normal {c : Content} (normal : c.Normal) : c.coalesce = c := by
  induction c with
  | nil => rfl
  | data d rest ih =>
    cases d with
    | text s =>
      obtain ⟨filled, apart, normal⟩ := normal
      rw [Content.coalesce, ih normal]
      unfold Content.prependText
      split
      next t r => exact absurd rfl (apart t r)
      next => exact if_neg filled
    | _ => rw [Content.coalesce, ih normal]; simp
  | empty tag rest ih => rw [Content.coalesce, ih normal]
  | element tag kids rest kidsIH restIH => rw [Content.coalesce, kidsIH normal.1, restIH normal.2]

theorem mapM_stream {α : Type} (items : List α) : (stream items).mapM id = .ok items := by
  induction items with
  | nil => rfl
  | cons a rest ih => simp [ih, bind, Except.bind, pure, Except.pure]

/-! Without references, nothing depends on what references stand for. -/

theorem mem_normalizeLines {s : Text} {c : Char} (member : c ∈ normalizeLines s) :
    c ∈ s ∨ c = '\n' := by
  fun_induction normalizeLines s with
  | case1 s ih =>
    rcases List.mem_cons.mp member with same | member
    · exact .inr same
    · exact (ih member).imp_left fun member => .tail _ (.tail _ member)
  | case2 s _ ih =>
    rcases List.mem_cons.mp member with same | member
    · exact .inr same
    · exact (ih member).imp_left (.tail _)
  | case3 d s _ _ ih =>
    rcases List.mem_cons.mp member with rfl | member
    · exact .inl (.head _)
    · exact (ih member).imp_left (.tail _)
  | case4 => cases member

theorem attributeValue_of_noReference (deref : Text → Option Text) {v : Text} (plain : '&' ∉ v) :
    attributeValue deref v = (normalizeLines v).map fun c => if c = '\t' ∨ c = '\n' then ' ' else c := by
  refine decodeFrom_of_noReference _ fun member => ?_
  obtain ⟨c, among, same⟩ := List.mem_map.mp member
  split at same
  next => cases same
  next noSpace =>
    subst same
    rcases mem_normalizeLines among with member | same
    · exact plain member
    · exact noSpace (.inr same)

theorem ProperTag.congr {deref deref' : Text → Option Text} {tag : Tag}
    (plain : ∀ a ∈ tag.attributes, '&' ∉ a.value)
    (own : ownNamespaces deref tag = ownNamespaces deref' tag)
    (value : ∀ a ∈ tag.attributes, attributeValue deref a.value = attributeValue deref' a.value)
    (proper : ProperTag deref tag) : ProperTag deref' tag where
  name := proper.name
  unique := proper.unique
  attributes a member := by
    obtain ⟨key, noTag, _, chars, xml⟩ := proper.attributes a member
    rw [value a member] at chars xml
    exact ⟨key, noTag, referencesKnown_of_noReference deref' (plain a member), chars, xml⟩
  own := own ▸ proper.own
  declarations := own ▸ proper.declarations

theorem elementOf_of_noReference (deref deref' : Text → Option Text) (inherited : Namespaces)
    {tag : Tag} (plain : ∀ a ∈ tag.attributes, '&' ∉ a.value) :
    elementOf deref inherited tag = elementOf deref' inherited tag := by
  have value {a : Attribute} (member : a ∈ tag.attributes) :
      attributeValue deref a.value = attributeValue deref' a.value := by
    rw [attributeValue_of_noReference deref (plain a member),
      attributeValue_of_noReference deref' (plain a member)]
  have own : ownNamespaces deref tag = ownNamespaces deref' tag :=
    List.filterMap_congr fun a member => by rw [declaredBy, declaredBy, value member]
  have attributes (namespaces : Namespaces) :
      (tag.attributes.filter fun a => a.declares = none).mapM (attributeOf deref namespaces) =
        (tag.attributes.filter fun a => a.declares = none).mapM (attributeOf deref' namespaces) :=
    Traversals.mapM_congr fun a member => by rw [attributeOf, attributeOf,
      value (List.mem_filter.mp member).1]
  have proper : ProperTag deref tag ↔ ProperTag deref' tag :=
    ⟨.congr plain own fun _ => value, .congr plain own.symm fun _ member => (value member).symm⟩
  simp only [elementOf, own, attributes, proper]

theorem forestOf_of_noReference (deref deref' : Text → Option Text) (inherited : Namespaces)
    {c : Content} (values : c.AllTags fun tag => ∀ a ∈ tag.attributes, '&' ∉ a.value)
    (data : c.AllData fun d => ∃ raw, d = .text raw) :
    forestOf deref inherited c = forestOf deref' inherited c := by
  induction c generalizing inherited with
  | nil => rfl
  | data d rest ih =>
    obtain ⟨⟨raw, rfl⟩, data⟩ := data
    simp only [forestOf, ih inherited values data, textOf]
  | empty tag rest ih =>
    simp only [forestOf, elementOf_of_noReference deref deref' inherited values.1,
      ih inherited values.2 data]
  | element tag kids rest kidsIH restIH =>
    simp only [forestOf, elementOf_of_noReference deref deref' inherited values.1,
      kidsIH _ values.2.1 data.1, restIH inherited values.2.2 data.2]

/-! The laws. -/

theorem forestOf_unique {deref : Text → Option Text} {inherited : Namespaces} {c : Content}
    {f : DomForest} (run : forestOf deref inherited c = some f) : c.AllTags Tag.Unique := by
  induction c generalizing inherited f with
  | nil => trivial
  | data d rest ih =>
    obtain ⟨after, restRun, _⟩ := forestOf_data run
    exact ih restRun
  | empty tag rest ih =>
    obtain ⟨e, element, after, restRun, _⟩ := forestOf_empty.mp run
    exact ⟨(elementOf_eq_some element).1.unique, ih restRun⟩
  | element tag kids rest kidsIH restIH =>
    obtain ⟨e, element, children, kidsRun, after, restRun, _⟩ := forestOf_element.mp run
    exact ⟨(elementOf_eq_some element).1.unique, kidsIH kidsRun, restIH restRun⟩

theorem documentTree_unique {deref : Text → Option Text} {root : Element} {node : DomNode}
    (tree : documentTree deref root = some node) : root.alone.AllTags Tag.Unique := by
  unfold documentTree at tree
  split at tree
  next run => exact forestOf_unique run
  next => cases tree

theorem readDocument_literal {deref : Text → Option Text} {root : Element} {node : DomNode}
    (literal : Literal root) (tree : documentTree deref root = some node) :
    readDocument root.alone.events = some node := by
  have read := readContent_events (documentTree_unique tree) (Nat.lt_succ_self root.alone.events.length)
    (.inl (rfl : ([] : List Event) = []))
  rw [List.append_nil] at read
  have single : root.alone.elements = [root] := by
    obtain ⟨tag, _ | kids⟩ := root <;> rfl
  have same : documentTree predefinedEntity root = documentTree deref root := by
    rw [documentTree, documentTree, forestOf_of_noReference predefinedEntity deref [] literal.values literal.data]
  rw [readDocument, read]
  simp only [single, same, tree]

theorem readDocument_tree {events : List Event} {node : DomNode}
    (read : readDocument events = some node) :
    ∃ deref root, documentTree deref root = some node := by
  unfold readDocument at read
  split at read
  next =>
    split at read
    next root _ => exact ⟨predefinedEntity, root, read⟩
    next => cases read
  next => cases read

end Tree

theorem scanTree_lawful : TreeParser.Lawful scanTree where
  trees s node parsed _ := by
    unfold scanTree at parsed
    cases events : (scanner.events false s).mapM id with
    | error e => rw [events] at parsed; cases parsed
    | ok items =>
      rw [events] at parsed
      dsimp only [bind, Except.bind] at parsed
      split at parsed
      next node' read =>
        cases parsed
        exact Tree.readDocument_tree read
      next => cases parsed
  written deref root node literal tree := by
    have reads := scanner_lawful.written_tag literal.writable root.alone_markup
    rw [Tree.coalesce_of_normal literal.normal] at reads
    rw [scanTree, reads, Tree.mapM_stream]
    simp only [bind, Except.bind, Tree.readDocument_literal literal tree]

end SoapServer
