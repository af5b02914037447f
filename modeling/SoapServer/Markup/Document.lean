import SoapServer.Markup.Text

/-! Documents as trees of tags and character data, the events a streaming reader
reports for them, and their plain written form.

A forest is kept in first-child, next-sibling form: every constructor carries
the siblings that follow it, so one induction covers children and siblings.
-/

set_option autoImplicit false

namespace Markup

/-- An attribute as written: its qualified name and the characters between its quotes. -/
structure Attribute where
  key : Text
  value : Text
  deriving DecidableEq, Repr

structure Tag where
  name : Text
  attributes : List Attribute
  deriving DecidableEq, Repr

/-- What stands between tags. -/
inductive Data where
  | text (raw : Text)
  | cdata (raw : Text)
  | generalRef (name : Text)
  | comment (raw : Text)
  | pi (raw : Text)
  | decl (raw : Text)
  | docType (raw : Text)
  deriving DecidableEq, Repr

inductive Content where
  | nil
  | data (d : Data) (rest : Content)
  | empty (tag : Tag) (rest : Content)
  | element (tag : Tag) (kids rest : Content)
  deriving DecidableEq, Repr

/-- One element; without children when it is written as a self-closing tag. -/
structure Element where
  tag : Tag
  kids : Option Content
  deriving DecidableEq, Repr

/-- A tag as a reader hands it out. The attribute iterator yields an error, here
`none`, in place of an attribute whose key it has already yielded. -/
structure ReadTag where
  name : Text
  attributes : List (Option Attribute)
  deriving DecidableEq, Repr

inductive Event where
  | start (tag : ReadTag)
  | empty (tag : ReadTag)
  | close (name : Text)
  | data (d : Data)
  deriving DecidableEq, Repr

def readAttributes (seen : List Text) : List Attribute → List (Option Attribute)
  | [] => []
  | a :: rest =>
    (if a.key ∈ seen then none else some a) :: readAttributes (a.key :: seen) rest

theorem readAttributes_eq_map (seen : List Text) (attrs : List Attribute)
    (unique : (attrs.map (·.key)).Nodup) (fresh : ∀ a ∈ attrs, a.key ∉ seen) :
    readAttributes seen attrs = attrs.map some := by
  induction attrs generalizing seen with
  | nil => rfl
  | cons a rest ih =>
    simp only [List.map_cons, List.nodup_cons] at unique
    have restFresh : ∀ b ∈ rest, b.key ∉ a.key :: seen := by
      intro b member found
      rcases List.mem_cons.mp found with same | found
      · exact unique.1 (List.mem_map.mpr ⟨b, member, same⟩)
      · exact fresh b (List.mem_cons_of_mem _ member) found
    simp [readAttributes, fresh a List.mem_cons_self, ih _ unique.2 restFresh]

theorem nodup_of_readAttributes (seen : List Text) (attrs : List Attribute)
    (clean : none ∉ readAttributes seen attrs) :
    (attrs.map (·.key)).Nodup ∧ ∀ a ∈ attrs, a.key ∉ seen := by
  induction attrs generalizing seen with
  | nil => simp
  | cons a rest ih =>
    simp only [readAttributes, List.mem_cons, not_or] at clean
    obtain ⟨head, tail⟩ := clean
    have fresh : a.key ∉ seen := by
      intro found
      simp [found] at head
    obtain ⟨unique, later⟩ := ih _ tail
    constructor
    · rw [List.map_cons, List.nodup_cons]
      refine ⟨?_, unique⟩
      intro repeated
      obtain ⟨b, member, same⟩ := List.mem_map.mp repeated
      exact later b member (by simp [same])
    · intro b member
      rcases List.mem_cons.mp member with rfl | member
      · exact fresh
      · exact fun found => later b member (List.mem_cons_of_mem _ found)

def Tag.read (tag : Tag) : ReadTag := ⟨tag.name, readAttributes [] tag.attributes⟩

/-- No attribute is written twice on the tag. -/
def Tag.Unique (tag : Tag) : Prop := (tag.attributes.map (·.key)).Nodup

instance (tag : Tag) : Decidable tag.Unique := by unfold Tag.Unique; infer_instance

theorem Tag.read_of_unique {tag : Tag} (unique : tag.Unique) :
    tag.read = ⟨tag.name, tag.attributes.map some⟩ := by
  simp [Tag.read, readAttributes_eq_map [] tag.attributes unique]

/-- Of a tag read without errors every attribute counts. -/
theorem reduceOption_some {α : Type} (l : List α) : (l.map some).reduceOption = l := by
  rw [List.reduceOption, List.filterMap_map]
  exact List.filterMap_some

theorem Tag.unique_of_read {tag : Tag} (clean : none ∉ tag.read.attributes) : tag.Unique :=
  (nodup_of_readAttributes [] tag.attributes clean).1

namespace Content

def append : Content → Content → Content
  | .nil, after => after
  | .data d rest, after => .data d (rest.append after)
  | .empty tag rest, after => .empty tag (rest.append after)
  | .element tag kids rest, after => .element tag kids (rest.append after)

/-- The elements among the top-level items, in order. -/
def elements : Content → List Element
  | .nil => []
  | .data _ rest => rest.elements
  | .empty tag rest => ⟨tag, none⟩ :: rest.elements
  | .element tag kids rest => ⟨tag, some kids⟩ :: rest.elements

theorem elements_nil : Content.nil.elements = [] := rfl

theorem elements_append (a b : Content) : (a.append b).elements = a.elements ++ b.elements := by
  induction a with
  | nil => rfl
  | data d rest ih => exact ih
  | empty tag rest ih => exact congrArg _ ih
  | element tag kids rest _ ih => exact congrArg _ ih

/-- A property of every tag, at any depth. -/
def AllTags (P : Tag → Prop) : Content → Prop
  | .nil => True
  | .data _ rest => rest.AllTags P
  | .empty tag rest => P tag ∧ rest.AllTags P
  | .element tag kids rest => P tag ∧ kids.AllTags P ∧ rest.AllTags P

/-- A property of every piece of character data, at any depth. -/
def AllData (P : Data → Prop) : Content → Prop
  | .nil => True
  | .data d rest => P d ∧ rest.AllData P
  | .empty _ rest => rest.AllData P
  | .element _ kids rest => kids.AllData P ∧ rest.AllData P

instance decidableAllTags (P : Tag → Prop) [DecidablePred P] :
    (c : Content) → Decidable (c.AllTags P)
  | .nil => inferInstanceAs (Decidable True)
  | .data _ rest => decidableAllTags P rest
  | .empty tag rest =>
    have := decidableAllTags P rest
    inferInstanceAs (Decidable (P tag ∧ rest.AllTags P))
  | .element tag kids rest =>
    have := decidableAllTags P kids
    have := decidableAllTags P rest
    inferInstanceAs (Decidable (P tag ∧ kids.AllTags P ∧ rest.AllTags P))

instance decidableAllData (P : Data → Prop) [DecidablePred P] :
    (c : Content) → Decidable (c.AllData P)
  | .nil => inferInstanceAs (Decidable True)
  | .data d rest =>
    have := decidableAllData P rest
    inferInstanceAs (Decidable (P d ∧ rest.AllData P))
  | .empty _ rest => decidableAllData P rest
  | .element _ kids rest =>
    have := decidableAllData P kids
    have := decidableAllData P rest
    inferInstanceAs (Decidable (kids.AllData P ∧ rest.AllData P))

theorem AllTags.mono {P Q : Tag → Prop} (sub : ∀ t, P t → Q t) {c : Content}
    (all : c.AllTags P) : c.AllTags Q := by
  induction c with
  | nil => trivial
  | data d rest ih => exact ih all
  | empty tag rest ih => exact ⟨sub tag all.1, ih all.2⟩
  | element tag kids rest kidsIH restIH => exact ⟨sub tag all.1, kidsIH all.2.1, restIH all.2.2⟩

theorem AllData.mono {P Q : Data → Prop} (sub : ∀ d, P d → Q d) {c : Content} (all : c.AllData P) :
    c.AllData Q := by
  induction c with
  | nil => trivial
  | data d rest ih => exact ⟨sub d all.1, ih all.2⟩
  | empty tag rest ih => exact ih all
  | element tag kids rest kidsIH restIH => exact ⟨kidsIH all.1, restIH all.2⟩

theorem allTags_append {P : Tag → Prop} {a b : Content} :
    (a.append b).AllTags P ↔ a.AllTags P ∧ b.AllTags P := by
  induction a with
  | nil => simp [append, AllTags]
  | data d rest ih => simp [append, AllTags, ih]
  | empty tag rest ih => simp [append, AllTags, ih, and_assoc]
  | element tag kids rest _ ih => simp [append, AllTags, ih, and_assoc]

theorem allData_append {P : Data → Prop} {a b : Content} :
    (a.append b).AllData P ↔ a.AllData P ∧ b.AllData P := by
  induction a with
  | nil => simp [append, AllData]
  | data d rest ih => simp [append, AllData, ih, and_assoc]
  | empty tag rest ih => simp [append, AllData, ih]
  | element tag kids rest _ ih => simp [append, AllData, ih, and_assoc]

/-- The event sequence of a forest. -/
def events : Content → List Event
  | .nil => []
  | .data d rest => .data d :: rest.events
  | .empty tag rest => .empty tag.read :: rest.events
  | .element tag kids rest => .start tag.read :: (kids.events ++ .close tag.name :: rest.events)

end Content

/-- A property of every tag of an element, its own included. -/
def Element.AllTags (P : Tag → Prop) (el : Element) : Prop :=
  P el.tag ∧ ∀ kids, el.kids = some kids → kids.AllTags P

theorem Element.AllTags.mono {P Q : Tag → Prop} (sub : ∀ t, P t → Q t) {el : Element}
    (all : el.AllTags P) :
    el.AllTags Q :=
  ⟨sub _ all.1, fun kids has => (all.2 kids has).mono sub⟩

def Element.AllData (P : Data → Prop) (el : Element) : Prop :=
  ∀ kids, el.kids = some kids → kids.AllData P

/-- An element alone, as a forest of one item. -/
def Element.alone : Element → Content
  | ⟨tag, none⟩ => .empty tag .nil
  | ⟨tag, some kids⟩ => .element tag kids .nil

theorem Content.AllTags.of_mem {P : Tag → Prop} {c : Content} (all : c.AllTags P)
    {el : Element} (member : el ∈ c.elements) : el.AllTags P := by
  induction c with
  | nil => cases member
  | data d rest ih => exact ih all member
  | empty tag rest ih =>
    rcases List.mem_cons.mp member with rfl | member
    · exact ⟨all.1, fun _ absent => by cases absent⟩
    · exact ih all.2 member
  | element tag kids rest _ ih =>
    rcases List.mem_cons.mp member with rfl | member
    · refine ⟨all.1, fun inner same => ?_⟩
      cases same
      exact all.2.1
    · exact ih all.2.2 member

theorem Content.AllData.of_mem {P : Data → Prop} {c : Content} (all : c.AllData P)
    {el : Element} (member : el ∈ c.elements) : el.AllData P := by
  induction c with
  | nil => cases member
  | data d rest ih => exact ih all.2 member
  | empty tag rest ih =>
    rcases List.mem_cons.mp member with rfl | member
    · exact fun _ absent => by cases absent
    · exact ih all member
  | element tag kids rest _ ih =>
    rcases List.mem_cons.mp member with rfl | member
    · rintro inner ⟨⟩
      exact all.1
    · exact ih all.2 member

/-! Written form. -/

def Attribute.write (a : Attribute) : Text :=
  ' ' :: (a.key ++ '=' :: '"' :: (a.value ++ ['"']))

def Tag.writeBody (tag : Tag) : Text := tag.name ++ tag.attributes.flatMap Attribute.write

def sectionOpen : Text := ['!', '[', 'C', 'D', 'A', 'T', 'A', '[']

def sectionClose : Text := [']', ']', '>']

def commentOpen : Text := ['!', '-', '-']

def commentClose : Text := ['-', '-', '>']

def Data.write : Data → Text
  | .text raw => raw
  | .cdata raw => '<' :: (sectionOpen ++ (raw ++ sectionClose))
  | .generalRef name => '&' :: (name ++ [';'])
  | .comment raw => '<' :: (commentOpen ++ (raw ++ commentClose))
  | .pi raw | .decl raw => '<' :: '?' :: (raw ++ ['?', '>'])
  | .docType raw => '<' :: '!' :: 'D' :: 'O' :: 'C' :: 'T' :: 'Y' :: 'P' :: 'E' :: ' ' :: (raw ++ ['>'])

/-- A closing tag. -/
def closeTag (name : Text) : Text := '<' :: '/' :: (name ++ ['>'])

/-- Every tag with one space before each attribute and double quotes around each value. -/
def Content.write : Content → Text
  | .nil => []
  | .data d rest => d.write ++ rest.write
  | .empty tag rest => '<' :: (tag.writeBody ++ '/' :: '>' :: rest.write)
  | .element tag kids rest =>
    '<' :: (tag.writeBody ++ '>' :: (kids.write ++ (closeTag tag.name ++ rest.write)))

theorem Element.alone_markup (el : Element) : el.alone.write.head? = some '<' := by
  rcases el with ⟨tag, _ | kids⟩ <;> rfl

end Markup
