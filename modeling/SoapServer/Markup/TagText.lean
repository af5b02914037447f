import SoapServer.Markup.Reader

/-! The text between the angle brackets of a start tag, by the grammar of XML: any
whitespace, values in either quotes. A tag written with double quotes around each value is
compared with what its text says by the grammar.
-/

set_option autoImplicit false

namespace Markup

def Blank (s : Text) : Prop := ∀ c ∈ s, isWhitespace c = true

/-- The attributes of a tag, as text. -/
inductive AttributeList : Text → List Attribute → Prop
  | nil {space : Text} (blank : Blank space) : AttributeList space []
  | cons {space before after key value rest : Text} {quote : Char} {attributes : List Attribute}
      (spaced : space ≠ []) (blank : Blank space) (name : IsName key) (beforeBlank : Blank before)
      (afterBlank : Blank after) (quoted : quote = '"' ∨ quote = '\'') (closed : quote ∉ value)
      (clean : '<' ∉ value) (more : AttributeList rest attributes) :
      AttributeList (space ++ (key ++ (before ++ '=' :: (after ++ quote :: (value ++ quote :: rest)))))
        (⟨key, value⟩ :: attributes)

/-- A tag as text: a name, attributes, and no attribute twice. -/
structure TagText (body : Text) (tag : Tag) : Prop where
  name : IsName tag.name
  attributes : ∃ list, body = tag.name ++ list ∧ AttributeList list tag.attributes
  unique : tag.Unique

/-! Names end at the first delimiter. -/

theorem isName_append_inj {a b r s : Text} (first : IsName a) (second : IsName b)
    (stops : ∀ c ∈ r.head?, isDelimiter c = true) (stops' : ∀ c ∈ s.head?, isDelimiter c = true)
    (same : a ++ r = b ++ s) : a = b ∧ r = s := by
  have cut (a r : Text) (name : IsName a) (stops : ∀ c ∈ r.head?, isDelimiter c = true) :
      (a ++ r).takeWhile (fun c => !isDelimiter c) = a := by
    have inside : ∀ c ∈ a, (!isDelimiter c) = true := fun c member => by simp [name.2 c member]
    rw [List.takeWhile_append_of_pos inside]
    cases r with
    | nil => simp
    | cons c r => simp [stops c rfl]
  have names : a = b := by rw [← cut a r first stops, ← cut b s second stops', same]
  subst names
  exact ⟨rfl, List.append_cancel_left same⟩

theorem blank_append_inj {a b r s : Text} (first : Blank a) (second : Blank b)
    (stops : ∀ c ∈ r.head?, isWhitespace c = false) (stops' : ∀ c ∈ s.head?, isWhitespace c = false)
    (same : a ++ r = b ++ s) : a = b ∧ r = s := by
  have cut (a r : Text) (blank : Blank a) (stops : ∀ c ∈ r.head?, isWhitespace c = false) :
      (a ++ r).takeWhile isWhitespace = a := by
    rw [List.takeWhile_append_of_pos blank]
    cases r with
    | nil => simp
    | cons c r => simp [stops c rfl]
  have blanks : a = b := by rw [← cut a r first stops, ← cut b s second stops', same]
  subst blanks
  exact ⟨rfl, List.append_cancel_left same⟩

theorem isDelimiter_of_blank {c : Char} {s : Text} (blank : Blank (c :: s)) :
    isDelimiter c = true := by
  have white := blank c (.head _)
  simp [isDelimiter, white]

theorem IsName.head_solid {s : Text} (name : IsName s) (r : Text) :
    ∀ c ∈ (s ++ r).head?, isWhitespace c = false := by
  obtain ⟨nonempty, inside⟩ := name
  cases s with
  | nil => exact absurd rfl nonempty
  | cons d s =>
    rintro c ⟨⟩
    have solid := inside d (.head _)
    by_contra white
    simp [isDelimiter, white] at solid

theorem attributeList_written {attributes : List Attribute}
    (lexical : ∀ a ∈ attributes, IsName a.key ∧ '<' ∉ a.value)
    (quotes : ∀ a ∈ attributes, a.QuoteFree) :
    AttributeList (attributes.flatMap Attribute.write) attributes := by
  induction attributes with
  | nil => exact .nil fun _ member => by cases member
  | cons a rest ih =>
    have more := ih (fun b member => lexical b (.tail _ member)) fun b member =>
      quotes b (.tail _ member)
    have white : Blank [' '] := fun c member => by
      obtain rfl := List.mem_singleton.mp member
      rfl
    have nothing : Blank [] := fun _ member => by cases member
    have written := AttributeList.cons (List.cons_ne_nil ' ' []) white (lexical a (.head _)).1 nothing nothing
      (.inl rfl) (quotes a (.head _)) (lexical a (.head _)).2 more
    simpa [List.flatMap_cons, Attribute.write] using written

theorem tagText_of_quoteFree {tag : Tag} (lexical : tag.Lexical) (quotes : tag.QuoteFree)
    (unique : tag.Unique) :
    TagText tag.writeBody tag :=
  ⟨lexical.1, ⟨_, rfl, attributeList_written lexical.2 quotes⟩, unique⟩

/-! Values. -/

/-- Decoding character by character; a reference that has begun is kept until its end. -/
def decodeFrom (deref : Text → Text) : Option Text → Text → Text
  | none, [] => []
  | some name, [] => '&' :: name
  | none, c :: s => if c = '&' then decodeFrom deref (some []) s else c :: decodeFrom deref none s
  | some name, c :: s =>
    if c = ';' then deref name ++ decodeFrom deref none s else decodeFrom deref (some (name ++ [c])) s

/-- The value of an attribute, its references replaced by what they stand for. -/
def decodeValue (deref : Text → Text) (raw : Text) : Text := decodeFrom deref none raw

/-- Every ampersand of a value begins a reference. -/
def ReferencesClosed : Text → Prop
  | [] => True
  | c :: s => (c = '&' → ∃ name rest, s = name ++ ';' :: rest ∧ IsName name) ∧ ReferencesClosed s

def Tag.ReferencesClosed (tag : Tag) : Prop := ∀ a ∈ tag.attributes, Markup.ReferencesClosed a.value

theorem decodeValue_quote (deref : Text → Text) {before after : Text}
    (closed : ReferencesClosed (before ++ '"' :: after)) :
    decodeValue deref (before ++ '"' :: after) = decodeValue deref before ++ '"' :: decodeValue deref after := by
  -- with the part of a reference that was read, which ends before the quote
  suffices ∀ pending : Option Text,
      (pending ≠ none → ∃ name rest, before ++ '"' :: after = name ++ ';' :: rest ∧ '"' ∉ name) →
      decodeFrom deref pending (before ++ '"' :: after) =
        decodeFrom deref pending before ++ '"' :: decodeFrom deref none after from this none (by simp)
  induction before with
  | nil =>
    intro pending ends
    cases pending with
    | none => simp [decodeFrom]
    | some name =>
      obtain ⟨_ | ⟨d, name⟩, rest, same, plain⟩ := ends (by simp)
      · cases same
      · -- the quote would stand in the name of a reference
        obtain ⟨rfl, _⟩ := List.cons.inj same
        exact absurd (.head _) plain
  | cons c before ih =>
    intro pending ends
    rw [List.cons_append] at closed
    cases pending with
    | none =>
      by_cases opens : c = '&'
      · subst opens
        obtain ⟨name, rest, same, isName⟩ := closed.1 rfl
        simp only [List.cons_append, decodeFrom, if_true]
        exact ih closed.2 (some []) fun _ =>
          ⟨name, rest, same, fun member => by have := isName.2 '"' member; cases this⟩
      · simp only [List.cons_append, decodeFrom, if_neg opens]
        rw [ih closed.2 none (by simp)]
    | some name =>
      by_cases last : c = ';'
      · subst last
        simp only [List.cons_append, decodeFrom, if_true]
        rw [ih closed.2 none (by simp), List.append_assoc]
      · simp only [List.cons_append, decodeFrom, if_neg last]
        refine ih closed.2 _ fun _ => ?_
        obtain ⟨_ | ⟨d, name⟩, rest, same, plain⟩ := ends (by simp)
        · exact absurd (List.cons.inj same).1 last
        · exact ⟨name, rest, (List.cons.inj same).2, fun member => plain (.tail _ member)⟩

end Markup
