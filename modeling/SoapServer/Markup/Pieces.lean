import SoapServer.Markup.TagText

/-! Documents as the pieces a streaming reader reports, each with the text it stands in. A
writer puts the pieces out again as they are.
-/

set_option autoImplicit false

namespace Markup

/-- An event with its text: what stands between the angle brackets of a tag, and the
whitespace behind the name of an end tag, which the reader leaves out. -/
inductive RawEvent where
  | start (body : Text) (tag : ReadTag)
  | empty (body : Text) (tag : ReadTag)
  | close (name space : Text)
  | data (d : Data)
  deriving DecidableEq, Repr

/-- A reader of a whole text, piece by piece. -/
abbrev RawReader := Text → List (Except Text RawEvent)

def startText (body : Text) : Text := '<' :: (body ++ ['>'])

def emptyText (body : Text) : Text := '<' :: (body ++ ['/', '>'])

/-- The text of an event in its document. -/
def RawEvent.source : RawEvent → Text
  | .start body _ => startText body
  | .empty body _ => emptyText body
  | .close name space => closeTag (name ++ space)
  | .data d => d.write

/-- What a writer makes of an event. -/
def RawEvent.write : RawEvent → Text
  | .close name _ => closeTag name
  | event => event.source

/-- The forest that a sequence of events stands for. -/
inductive Denotes : List RawEvent → Content → Prop
  | nil : Denotes [] .nil
  | data {d : Data} {events : List RawEvent} {c : Content} (clean : d.Clean) (more : Denotes events c) :
    Denotes (.data d :: events) (.data d c)
  | empty {body : Text} {tag : Tag} {events : List RawEvent} {c : Content} (text : TagText body tag)
    (more : Denotes events c) : Denotes (.empty body tag.read :: events) (.empty tag c)
  | element {body space : Text} {tag : Tag} {inside events : List RawEvent} {kids c : Content}
    (text : TagText body tag) (blank : Blank space) (inner : Denotes inside kids) (more : Denotes events c) :
    Denotes (.start body tag.read :: (inside ++ .close tag.name space :: events)) (.element tag kids c)

/-- A forest as pieces, every tag with double quotes around its values. -/
def Content.pieces : Content → List RawEvent
  | .nil => []
  | .data d rest => .data d :: rest.pieces
  | .empty tag rest => .empty tag.writeBody tag.read :: rest.pieces
  | .element tag kids rest => .start tag.writeBody tag.read :: (kids.pieces ++ .close tag.name [] :: rest.pieces)

theorem denotes_pieces {c : Content}
    (tags : c.AllTags fun tag => tag.Lexical ∧ tag.QuoteFree ∧ tag.Unique)
    (data : c.AllData Data.Clean) : Denotes c.pieces c := by
  induction c with
  | nil => exact .nil
  | data d rest ih => exact .data data.1 (ih tags data.2)
  | empty tag rest ih =>
    obtain ⟨lexical, free, unique⟩ := tags.1
    exact .empty (tagText_of_quoteFree lexical free unique) (ih tags.2 data)
  | element tag kids rest kidsIH restIH =>
    obtain ⟨lexical, free, unique⟩ := tags.1
    exact .element (tagText_of_quoteFree lexical free unique) (fun _ member => by cases member)
      (kidsIH tags.2.1 data.1) (restIH tags.2.2 data.2)

theorem Content.pieces_source (c : Content) : c.pieces.flatMap RawEvent.source = c.write := by
  induction c with
  | nil => rfl
  | data d rest ih => simp [pieces, write, RawEvent.source, ih]
  | empty tag rest ih => simp [pieces, write, RawEvent.source, emptyText, ih]
  | element tag kids rest kidsIH restIH => simp [pieces, write, RawEvent.source, startText, kidsIH, restIH]

theorem blank_nil : Blank [] := fun _ member => by cases member

/-- An event without the whitespace behind the name of an end tag. -/
def RawEvent.tidy : RawEvent → RawEvent
  | .close name _ => .close name []
  | event => event

theorem RawEvent.tidy_source (event : RawEvent) : event.tidy.source = event.write := by
  cases event with
  | close name space => simp [RawEvent.tidy, RawEvent.source, RawEvent.write]
  | _ => rfl

theorem denotes_tidy {events : List RawEvent} {c : Content} (denotes : Denotes events c) :
    Denotes (events.map RawEvent.tidy) c := by
  induction denotes with
  | nil => exact .nil
  | data clean _ ih => exact .data clean ih
  | empty text _ ih => exact .empty text ih
  | element text _ _ _ innerIH moreIH =>
    rw [List.map_cons, List.map_append]
    exact .element text blank_nil innerIH moreIH

/-! Where the text of a tag ends. -/

/-- Attributes of which each value may hold what `P` says of the quote around it. -/
inductive AttributesBy (P : Char → Text → Prop) : Text → List Attribute → Prop
  | nil {space : Text} (blank : Blank space) : AttributesBy P space []
  | cons {space before after key value rest : Text} {quote : Char} {attributes : List Attribute}
    (spaced : space ≠ []) (blank : Blank space) (name : IsName key) (beforeBlank : Blank before)
    (afterBlank : Blank after) (quoted : quote = '"' ∨ quote = '\'') (held : P quote value)
    (more : AttributesBy P rest attributes) :
    AttributesBy P (space ++ (key ++ (before ++ '=' :: (after ++ quote :: (value ++ quote :: rest)))))
      (⟨key, value⟩ :: attributes)

theorem AttributeList.byQuote {s : Text} {attributes : List Attribute}
    (list : AttributeList s attributes) :
    AttributesBy (fun quote value => quote ∉ value) s attributes := by
  induction list with
  | nil blank => exact .nil blank
  | cons spaced blank name beforeBlank afterBlank quoted closed _ _ ih =>
    exact .cons spaced blank name beforeBlank afterBlank quoted closed ih

theorem blank_space : Blank [' '] := fun c member => by
  obtain rfl := List.mem_singleton.mp member
  rfl

theorem attributesBy_written {attributes : List Attribute}
    (names : ∀ a ∈ attributes, IsName a.key) :
    AttributesBy (fun quote _ => quote = '"') (attributes.flatMap Attribute.write) attributes := by
  induction attributes with
  | nil => exact .nil blank_nil
  | cons a rest ih =>
    have written : AttributesBy (fun quote _ => quote = '"')
        ([' '] ++ (a.key ++ ([] ++ '=' :: ([] ++ '"' :: (a.value ++ '"' :: rest.flatMap Attribute.write)))))
        (⟨a.key, a.value⟩ :: rest) :=
      .cons (List.cons_ne_nil ' ' []) blank_space (names a (.head _)) blank_nil blank_nil (.inl rfl) rfl
        (ih fun b member => names b (.tail _ member))
    simpa [List.flatMap_cons, Attribute.write] using written

def TagEnd (ending : Text) : Prop := ending = ['>'] ∨ ending = ['/', '>']

theorem TagEnd.head {ending : Text} (ends : TagEnd ending) (rest : Text) :
    ∀ c ∈ (ending ++ rest).head?, isWhitespace c = false ∧ isDelimiter c = true := by
  rcases ends with rfl | rfl <;> rintro c ⟨⟩ <;> exact ⟨rfl, rfl⟩

theorem TagEnd.append_inj {a b x y : Text} (first : TagEnd a) (second : TagEnd b)
    (same : a ++ x = b ++ y) :
    a = b ∧ x = y := by
  rcases first with rfl | rfl <;> rcases second with rfl | rfl <;> simp_all

/-- A tag has ended where the other one has an attribute: they are not the same text. -/
theorem TagEnd.ne_key {ending key x y : Text} (ends : TagEnd ending) (name : IsName key) :
    ending ++ x ≠ key ++ y := by
  intro same
  obtain ⟨c, key, rfl⟩ := List.exists_cons_of_ne_nil name.1
  have delimiter := (ends.head x c (by rw [same]; rfl)).2
  rw [name.2 c (.head _)] at delimiter
  cases delimiter

/-- Two texts with the same attributes up to a value that holds its quote: the other one ends there. -/
theorem attributes_end {P : Char → Text → Prop} {list list' ending ending' x y : Text}
    {attributes attributes' : List Attribute} (strict : AttributeList list attributes)
    (other : AttributesBy P list' attributes') (ends : TagEnd ending) (ends' : TagEnd ending')
    (same : list ++ (ending ++ x) = list' ++ (ending' ++ y)) :
    (attributes = attributes' ∧ (∀ a ∈ attributes', ∃ quote, P quote a.value ∧ quote ∉ a.value) ∧
      ending = ending' ∧ x = y) ∨
    ∃ before a b after after' quote more, attributes' = before ++ a :: after ∧ attributes = before ++ b :: after' ∧
      a.key = b.key ∧ P quote a.value ∧ a.value = b.value ++ quote :: more := by
  -- on the strict text, attribute by attribute; the other one is cut the same way up to its quotes
  induction strict generalizing list' attributes' with
  | @nil space blank =>
    cases other with
    | nil blank' =>
      obtain ⟨_, same⟩ := blank_append_inj blank blank' (fun c member => (ends.head x c member).1)
        (fun c member => (ends'.head y c member).1) same
      exact .inl ⟨rfl, (fun _ member => by cases member), ends.append_inj ends' same⟩
    | cons spaced blank' name =>
      rw [List.append_assoc, List.append_assoc] at same
      obtain ⟨_, same⟩ := blank_append_inj blank blank' (fun c member => (ends.head x c member).1) (name.head_solid _) same
      exact absurd same (ends.ne_key name)
  | @cons space before after key value rest quote attributes spaced blank name beforeBlank afterBlank quoted closed
      clean more ih =>
    rw [List.append_assoc, List.append_assoc] at same
    cases other with
    | nil blank' =>
      obtain ⟨_, same⟩ := blank_append_inj blank blank' (name.head_solid _) (fun c member => (ends'.head y c member).1) same
      exact absurd same.symm (ends'.ne_key name)
    | @cons space' before' after' key' value' rest' quote' attributes' spaced' blank' name' beforeBlank' afterBlank'
        quoted' held more' =>
      rw [List.append_assoc, List.append_assoc] at same
      have solid {c : Char} {r : Text} (plain : isWhitespace c = false) :
          ∀ d ∈ (c :: r).head?, isWhitespace d = false := by
        rintro d ⟨⟩
        exact plain
      have mark {c : Char} (isQuote : c = '"' ∨ c = '\'') : isWhitespace c = false := by
        rcases isQuote with rfl | rfl <;> rfl
      have stops {space r : Text} (blank : Blank space) : ∀ c ∈ (space ++ '=' :: r).head?, isDelimiter c = true := by
        cases space with
        | nil => rintro c ⟨⟩; rfl
        | cons d space => rintro c ⟨⟩; exact isDelimiter_of_blank blank
      simp only [List.append_assoc, List.cons_append] at same
      obtain ⟨_, same⟩ := blank_append_inj blank blank' (name.head_solid _) (name'.head_solid _) same
      obtain ⟨sameKey, atMark⟩ := isName_append_inj name name' (stops beforeBlank) (stops beforeBlank') same
      obtain ⟨_, same⟩ := blank_append_inj beforeBlank beforeBlank' (solid rfl) (solid rfl) atMark
      obtain ⟨_, same⟩ := blank_append_inj afterBlank afterBlank' (solid (mark quoted)) (solid (mark quoted'))
        (List.cons.inj same).2
      obtain ⟨rfl, inQuotes⟩ := List.cons.inj same
      subst sameKey
      have valueSplit := splitOnce_append quote value (rest ++ (ending ++ x)) closed
      -- the strict value ends at the first quote, so it ends inside of a value that holds one
      by_cases free : quote ∈ value'
      · obtain ⟨front, back, split, absent⟩ := List.eq_append_cons_of_mem free
        rw [inQuotes, split, List.append_assoc, List.cons_append, splitOnce_append quote front _ absent] at valueSplit
        obtain ⟨rfl, _⟩ := Prod.mk.inj (Option.some.inj valueSplit)
        exact .inr ⟨[], ⟨key, value'⟩, ⟨key, front⟩, attributes', attributes, quote, back, rfl, rfl,
          rfl, held, split⟩
      · rw [inQuotes, splitOnce_append quote value' _ free] at valueSplit
        obtain ⟨rfl, others⟩ := Prod.mk.inj (Option.some.inj valueSplit)
        rcases ih more' others.symm with ⟨rfl, held', ends⟩ | ⟨front, a, b, later, later', q, lost, rfl, rfl, key', cut⟩
        · refine .inl ⟨rfl, fun a member => ?_, ends⟩
          rcases List.mem_cons.mp member with rfl | member
          · exact ⟨quote, held, free⟩
          · exact held' a member
        · exact .inr ⟨_ :: front, a, b, later, later', q, lost, rfl, rfl, key', cut⟩

theorem AttributesBy.stops {P : Char → Text → Prop} {list : Text} {attributes : List Attribute}
    (by_ : AttributesBy P list attributes) {ending : Text} (ends : TagEnd ending) (rest : Text) :
    ∀ c ∈ (list ++ (ending ++ rest)).head?, isDelimiter c = true := by
  cases by_ with
  | nil blank =>
    cases list with
    | nil => exact fun c member => (ends.head rest c member).2
    | cons d list => rintro c ⟨⟩; exact isDelimiter_of_blank blank
  | @cons space _ _ _ _ _ _ _ spaced blank =>
    cases space with
    | nil => exact absurd rfl spaced
    | cons d space => rintro c ⟨⟩; exact isDelimiter_of_blank blank

/-- The tag that a text begins with. -/
theorem TagText.append_inj {body body' ending ending' x y : Text} {tag tag' : Tag}
    (first : TagText body tag) (second : TagText body' tag') (ends : TagEnd ending)
    (ends' : TagEnd ending') (same : body ++ (ending ++ x) = body' ++ (ending' ++ y)) :
    tag = tag' ∧ ending = ending' ∧ x = y := by
  obtain ⟨list, rfl, attributes⟩ := first.attributes
  obtain ⟨list', rfl, attributes'⟩ := second.attributes
  rw [List.append_assoc, List.append_assoc] at same
  obtain ⟨name, same⟩ := isName_append_inj first.name second.name (attributes.byQuote.stops ends x)
    (attributes'.byQuote.stops ends' y) same
  rcases attributes_end attributes attributes'.byQuote ends ends' same with ⟨attrs, _, rest⟩ |
    ⟨_, a, _, _, _, quote, _, _, _, _, absent, cut⟩
  · refine ⟨?_, rest⟩
    obtain ⟨n, as⟩ := tag
    obtain ⟨n', as'⟩ := tag'
    cases name
    cases attrs
    rfl
  · exact absurd (cut ▸ List.mem_append_right _ (.head _)) absent

/-- The tag that a text begins with where a tag was written: the same, if no value holds a
double quote, else one with the first such value cut there. -/
theorem TagText.append_written {body ending ending' x y : Text} {tag written : Tag}
    (text : TagText body tag) (lexical : written.Lexical) (ends : TagEnd ending)
    (ends' : TagEnd ending') (same : body ++ (ending ++ x) = written.writeBody ++ (ending' ++ y)) :
    tag.name = written.name ∧ ((tag = written ∧ written.QuoteFree ∧ ending = ending' ∧ x = y) ∨
      ∃ before a b after after' more, written.attributes = before ++ a :: after ∧
        tag.attributes = before ++ b :: after' ∧ a.key = b.key ∧ a.value = b.value ++ '"' :: more) := by
  obtain ⟨list, rfl, attributes⟩ := text.attributes
  have own := attributesBy_written fun a member => (lexical.2 a member).1
  rw [Tag.writeBody, List.append_assoc, List.append_assoc] at same
  obtain ⟨name, same⟩ := isName_append_inj text.name lexical.1 (attributes.byQuote.stops ends x) (own.stops ends' y) same
  refine ⟨name, ?_⟩
  rcases attributes_end attributes own ends ends' same with ⟨attrs, quotes, rest⟩ |
    ⟨before, a, b, after, after', quote, more, split, split', key, rfl, cut⟩
  · refine .inl ⟨?_, fun a member => ?_, rest⟩
    · obtain ⟨n, as⟩ := tag
      obtain ⟨n', as'⟩ := written
      cases name
      cases attrs
      rfl
    · obtain ⟨quote, rfl, absent⟩ := quotes a member
      exact absent
  · exact .inr ⟨before, a, b, after, after', more, split, split', key, cut⟩

/-- A tag written with double quotes reads as itself, or its first value with such a quote is cut there. -/
theorem tagText_written {tag read : Tag} (lexical : tag.Lexical)
    (text : TagText tag.writeBody read) :
    tag.name = read.name ∧ ((tag.attributes = read.attributes ∧ tag.QuoteFree) ∨
      ∃ before a b after after' more, tag.attributes = before ++ a :: after ∧
        read.attributes = before ++ b :: after' ∧ a.key = b.key ∧ a.value = b.value ++ '"' :: more) := by
  have whole : tag.writeBody ++ (['>'] ++ []) = tag.writeBody ++ (['>'] ++ []) := rfl
  obtain ⟨name, either⟩ := text.append_written lexical (.inl rfl) (.inl rfl) whole
  refine ⟨name.symm, either.imp_left ?_⟩
  rintro ⟨rfl, quotes, _⟩
  exact ⟨rfl, quotes⟩

/-! One text, one forest. -/

/-- A forest without what stands in its tags. -/
def Content.shape : Content → Content
  | .nil => .nil
  | .data d rest => .data d rest.shape
  | .empty _ rest => .empty ⟨[], []⟩ rest.shape
  | .element _ kids rest => .element ⟨[], []⟩ kids.shape rest.shape

/-- Forests of one shape that are written as one text are the same. -/
theorem denotes_unique {events events' : List RawEvent} {c c' : Content} {x y : Text}
    (denotes : Denotes events c) (denotes' : Denotes events' c') (shape : c.shape = c'.shape)
    (same : events.flatMap RawEvent.source ++ x = events'.flatMap RawEvent.source ++ y) :
    c = c' ∧ x = y := by
  induction denotes generalizing events' c' x y with
  | nil =>
    cases denotes' with
    | nil => exact ⟨rfl, same⟩
    | data => cases shape
    | empty => cases shape
    | element => cases shape
  | data _ _ ih =>
    cases denotes' with
    | nil => cases shape
    | data _ more' =>
      obtain ⟨rfl, restShape⟩ := Content.data.inj shape
      simp only [List.flatMap_cons, List.append_assoc] at same
      obtain ⟨rfl, rest⟩ := ih more' restShape (List.append_cancel_left same)
      exact ⟨rfl, rest⟩
    | empty => cases shape
    | element => cases shape
  | empty text _ ih =>
    cases denotes' with
    | nil => cases shape
    | data => cases shape
    | empty text' more' =>
      simp only [List.flatMap_cons, RawEvent.source, emptyText, List.cons_append, List.append_assoc,
        List.cons.injEq, true_and] at same
      obtain ⟨rfl, _, same⟩ := text.append_inj text' (.inr rfl) (.inr rfl) same
      obtain ⟨rfl, rest⟩ := ih more' (Content.empty.inj shape).2 same
      exact ⟨rfl, rest⟩
    | element => cases shape
  | element text blank _ _ innerIH moreIH =>
    cases denotes' with
    | nil => cases shape
    | data => cases shape
    | empty => cases shape
    | element text' blank' inner' more' =>
      simp only [List.flatMap_cons, RawEvent.source, startText, List.cons_append, List.append_assoc,
        List.cons.injEq, true_and] at same
      obtain ⟨rfl, _, same⟩ := text.append_inj text' (.inl rfl) (.inl rfl) same
      obtain ⟨_, innerShape, moreShape⟩ := Content.element.inj shape
      simp only [List.flatMap_append, List.append_assoc] at same
      obtain ⟨rfl, same⟩ := innerIH inner' innerShape same
      -- the end tags have one name, and only whitespace can stand behind it
      simp only [List.flatMap_cons, RawEvent.source, closeTag, List.cons_append, List.append_assoc,
        List.cons.injEq, true_and, List.append_cancel_left_eq] at same
      obtain ⟨_, same⟩ := blank_append_inj blank blank' (by rintro c ⟨⟩; rfl) (by rintro c ⟨⟩; rfl) same
      obtain ⟨rfl, rest⟩ := moreIH more' moreShape (List.cons.inj same).2
      exact ⟨rfl, rest⟩

end Markup
