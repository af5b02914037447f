import SoapServer.Markup.Reader

/-! A reader over characters, and the proof that it meets the laws stated for readers.

It reads tags, character data, references, CDATA sections and comments. Each step
consumes one unit of fuel and reports one event, so fuel is counted in events.
-/

set_option autoImplicit false

namespace Markup

/-! Splitting. -/

theorem splitMark_append {mark s before after : Text} (rest : Text)
    (found : splitMark mark s = some (before, after)) :
    splitMark mark (s ++ rest) = some (before, after ++ rest) := by
  induction s generalizing before with
  | nil => simp [splitMark] at found
  | cons x xs ih =>
    simp only [splitMark] at found
    cases head : stripPrefix mark (x :: xs) with
    | some tail =>
      simp only [head, Option.some.injEq, Prod.mk.injEq] at found
      obtain ⟨rfl, rfl⟩ := found
      have whole : stripPrefix mark (x :: xs ++ rest) = some (tail ++ rest) := by
        rw [stripPrefix_eq_some] at head ⊢
        rw [head, List.append_assoc]
      simp only [List.cons_append] at whole ⊢
      simp [splitMark, whole]
    | none =>
      simp only [head, Option.map_eq_some_iff, Prod.mk.injEq] at found
      obtain ⟨⟨before', after'⟩, deeper, rfl, rfl⟩ := found
      have whole : stripPrefix mark (x :: (xs ++ rest)) = none := by
        -- a match that needed `rest` would run past the occurrence found in `xs`
        by_contra some
        obtain ⟨tail, matched⟩ := Option.ne_none_iff_exists'.mp some
        have long := splitMark_length deeper
        rw [stripPrefix_eq_some] at matched
        have start : mark <+: x :: xs := by
          have cover : x :: xs <+: mark ++ tail := matched ▸ ⟨rest, by simp⟩
          have own : mark <+: mark ++ tail := ⟨tail, rfl⟩
          exact List.prefix_of_prefix_length_le own cover (by simp; omega)
        obtain ⟨tail', same⟩ := start
        rw [stripPrefix_eq_some.mpr same.symm] at head
        cases head
      simp [splitMark, whole, ih deeper]
where
  splitMark_length {mark s before after : Text} (found : splitMark mark s = some (before, after)) :
      mark.length ≤ s.length := by
    induction s generalizing before after with
    | nil => simp [splitMark] at found
    | cons x xs ih =>
      simp only [splitMark] at found
      cases head : stripPrefix mark (x :: xs) with
      | some tail =>
        rw [stripPrefix_eq_some] at head
        rw [head]
        simp
      | none =>
        simp only [head, Option.map_eq_some_iff, Prod.mk.injEq] at found
        obtain ⟨⟨before', after'⟩, deeper, _, _⟩ := found
        have := ih deeper
        simp only [List.length_cons]
        omega

theorem takeWhile_append_stop {p : Char → Bool} {a : Text} {c : Char} {r : Text}
    (all : ∀ x ∈ a, p x = true) (stop : p c = false) :
    (a ++ c :: r).takeWhile p = a ∧ (a ++ c :: r).dropWhile p = c :: r := by
  induction a with
  | nil => simp [stop]
  | cons x xs ih =>
    obtain ⟨take, drop⟩ := ih fun y member => all y (List.mem_cons_of_mem _ member)
    simp [all x List.mem_cons_self, take, drop]

theorem takeWhile_all {p : Char → Bool} {a : Text} (all : ∀ x ∈ a, p x = true) :
    a.takeWhile p = a ∧ a.dropWhile p = [] := by
  induction a with
  | nil => simp
  | cons x xs ih =>
    obtain ⟨take, drop⟩ := ih fun y member => all y (List.mem_cons_of_mem _ member)
    simp [all x List.mem_cons_self, take, drop]

/-! Scanning. -/

/-- The attributes up to the end of the tag, whether the tag closes itself, and the rest. -/
def scanAttributes : Nat → Text → Option (List Attribute × Bool × Text)
  | 0, _ => none
  | _ + 1, [] => none
  | fuel + 1, c :: s =>
    if c = '>' then some ([], false, s)
    else if c = '/' then (stripPrefix ['>'] s).map fun rest => ([], true, rest)
    else if isWhitespace c then scanAttributes fuel s
    else
      match splitOnce '=' (c :: s) with
      | some (key, quote :: s') =>
        if quote = '"' ∨ quote = '\'' then
          match splitOnce quote s' with
          | some (value, s'') =>
            (scanAttributes fuel s'').map fun found => (⟨key, value⟩ :: found.1, found.2)
          | none => none
        else none
      | _ => none

/-- One piece of markup after its `<`. -/
def scanMarkup (s : Text) : Option (Event × Text) :=
  match stripPrefix commentOpen s with
  | some s' => (splitMark commentClose s').map fun parts => (.data (.comment parts.1), parts.2)
  | none =>
    match stripPrefix sectionOpen s with
    | some s' => (splitMark sectionClose s').map fun parts => (.data (.cdata parts.1), parts.2)
    | none =>
      match stripPrefix ['/'] s with
      | some s' => (splitOnce '>' s').map fun parts => (.close parts.1, parts.2)
      | none =>
        let name := s.takeWhile fun c => !isDelimiter c
        (scanAttributes (s.length + 1) (s.dropWhile fun c => !isDelimiter c)).map fun found =>
          (if found.2.1 then .empty (Tag.read ⟨name, found.1⟩)
           else .start (Tag.read ⟨name, found.1⟩), found.2.2)

def isTextChar (c : Char) : Bool := !(c = '<' || c = '&')

/-- A reference after its `&`, which ends before anything else begins. -/
def scanReference (s : Text) : Option (Text × Text) :=
  match splitOnce ';' s with
  | some (name, rest) => if name.all isTextChar then some (name, rest) else none
  | none => none

def scan : Nat → Text → List (Except Text Event)
  | 0, _ => []
  | _ + 1, [] => []
  | fuel + 1, c :: s =>
    if c = '<' then
      match scanMarkup s with
      | some (event, rest) => .ok event :: scan fuel rest
      | none => [.error "syntax error".toList]
    else if c = '&' then
      match scanReference s with
      | some (name, rest) => .ok (.data (.generalRef name)) :: scan fuel rest
      | none => [.error "unclosed reference".toList]
    else
      .ok (.data (.text ((c :: s).takeWhile isTextChar))) ::
        scan fuel ((c :: s).dropWhile isTextChar)

/-- The scope inside a tag, unless one of its declarations is refused. -/
def enterTag (stack : List Scope) (tag : ReadTag) : Option Scope :=
  if (tag.attributes.filterMap id).any refusedBinding then none
  else some ((stack.headD Scope.initial).enter (tag.attributes.filterMap id))

/-- Resolve a sequence of events, keeping the scopes of the open elements on a stack. -/
def resolveEvents : List Scope → List (Except Text Event) → List (Except Text NsEvent)
  | _, [] => []
  | _, .error e :: _ => [.error e]
  | stack, .ok (.data d) :: rest => .ok (.unbound, .data d) :: resolveEvents stack rest
  | stack, .ok (.empty tag) :: rest =>
    match enterTag stack tag with
    | some inner => .ok (resolveElement inner tag.name, .empty tag) :: resolveEvents stack rest
    | none => [.error "invalid binding".toList]
  | stack, .ok (.start tag) :: rest =>
    match enterTag stack tag with
    | some inner => .ok (resolveElement inner tag.name, .start tag) :: resolveEvents (inner :: stack) rest
    | none => [.error "invalid binding".toList]
  | stack, .ok (.close name) :: rest =>
    .ok (resolveElement (stack.headD Scope.initial) name, .close name) ::
      resolveEvents stack.tail rest

/-- Trimming of character data on a sequence of events. -/
def trimEvents : List (Except Text Event) → List (Except Text Event)
  | [] => []
  | .ok (.data (.text s)) :: rest =>
    if trimWhitespace s = [] then trimEvents rest
    else .ok (.data (.text (trimWhitespace s))) :: trimEvents rest
  | item :: rest => item :: trimEvents rest

/-- What is scanned of a text, trimmed or not. -/
def scanEvents (trim : Bool) (s : Text) : List (Except Text Event) :=
  let items := scan (s.length + 1) s
  if trim then trimEvents items else items

/-- The scanner as a reader. -/
def scanner : Reader where
  events := scanEvents
  nsEvents trim s := resolveEvents [] (scanEvents trim s)

/-! Reading back one tag. -/

theorem isDelimiter_of_isWhitespace {c : Char} (white : isWhitespace c = true) :
    isDelimiter c = true := by
  simp [isDelimiter, white]

theorem IsName.ne {s : Text} (name : IsName s) {c d : Char} (member : c ∈ s)
    (delimiter : isDelimiter d = true) : c ≠ d := by
  rintro rfl
  simp [name.2 c member] at delimiter

theorem scanAttributes_write (attrs : List Attribute) (fuel : Nat) (closing : Bool) (rest : Text)
    (names : ∀ a ∈ attrs, IsName a.key) (quotes : ∀ a ∈ attrs, a.QuoteFree) :
    scanAttributes (2 * attrs.length + 1 + fuel)
      (attrs.flatMap Attribute.write ++ ((if closing then ['/', '>'] else ['>']) ++ rest)) =
        some (attrs, closing, rest) := by
  induction attrs with
  | nil =>
    rw [show 2 * ([] : List Attribute).length + 1 + fuel = fuel + 1 by simp [Nat.add_comm]]
    cases closing <;> simp [scanAttributes, stripPrefix]
  | cons a more ih =>
    have moreRead := ih (fun b member => names b (List.mem_cons_of_mem _ member))
      (fun b member => quotes b (List.mem_cons_of_mem _ member))
    have name := names a List.mem_cons_self
    have quoteFree := quotes a List.mem_cons_self
    have noEquals : '=' ∉ a.key := fun member => name.ne member (by decide) rfl
    obtain ⟨first, others, split⟩ := List.exists_cons_of_ne_nil name.1
    have firstMember : first ∈ a.key := by rw [split]; exact List.mem_cons_self
    -- the first character of the key neither ends the tag nor is skipped as a blank
    have notClose : first ≠ '>' := name.ne firstMember (by decide)
    have notSlash : first ≠ '/' := name.ne firstMember (by decide)
    have notWhite : isWhitespace first = false := by
      cases white : isWhitespace first with
      | false => rfl
      | true => exact absurd rfl (name.ne firstMember (isDelimiter_of_isWhitespace white))
    generalize ends : (if closing then ['/', '>'] else ['>']) ++ rest = tail at moreRead ⊢
    -- the key ends at the equals sign, which no name holds
    have key : splitOnce '=' (first :: (others ++ '=' :: '"' :: (a.value ++ '"' ::
        (more.flatMap Attribute.write ++ tail)))) =
        some (a.key, '"' :: (a.value ++ '"' :: (more.flatMap Attribute.write ++ tail))) := by
      have := splitOnce_append '=' a.key ('"' :: (a.value ++ '"' :: (more.flatMap Attribute.write ++ tail)))
        noEquals
      rwa [split, List.cons_append, ← split] at this
    have value := splitOnce_append '"' a.value (more.flatMap Attribute.write ++ tail) quoteFree
    rw [show 2 * (a :: more).length + 1 + fuel = (2 * more.length + 1 + fuel) + 1 + 1 by
      simp only [List.length_cons]; omega]
    have shape : (a :: more).flatMap Attribute.write ++ tail =
        ' ' :: first :: (others ++ '=' :: '"' :: (a.value ++ '"' ::
          (more.flatMap Attribute.write ++ tail))) := by
      simp [Attribute.write, split]
    rw [shape]
    have space : isWhitespace ' ' = true := by decide
    simp [scanAttributes, space, notClose, notSlash, notWhite, key, value, moreRead]

theorem length_flatMap_write (attrs : List Attribute) :
    2 * attrs.length ≤ (attrs.flatMap Attribute.write).length := by
  induction attrs with
  | nil => simp
  | cons a rest ih =>
    simp only [List.length_cons, List.flatMap_cons, List.length_append, Attribute.write]
    omega

theorem scanMarkup_tag (tag : Tag) (closing : Bool) (rest : Text)
    (lexical : tag.Lexical) (quotes : tag.QuoteFree) :
    scanMarkup (tag.writeBody ++ ((if closing then ['/', '>'] else ['>']) ++ rest)) =
      some (if closing then .empty tag.read else .start tag.read, rest) := by
  obtain ⟨name, attrs⟩ := tag
  obtain ⟨isName, keys⟩ := lexical
  obtain ⟨first, others, split⟩ := List.exists_cons_of_ne_nil isName.1
  simp only at split isName keys
  have firstMember : first ∈ name := by rw [split]; exact List.mem_cons_self
  generalize ends : attrs.flatMap Attribute.write ++ ((if closing then ['/', '>'] else ['>']) ++ rest) = tail
  have whole : Tag.writeBody ⟨name, attrs⟩ ++ ((if closing then ['/', '>'] else ['>']) ++ rest) =
      name ++ tail := by
    simp [Tag.writeBody, ← ends]
  -- behind the name stands a blank, a slash or the closing bracket
  obtain ⟨stop, more, tailShape, stops⟩ : ∃ c r, tail = c :: r ∧ isDelimiter c = true := by
    cases attrs with
    | nil =>
      cases closing with
      | false => exact ⟨'>', rest, by simp [← ends], by decide⟩
      | true => exact ⟨'/', '>' :: rest, by simp [← ends], by decide⟩
    | cons a others =>
      exact ⟨' ', _, by rw [← ends, List.flatMap_cons, Attribute.write]; rfl, by decide⟩
  -- a name begins neither a comment nor a section, nor an end tag
  have notBang : first ≠ '!' := isName.ne firstMember (by decide)
  have notSlash : first ≠ '/' := isName.ne firstMember (by decide)
  have noComment : stripPrefix commentOpen (name ++ tail) = none := by
    simp [split, stripPrefix, commentOpen, Ne.symm notBang]
  have noSection : stripPrefix sectionOpen (name ++ tail) = none := by
    simp [split, stripPrefix, sectionOpen, Ne.symm notBang]
  have noClose : stripPrefix ['/'] (name ++ tail) = none := by
    simp [split, stripPrefix, Ne.symm notSlash]
  have nameRead : (name ++ tail).takeWhile (fun c => !isDelimiter c) = name ∧
      (name ++ tail).dropWhile (fun c => !isDelimiter c) = tail := by
    rw [tailShape]
    exact takeWhile_append_stop (fun x member => by simp [isName.2 x member]) (by simp [stops])
  -- two rounds for each attribute and one for the end are as many as there are characters
  have enough : ∃ fuel, (name ++ tail).length + 1 = 2 * attrs.length + 1 + fuel := by
    have := length_flatMap_write attrs
    refine ⟨(name ++ tail).length - 2 * attrs.length, ?_⟩
    rw [List.length_append, ← ends, List.length_append]
    omega
  obtain ⟨fuel, enough⟩ := enough
  have attrsRead := scanAttributes_write attrs fuel closing rest (fun a member => (keys a member).1) quotes
  rw [ends] at attrsRead
  rw [whole]
  simp only [scanMarkup, noComment, noSection, noClose, nameRead.1, nameRead.2, enough, attrsRead,
    Option.map_some]

theorem scanMarkup_close (name rest : Text) (isName : IsName name) :
    scanMarkup ('/' :: (name ++ '>' :: rest)) = some (.close name, rest) := by
  have absent : '>' ∉ name := fun member => isName.ne member (by decide) rfl
  simp [scanMarkup, stripPrefix, commentOpen, sectionOpen, splitOnce_append '>' name rest absent]

/-! Reading back a forest. -/

/-- The text goes on with markup, a reference, or not at all. -/
def Stops (s : Text) : Prop := ∀ c ∈ s.head?, isTextChar c = false

theorem Stops.cons {c : Char} (r : Text) (stop : isTextChar c = false) : Stops (c :: r) := by
  intro d member
  simp only [List.head?_cons, Option.mem_def, Option.some.injEq] at member
  exact member ▸ stop

/-- No run of character data is empty or follows another one. -/
def Content.Normal : Content → Prop
  | .nil => True
  | .data (.text s) rest => s ≠ [] ∧ (∀ t r, rest ≠ .data (.text t) r) ∧ rest.Normal
  | .data _ rest => rest.Normal
  | .empty _ rest => rest.Normal
  | .element _ kids rest => kids.Normal ∧ rest.Normal

theorem Content.stops_of_no_text {c : Content} {tail : Text}
    (noText : ∀ t r, c ≠ .data (.text t) r) (writable : c.AllData Data.Lexical)
    (stops : Stops tail) :
    Stops (c.write ++ tail) := by
  cases c with
  | nil => exact stops
  | empty tag rest => exact Stops.cons _ (by decide)
  | element tag kids rest => exact Stops.cons _ (by decide)
  | data d rest =>
    cases d with
    | text t => exact absurd rfl (noText t rest)
    | cdata raw => exact Stops.cons _ (by decide)
    | generalRef name => exact Stops.cons _ (by decide)
    | comment raw => exact Stops.cons _ (by decide)
    | pi raw => exact writable.1.elim
    | decl raw => exact writable.1.elim
    | docType raw => exact writable.1.elim

theorem scan_text (s tail : Text) (fuel : Nat) (nonempty : s ≠ [])
    (clean : ∀ c ∈ s, c ≠ '<' ∧ c ≠ '&') (stops : Stops tail) :
    scan (fuel + 1) (s ++ tail) = .ok (.data (.text s)) :: scan fuel tail := by
  obtain ⟨first, others, rfl⟩ := List.exists_cons_of_ne_nil nonempty
  have textChars : ∀ c ∈ first :: others, isTextChar c = true := by
    intro c member
    simp [isTextChar, clean c member]
  have read : (first :: others ++ tail).takeWhile isTextChar = first :: others ∧
      (first :: others ++ tail).dropWhile isTextChar = tail := by
    cases tail with
    | nil => simpa using takeWhile_all textChars
    | cons c r => exact takeWhile_append_stop textChars (stops c rfl)
  have head := clean first List.mem_cons_self
  rw [List.cons_append] at read ⊢
  simp only [scan, head.1, head.2, ↓reduceIte, read]

theorem scanReference_closed {name : Text} (rest : Text) (closed : (Data.generalRef name).Lexical) :
    scanReference (name ++ ';' :: rest) = some (name, rest) := by
  have plain : name.all isTextChar = true := List.all_eq_true.mpr fun c member => by
    simp [isTextChar, closed c member]
  simp only [scanReference, splitOnce_append ';' name rest fun member => (closed ';' member).1 rfl,
    plain, if_true]

/-- Reading the written form of a forest reports its events and goes on behind it. -/
theorem scan_write (c : Content) (tail : Text) (fuel : Nat) (normal : c.Normal)
    (writable : c.Writable) (stops : Stops tail) :
    scan (c.events.length + fuel) (c.write ++ tail) = stream c.events ++ scan fuel tail := by
  obtain ⟨lexical, quotes, data⟩ := writable
  -- one round for each event; the text behind the forest stops a run of character data
  induction c generalizing tail fuel with
  | nil => simp [Content.events, Content.write]
  | data d rest ih =>
    have restFuel : (Content.data d rest).events.length + fuel = rest.events.length + fuel + 1 := by
      simp only [Content.events, List.length_cons]; omega
    rw [restFuel]
    simp only [Content.write, Content.events, List.append_assoc, stream_cons, List.cons_append]
    cases d with
    | text s =>
      obtain ⟨nonempty, noText, restNormal⟩ := normal
      simp only [Data.write]
      rw [scan_text s _ _ nonempty data.1 (Content.stops_of_no_text noText data.2 stops),
        ih tail fuel restNormal stops lexical quotes data.2]
    | cdata raw =>
      have read : splitMark sectionClose (raw ++ (sectionClose ++ (rest.write ++ tail))) =
          some (raw, rest.write ++ tail) := by
        simpa using splitMark_append (rest.write ++ tail) data.1
      have markup : scanMarkup (sectionOpen ++ (raw ++ (sectionClose ++ (rest.write ++ tail)))) =
          some (.data (.cdata raw), rest.write ++ tail) := by
        have noComment : stripPrefix commentOpen
            (sectionOpen ++ (raw ++ (sectionClose ++ (rest.write ++ tail)))) = none := by
          simp [stripPrefix, commentOpen, sectionOpen]
        simp only [scanMarkup, noComment, stripPrefix_append, read, Option.map_some]
      simp only [Data.write, scan, List.append_assoc, List.cons_append, ↓reduceIte, markup,
        ih tail fuel normal stops lexical quotes data.2]
    | generalRef name =>
      have read := scanReference_closed (rest.write ++ tail) data.1
      simp only [Data.write, List.cons_append, List.append_assoc, List.nil_append, scan]
      simp [read, ih tail fuel normal stops lexical quotes data.2]
    | comment raw =>
      have read : splitMark commentClose (raw ++ (commentClose ++ (rest.write ++ tail))) =
          some (raw, rest.write ++ tail) := by
        simpa using splitMark_append (rest.write ++ tail) data.1
      simp only [Data.write, scan, List.append_assoc, List.cons_append, ↓reduceIte, scanMarkup,
        stripPrefix_append, read, Option.map_some, ih tail fuel normal stops lexical quotes data.2]
    | pi raw => exact data.1.elim
    | decl raw => exact data.1.elim
    | docType raw => exact data.1.elim
  | empty tag rest ih =>
    have restFuel : (Content.empty tag rest).events.length + fuel = rest.events.length + fuel + 1 := by
      simp only [Content.events, List.length_cons]; omega
    have markup := scanMarkup_tag tag true (rest.write ++ tail) lexical.1 quotes.1
    simp only [↓reduceIte, List.cons_append, List.nil_append] at markup
    rw [restFuel]
    simp only [Content.write, List.cons_append, List.append_assoc, scan, ↓reduceIte, markup,
      Content.events, stream_cons]
    rw [ih tail fuel normal stops lexical.2 quotes.2 data]
  | element tag kids rest kidsIH restIH =>
    have allFuel : (Content.element tag kids rest).events.length + fuel =
        kids.events.length + (rest.events.length + fuel + 1) + 1 := by
      simp only [Content.events, List.length_cons, List.length_append]; omega
    have markup := scanMarkup_tag tag false
      (kids.write ++ (closeTag tag.name ++ (rest.write ++ tail))) lexical.1 quotes.1
    have close := scanMarkup_close tag.name (rest.write ++ tail) lexical.1.1
    -- the end tag stands behind the children
    have kidsRead := kidsIH (closeTag tag.name ++ (rest.write ++ tail)) (rest.events.length + fuel + 1)
      normal.1 (Stops.cons _ (by decide)) lexical.2.1 quotes.2.1 data.1
    simp only [Bool.false_eq_true, ↓reduceIte, List.cons_append, List.nil_append] at markup
    rw [allFuel]
    simp only [Content.write, List.cons_append, List.append_assoc, scan, ↓reduceIte, markup,
      Content.events, stream_cons, stream_append, kidsRead]
    simp only [closeTag, List.cons_append, List.append_assoc, List.nil_append, scan, ↓reduceIte,
      close, restIH tail fuel normal.2 stops lexical.2.2 quotes.2.2 data.2]

namespace Content

theorem prependText_write (s : Text) (c : Content) : (prependText s c).write = s ++ c.write := by
  unfold prependText
  split
  · simp [write, Data.write]
  · split
    · next empty => simp [empty]
    · simp [write, Data.write]

theorem coalesce_write (c : Content) : c.coalesce.write = c.write := by
  induction c with
  | nil => rfl
  | data d rest ih =>
    cases d <;> simp only [coalesce, prependText_write, write, Data.write, ih]
  | empty tag rest ih => simp only [coalesce, write, ih]
  | element tag kids rest kidsIH restIH => simp only [coalesce, write, kidsIH, restIH]

theorem elements_prependText (s : Text) (c : Content) :
    (c.prependText s).elements = c.elements := by
  unfold prependText
  split
  · rfl
  · split <;> rfl

/-- The top-level elements keep their places, each with its content coalesced. -/
theorem elements_coalesce (c : Content) :
    c.coalesce.elements = c.elements.map fun el => ⟨el.tag, el.kids.map coalesce⟩ := by
  induction c with
  | nil => rfl
  | data d rest ih =>
    cases d with
    | text s => exact (elements_prependText s _).trans ih
    | _ => exact ih
  | empty tag rest ih => exact congrArg _ ih
  | element tag kids rest _ ih => exact congrArg _ ih

theorem prependText_normal (s : Text) {c : Content} (normal : c.Normal) :
    (prependText s c).Normal := by
  unfold prependText
  split
  · exact ⟨by simp [normal.1], normal.2⟩
  · next noText =>
    split
    · exact normal
    · next nonempty => exact ⟨nonempty, noText, normal⟩

theorem coalesce_normal (c : Content) : c.coalesce.Normal := by
  induction c with
  | nil => trivial
  | data d rest ih =>
    cases d with
    | text s => exact prependText_normal s ih
    | _ => exact ih
  | empty tag rest ih => exact ih
  | element tag kids rest kidsIH restIH => exact ⟨kidsIH, restIH⟩

theorem prependText_allTags (P : Tag → Prop) (s : Text) (c : Content) :
    (prependText s c).AllTags P ↔ c.AllTags P := by
  unfold prependText
  split
  · rfl
  · split <;> rfl

theorem coalesce_allTags (P : Tag → Prop) (c : Content) : c.coalesce.AllTags P ↔ c.AllTags P := by
  induction c with
  | nil => rfl
  | data d rest ih =>
    cases d with
    | text s => exact (prependText_allTags P s _).trans ih
    | _ => exact ih
  | empty tag rest ih => simp only [coalesce, AllTags, ih]
  | element tag kids rest kidsIH restIH => simp only [coalesce, AllTags, kidsIH, restIH]

theorem prependText_allData {P : Data → Prop}
    (join : ∀ s t, P (.text s) → P (.text t) → P (.text (s ++ t))) {s : Text} {c : Content}
    (first : P (.text s)) (all : c.AllData P) : (prependText s c).AllData P := by
  unfold prependText
  split
  · exact ⟨join s _ first all.1, all.2⟩
  · split
    · exact all
    · exact ⟨first, all⟩

/-- What holds of joined runs of character data holds of the runs a reader sees. -/
theorem coalesce_allData {P : Data → Prop}
    (join : ∀ s t, P (.text s) → P (.text t) → P (.text (s ++ t))) {c : Content}
    (all : c.AllData P) : c.coalesce.AllData P := by
  induction c with
  | nil => trivial
  | data d rest ih =>
    cases d with
    | text s => exact prependText_allData join all.1 (ih all.2)
    | _ => exact ⟨all.1, ih all.2⟩
  | empty tag rest ih => exact ih all
  | element tag kids rest kidsIH restIH => exact ⟨kidsIH all.1, restIH all.2⟩

theorem coalesce_lexical {c : Content} (lexical : c.AllData Data.Lexical) :
    c.coalesce.AllData Data.Lexical :=
  coalesce_allData (fun _ _ first next x member => (List.mem_append.mp member).elim (first x) (next x)) lexical

theorem coalesce_writable {c : Content} (writable : c.Writable) : c.coalesce.Writable :=
  ⟨(coalesce_allTags _ c).mpr writable.tags, (coalesce_allTags _ c).mpr writable.quotes,
    coalesce_lexical writable.data⟩

/-- Every event of a normal forest takes at least one character. -/
theorem events_length_le_write {c : Content} (normal : c.Normal) :
    c.events.length ≤ c.write.length := by
  induction c with
  | nil => simp [events]
  | data d rest ih =>
    cases d with
    | text s =>
      obtain ⟨nonempty, _, restNormal⟩ := normal
      have := List.length_pos_iff.mpr nonempty
      have := ih restNormal
      simp only [events, write, Data.write, List.length_cons, List.length_append]
      omega
    | _ =>
      have := ih normal
      simp only [events, write, Data.write, List.length_cons, List.length_append]
      omega
  | empty tag rest ih =>
    have := ih normal
    simp only [events, write, List.length_cons, List.length_append]
    omega
  | element tag kids rest kidsIH restIH =>
    have := kidsIH normal.1
    have := restIH normal.2
    simp only [events, write, closeTag, List.length_cons, List.length_append]
    omega

end Content

theorem scan_document (c : Content) (writable : c.Writable) :
    scan (c.write.length + 1) c.write = stream c.coalesce.events := by
  have normal := c.coalesce_normal
  have bound := Content.events_length_le_write normal
  rw [c.coalesce_write] at bound
  have whole := scan_write c.coalesce [] (c.write.length + 1 - c.coalesce.events.length) normal
    (Content.coalesce_writable writable) (fun _ absent => by simp at absent)
  rw [Nat.add_sub_of_le (by omega), List.append_nil, c.coalesce_write] at whole
  rw [whole]
  cases c.write.length + 1 - c.coalesce.events.length <;> simp [scan]

/-! Resolution and trimming. -/

theorem enterTag_resolvable {tag : Tag} (unique : tag.Unique) (resolvable : tag.Resolvable)
    (stack : List Scope) :
    enterTag stack tag.read = some ((stack.headD Scope.initial).enter tag.attributes) := by
  have own : tag.read.attributes.filterMap id = tag.attributes := by
    simp [Tag.read_of_unique unique]
  have taken : ¬ tag.attributes.any refusedBinding = true := by
    simpa using fun a member => (resolvable.bindings a member).1
  rw [enterTag, own, if_neg taken]

theorem resolveEvents_content (c : Content) (scope : Scope) (stack : List Scope)
    (rest : List (Except Text Event)) (unique : c.AllTags Tag.Unique)
    (resolvable : c.AllTags Tag.Resolvable) (top : stack.headD Scope.initial = scope) :
    resolveEvents stack (stream c.events ++ rest) =
      stream (c.resolved scope) ++ resolveEvents stack rest := by
  induction c generalizing scope stack rest with
  | nil => rfl
  | data d more ih =>
    simp only [Content.events, Content.resolved, stream_cons, List.cons_append, resolveEvents,
      ih scope stack rest unique resolvable top]
  | empty tag more ih =>
    simp only [Content.events, Content.resolved, stream_cons, List.cons_append, resolveEvents,
      enterTag_resolvable unique.1 resolvable.1, top, ih scope stack rest unique.2 resolvable.2 top]
    rfl
  | element tag kids more kidsIH moreIH =>
    have inner := kidsIH (scope.enter tag.attributes) (scope.enter tag.attributes :: stack)
      (.ok (.close tag.name) :: (stream more.events ++ rest)) unique.2.1 resolvable.2.1 rfl
    simp only [Content.events, Content.resolved, stream_cons, stream_append, List.cons_append,
      List.append_assoc, resolveEvents, enterTag_resolvable unique.1 resolvable.1, top]
    rw [inner]
    simp only [resolveEvents, List.headD_cons, List.tail_cons,
      moreIH scope stack rest unique.2.2 resolvable.2.2 top]
    rfl

theorem resolveEvents_nil (c : Content) (unique : c.AllTags Tag.Unique)
    (resolvable : c.AllTags Tag.Resolvable) :
    resolveEvents [] (stream c.events) = stream (c.resolved Scope.initial) := by
  have := resolveEvents_content c Scope.initial [] [] unique resolvable rfl
  simpa [resolveEvents] using this

theorem trimEvents_content (c : Content) (rest : List (Except Text Event)) :
    trimEvents (stream c.events ++ rest) = stream c.trim.events ++ trimEvents rest := by
  induction c generalizing rest with
  | nil => rfl
  | data d more ih =>
    cases d with
    | text s =>
      simp only [Content.events, Content.trim, stream_cons, List.cons_append, trimEvents, ih]
      split <;> simp [Content.events]
    | _ => simp [Content.events, Content.trim, trimEvents, ih]
  | empty tag more ih => simp [Content.events, Content.trim, trimEvents, ih]
  | element tag kids more kidsIH moreIH =>
    simp [Content.events, Content.trim, trimEvents, kidsIH, moreIH]

theorem Content.trim_allTags (P : Tag → Prop) (c : Content) : c.trim.AllTags P ↔ c.AllTags P := by
  induction c with
  | nil => rfl
  | data d rest ih =>
    cases d with
    | text s =>
      simp only [trim]
      split
      · exact ih
      · exact ih
    | _ => exact ih
  | empty tag rest ih => simp only [trim, AllTags, ih]
  | element tag kids rest kidsIH restIH => simp only [trim, AllTags, kidsIH, restIH]

theorem scanner_reads (s : Text) (c : Content) :
    scanner.Reads s c ↔ scan (s.length + 1) s = stream c.events := Iff.rfl

theorem scanEvents_trimmed {s : Text} {c : Content} (reads : scanner.Reads s c) :
    scanEvents true s = stream c.trim.events := by
  have trimmed := trimEvents_content c []
  simp only [List.append_nil, trimEvents] at trimmed
  simp only [scanEvents, (scanner_reads s c).mp reads, ↓reduceIte, trimmed]

theorem scanner_lawful : scanner.Lawful where
  written c writable _ := (scanner_reads _ _).mpr (scan_document c writable)
  trims _ _ reads := scanEvents_trimmed reads
  resolves s c unique resolvable reads := by
    have items : scanEvents false s = stream c.events := reads
    simp only [scanner, items, resolveEvents_nil c unique resolvable]
  resolvesTrimmed s c unique resolvable reads := by
    simp only [scanner, scanEvents_trimmed reads]
    exact resolveEvents_nil c.trim ((Content.trim_allTags _ c).mpr unique) ((Content.trim_allTags _ c).mpr resolvable)

end Markup
