import SoapServer.Markup.Scanner

/-! Reading is local: texts that read as documents can be put together, and what
stands between two tags reads the same between two others.
-/

set_option autoImplicit false

namespace Markup

/-- A text between the start tag and the end tag of an element. -/
def Tag.around (tag : Tag)
    (s : Text) : Text := '<' :: (tag.writeBody ++ '>' :: (s ++ closeTag tag.name))

/-- A reader reports one event after another, whatever the events before it were. A text
that begins with markup does not go on with the character data before it. -/
structure Reader.Compositional (reader : Reader) : Prop where
  appended : ∀ (s t : Text) (a b : Content), s.head? = some '<' → t.head? = some '<' → reader.Reads s a →
    reader.Reads t b → reader.Reads (s ++ t) (a.append b)
  nested : ∀ (tag : Tag) (s : Text) (c : Content), tag.Lexical → tag.QuoteFree → s.head? = some '<' →
    reader.Reads s c → reader.Reads (tag.around s) (.element tag c .nil)
  rewrapped : ∀ (tag other : Tag) (s : Text) (c : Content), tag.Lexical → tag.QuoteFree → other.Lexical →
    other.QuoteFree → reader.Reads (tag.around s) (.element tag c .nil) →
      reader.Reads (other.around s) (.element other c .nil)

theorem Content.events_append (a b : Content) : (a.append b).events = a.events ++ b.events := by
  induction a with
  | nil => rfl
  | data d rest ih => simp [append, events, ih]
  | empty tag rest ih => simp [append, events, ih]
  | element tag kids rest _ ih => simp [append, events, ih]

theorem Content.write_append (a b : Content) : (a.append b).write = a.write ++ b.write := by
  induction a with
  | nil => rfl
  | data d rest ih => simp [append, write, ih]
  | empty tag rest ih => simp [append, write, ih]
  | element tag kids rest _ ih => simp [append, write, ih]

theorem Content.append_nil (c : Content) : c.append .nil = c := by
  induction c with
  | nil => rfl
  | data d rest ih => exact congrArg _ ih
  | empty tag rest ih => exact congrArg _ ih
  | element tag kids rest _ ih => exact congrArg _ ih

/-! A piece of markup ends where it ends, whatever follows it. -/

theorem splitMark_eq_some {mark s before after : Text}
    (found : splitMark mark s = some (before, after)) (nonempty : mark ≠ []) :
    s = before ++ (mark ++ after) ∧ splitMark mark (before ++ mark) = some (before, []) := by
  induction s generalizing before with
  | nil => cases found
  | cons x xs ih =>
    simp only [splitMark] at found
    cases head : stripPrefix mark (x :: xs) with
    | some tail =>
      simp only [head, Option.some.injEq, Prod.mk.injEq] at found
      obtain ⟨rfl, rfl⟩ := found
      obtain ⟨m, ms, rfl⟩ := List.exists_cons_of_ne_nil nonempty
      have own : stripPrefix (m :: ms) (m :: ms) = some [] :=
        stripPrefix_eq_some.mpr (List.append_nil _).symm
      exact ⟨(stripPrefix_eq_some.mp head : x :: xs = m :: ms ++ _),
        by rw [List.nil_append, splitMark, own]⟩
    | none =>
      simp only [head, Option.map_eq_some_iff, Prod.mk.injEq] at found
      obtain ⟨⟨inner, rest⟩, deeper, rfl, rfl⟩ := found
      obtain ⟨rfl, alone⟩ := ih deeper
      -- a mark that began earlier in the shorter text would begin there in the longer one
      have shorter : stripPrefix mark (x :: (inner ++ mark)) = none := by
        by_contra some
        obtain ⟨tail, matched⟩ := Option.ne_none_iff_exists'.mp some
        rw [stripPrefix_eq_some] at matched
        have longer : stripPrefix mark (x :: (inner ++ (mark ++ rest))) = Option.some (tail ++ rest) := by
          rw [stripPrefix_eq_some, ← List.append_assoc, ← List.append_assoc, ← matched]
          simp
        rw [longer] at head
        cases head
      exact ⟨rfl, by rw [List.cons_append, splitMark, shorter, alone]; rfl⟩

/-- A text with `>` in it goes past every mark without one. -/
theorem stripPrefix_none_swap {mark w rest : Text} (other : Text) (closed : '>' ∈ w)
    (open_ : '>' ∉ mark) (none_ : stripPrefix mark (w ++ rest) = none) :
    stripPrefix mark (w ++ other) = none := by
  by_contra some
  obtain ⟨tail, matched⟩ := Option.ne_none_iff_exists'.mp some
  rw [stripPrefix_eq_some] at matched
  have start : mark <+: w := by
    have both : mark <+: w ++ other := ⟨tail, matched.symm⟩
    rcases Nat.le_total mark.length w.length with short | long
    · exact List.prefix_of_prefix_length_le both ⟨other, rfl⟩ short
    · have inside : w <+: mark := List.prefix_of_prefix_length_le ⟨other, rfl⟩ both long
      exact absurd (inside.subset closed) open_
  obtain ⟨more, rfl⟩ := start
  rw [List.append_assoc, stripPrefix_append] at none_
  cases none_

/-- The attributes of a tag are read again before any other text. -/
theorem scanAttributes_local {fuel : Nat} {x rest : Text} {attrs : List Attribute} {closing : Bool}
    (read : scanAttributes fuel x = some (attrs, closing, rest)) :
    ∃ w, x = w ++ rest ∧ '>' ∈ w ∧ ∀ other more, w.length ≤ more →
      scanAttributes more (w ++ other) = some (attrs, closing, other) := by
  -- by the rounds of the scanner: what is consumed holds the closing bracket
  induction fuel generalizing x attrs with
  | zero => cases read
  | succ fuel ih =>
    cases x with
    | nil => cases read
    | cons c s =>
      rw [scanAttributes] at read
      split at read
      case isTrue last =>
        obtain ⟨rfl, rfl, rfl⟩ : [] = attrs ∧ false = closing ∧ s = rest := by simpa using read
        refine ⟨[c], rfl, by simp [last], fun other more enough => ?_⟩
        obtain ⟨more, rfl⟩ := Nat.exists_eq_add_of_le' enough
        simp [scanAttributes, last]
      case isFalse notLast =>
        split at read
        case isTrue slash =>
          simp only [Option.map_eq_some_iff, Prod.mk.injEq, stripPrefix_eq_some] at read
          obtain ⟨_, rfl, rfl, rfl, rfl⟩ := read
          refine ⟨[c, '>'], rfl, by simp, fun other more enough => ?_⟩
          obtain ⟨more, rfl⟩ := Nat.exists_eq_add_of_le' (Nat.le_of_succ_le enough)
          simp [scanAttributes, slash, stripPrefix]
        case isFalse notSlash =>
          split at read
          case isTrue white =>
            obtain ⟨w, rfl, closed, again⟩ := ih read
            refine ⟨c :: w, rfl, List.mem_cons_of_mem _ closed, fun other more enough => ?_⟩
            obtain ⟨more, rfl⟩ := Nat.exists_eq_add_of_le' (Nat.le_trans (Nat.succ_pos _) enough)
            rw [List.cons_append, scanAttributes, if_neg notLast, if_neg notSlash, if_pos white]
            exact again other more (by simpa using enough)
          case isFalse notWhite =>
            split at read
            case h_1 key quote s' split =>
              split at read
              case isTrue isQuote =>
                split at read
                case h_1 value s'' inner =>
                  simp only [Option.map_eq_some_iff, Prod.mk.injEq] at read
                  obtain ⟨⟨others, ends⟩, read, rfl, rfl⟩ := read
                  obtain ⟨w, rfl, closed, again⟩ := ih read
                  obtain ⟨rfl, noQuote⟩ := splitOnce_eq_some inner
                  obtain ⟨whole, noEquals⟩ := splitOnce_eq_some split
                  refine ⟨key ++ '=' :: quote :: (value ++ quote :: w), by simp [whole],
                    by simp [closed],
                    fun other more enough => ?_⟩
                  -- the attribute begins with the character that was tested
                  have first : (key ++ '=' :: quote :: (value ++ quote :: w)).head? = some c := by
                    have := congrArg List.head? whole
                    cases key <;> simpa using this.symm
                  obtain ⟨tail, shape⟩ : ∃ tail, key ++ '=' :: quote :: (value ++ quote :: w) = c :: tail :=
                    List.head?_eq_some_iff.mp first
                  have length : w.length + 2 ≤ (key ++ '=' :: quote :: (value ++ quote :: w)).length := by
                    simp only [List.length_append, List.length_cons]
                    omega
                  obtain ⟨more, rfl⟩ : ∃ n, more = n + 1 := ⟨more - 1, by omega⟩
                  have again := again other more (by omega)
                  have splitAgain : splitOnce '=' (c :: (tail ++ other)) =
                      some (key, quote :: (value ++ quote :: (w ++ other))) := by
                    rw [← List.cons_append, ← shape]
                    simpa using splitOnce_append '=' key (quote :: (value ++ quote :: (w ++ other))) noEquals
                  rw [shape, List.cons_append, scanAttributes, if_neg notLast, if_neg notSlash,
                    if_neg notWhite, splitAgain]
                  simp only [if_pos isQuote, splitOnce_append quote value (w ++ other) noQuote,
                    again, Option.map_some]
                case h_2 => cases read
              case isFalse => cases read
            case h_2 => cases read

/-- A piece of markup is read again before any other text. -/
theorem scanMarkup_local {s rest : Text} {e : Event} (read : scanMarkup s = some (e, rest)) :
    ∃ w, s = w ++ rest ∧ ∀ other, scanMarkup (w ++ other) = some (e, other) := by
  -- what is consumed ends in a bracket, which none of the openings holds
  have open_ : '>' ∉ commentOpen ∧ '>' ∉ sectionOpen ∧ '>' ∉ ['/'] := by decide
  unfold scanMarkup at read
  split at read
  case h_1 s' comment =>
    simp only [Option.map_eq_some_iff, Prod.mk.injEq] at read
    obtain ⟨⟨raw, _⟩, found, rfl, rfl⟩ := read
    obtain ⟨rfl, alone⟩ := splitMark_eq_some found (by decide)
    obtain rfl := stripPrefix_eq_some.mp comment
    refine ⟨commentOpen ++ (raw ++ commentClose), by simp, fun other => ?_⟩
    have again := splitMark_append other alone
    simp only [List.append_assoc, List.nil_append] at again
    simp [scanMarkup, again]
  case h_2 noComment =>
    split at read
    case h_1 s' section_ =>
      simp only [Option.map_eq_some_iff, Prod.mk.injEq] at read
      obtain ⟨⟨raw, _⟩, found, rfl, rfl⟩ := read
      obtain ⟨rfl, alone⟩ := splitMark_eq_some found (by decide)
      obtain rfl := stripPrefix_eq_some.mp section_
      refine ⟨sectionOpen ++ (raw ++ sectionClose), by simp, fun other => ?_⟩
      have again := splitMark_append other alone
      simp only [List.append_assoc, List.nil_append] at again
      have notComment : stripPrefix commentOpen ((sectionOpen ++ (raw ++ sectionClose)) ++ other) = none :=
        stripPrefix_none_swap other (by simp [sectionClose]) open_.1 (by simpa using noComment)
      simp only [List.append_assoc] at notComment
      simp [scanMarkup, notComment, again]
    case h_2 noSection =>
      split at read
      case h_1 s' close =>
        simp only [Option.map_eq_some_iff, Prod.mk.injEq] at read
        obtain ⟨⟨name, _⟩, found, rfl, rfl⟩ := read
        obtain ⟨rfl, absent⟩ := splitOnce_eq_some found
        obtain rfl := stripPrefix_eq_some.mp close
        refine ⟨'/' :: (name ++ ['>']), by simp, fun other => ?_⟩
        simp [scanMarkup, stripPrefix, commentOpen, sectionOpen,
          splitOnce_append '>' name other absent]
      case h_2 noClose =>
        simp only [Option.map_eq_some_iff, Prod.mk.injEq] at read
        obtain ⟨⟨attrs, closing, rest⟩, found, rfl, rfl⟩ := read
        obtain ⟨w, shape, closed, again⟩ := scanAttributes_local found
        obtain ⟨stop, w, rfl⟩ := List.exists_cons_of_ne_nil (List.ne_nil_of_mem closed)
        -- the name ends at the same character, whatever comes behind the tag
        have stops : isDelimiter stop = true := by
          have := List.head?_dropWhile_not (fun c => !isDelimiter c) s
          simpa [shape] using this
        have plain : ∀ c ∈ s.takeWhile (fun c => !isDelimiter c), (!isDelimiter c) = true :=
          List.all_eq_true.mp List.all_takeWhile
        have whole : s = s.takeWhile (fun c => !isDelimiter c) ++ (stop :: w ++ rest) := by
          rw [← shape, List.takeWhile_append_dropWhile]
        generalize s.takeWhile (fun c => !isDelimiter c) = name at whole plain ⊢
        subst whole
        refine ⟨name ++ stop :: w, by simp, fun other => ?_⟩
        have member : '>' ∈ name ++ stop :: w := List.mem_append_right _ closed
        have read := takeWhile_append_stop plain (show (!isDelimiter stop) = false by simp [stops]) (r := w ++ other)
        have swap {mark : Text} (open_ : '>' ∉ mark) (none_ : stripPrefix mark (name ++ (stop :: w ++ rest)) = none) :
            stripPrefix mark (name ++ (stop :: w) ++ other) = none :=
          stripPrefix_none_swap other member open_ (by simpa using none_)
        have again := again other ((name ++ (stop :: w) ++ other).length + 1) (by simp; omega)
        simp only [List.append_assoc, List.cons_append] at again swap ⊢
        simp only [scanMarkup, swap open_.1 noComment, swap open_.2.1 noSection,
          swap open_.2.2 noClose, read.1, read.2, again, Option.map_some]

/-! One event. -/

theorem scanReference_eq_some {s name rest : Text} (found : scanReference s = some (name, rest)) :
    s = name ++ ';' :: rest ∧ (Data.generalRef name).Lexical := by
  unfold scanReference at found
  split at found
  case h_1 inner after split =>
    obtain ⟨rfl, absent⟩ := splitOnce_eq_some split
    split at found
    case isTrue plain =>
      obtain ⟨rfl, rfl⟩ := Prod.mk.inj (Option.some.inj found)
      refine ⟨rfl, fun c member => ⟨fun same => absent (same ▸ member), ?_⟩⟩
      simpa [isTextChar] using List.all_eq_true.mp plain c member
    case isFalse => cases found
  case h_2 => cases found

/-- The first event of a text that is not empty, and what follows it. -/
def scanOne : Text → Option (Event × Text)
  | [] => none
  | c :: s =>
    if c = '<' then scanMarkup s
    else if c = '&' then (scanReference s).map fun parts => (.data (.generalRef parts.1), parts.2)
    else some (.data (.text ((c :: s).takeWhile isTextChar)), (c :: s).dropWhile isTextChar)

theorem scan_of_one {x rest : Text} {e : Event} (read : scanOne x = some (e, rest)) (fuel : Nat) :
    scan (fuel + 1) x = .ok e :: scan fuel rest := by
  cases x with
  | nil => cases read
  | cons c s =>
    rw [scanOne] at read
    rw [scan]
    split at read
    case isTrue markup => rw [if_pos markup, read]
    case isFalse notMarkup =>
      rw [if_neg notMarkup]
      split at read
      case isTrue reference =>
        obtain ⟨⟨name, _⟩, found, same⟩ := Option.map_eq_some_iff.mp read
        obtain ⟨rfl, rfl⟩ := Prod.mk.inj same
        rw [if_pos reference, found]
      case isFalse notReference =>
        obtain ⟨rfl, rfl⟩ := Prod.mk.inj (Option.some.inj read)
        rw [if_neg notReference]

theorem one_of_scan {x : Text} {e : Event} {items : List (Except Text Event)} {fuel : Nat}
    (run : scan (fuel + 1) x = .ok e :: items) :
    ∃ rest, scanOne x = some (e, rest) ∧ items = scan fuel rest := by
  cases found : scanOne x with
  | some pair =>
    obtain ⟨first, rest⟩ := pair
    rw [scan_of_one found, List.cons.injEq, Except.ok.injEq] at run
    obtain ⟨rfl, rfl⟩ := run
    exact ⟨rest, rfl, rfl⟩
  | none =>
    cases x with
    | nil => cases run
    | cons c s =>
      rw [scanOne] at found
      rw [scan] at run
      split at found
      case isTrue markup =>
        rw [if_pos markup, found] at run
        cases run
      case isFalse notMarkup =>
        split at found
        case isTrue reference =>
          rw [if_neg notMarkup, if_pos reference, Option.map_eq_none_iff.mp found] at run
          cases run
        case isFalse => cases found

def Event.isText : Event → Bool
  | .data (.text _) => true
  | _ => false

/-- The text of one event. Character data ends where something else begins. -/
structure Token (w : Text) (e : Event) : Prop where
  nonempty : w ≠ []
  read : ∀ rest, (e.isText = true → Stops rest) → scanOne (w ++ rest) = some (e, rest)

theorem scanMarkup_notText {s rest : Text} {e : Event} (read : scanMarkup s = some (e, rest)) :
    e.isText = false := by
  unfold scanMarkup at read
  repeat' split at read
  all_goals
    simp only [Option.map_eq_some_iff, Prod.mk.injEq] at read
    obtain ⟨_, _, rfl, _⟩ := read
    first | rfl | (split <;> rfl)

theorem token_of_one {x rest : Text} {e : Event} (one : scanOne x = some (e, rest)) :
    ∃ w, x = w ++ rest ∧ Token w e ∧ (e.isText = true → Stops rest) := by
  cases x with
  | nil => cases one
  | cons c s =>
    rw [scanOne] at one
    split at one
    case isTrue markup =>
      -- markup ends by itself, whatever comes behind it
      obtain ⟨w, rfl, again⟩ := scanMarkup_local one
      have notText := scanMarkup_notText one
      refine ⟨c :: w, rfl, ⟨by simp, fun rest _ => ?_⟩, by simp [notText]⟩
      rw [List.cons_append, scanOne, if_pos markup, again]
    case isFalse notMarkup =>
      split at one
      case isTrue reference =>
        obtain ⟨⟨name, _⟩, found, same⟩ := Option.map_eq_some_iff.mp one
        obtain ⟨rfl, rfl⟩ := Prod.mk.inj same
        obtain ⟨rfl, closed⟩ := scanReference_eq_some found
        refine ⟨c :: (name ++ [';']), by simp, ⟨by simp, fun rest _ => ?_⟩, by simp [Event.isText]⟩
        rw [List.cons_append, scanOne, if_neg notMarkup, if_pos reference, List.append_assoc,
          List.singleton_append, scanReference_closed rest closed]
        rfl
      case isFalse notReference =>
        obtain ⟨rfl, rfl⟩ := Prod.mk.inj (Option.some.inj one)
        have isText : isTextChar c = true := by simp [isTextChar, notMarkup, notReference]
        refine ⟨(c :: s).takeWhile isTextChar, (List.takeWhile_append_dropWhile).symm, ⟨?_, ?_⟩, ?_⟩
        · simp [isText]
        · intro rest stops
          -- a run of text ends only where what follows stops it
          have chars : ∀ d ∈ (c :: s).takeWhile isTextChar, isTextChar d = true :=
            List.all_eq_true.mp List.all_takeWhile
          obtain ⟨tail, shape⟩ : ∃ tail, (c :: s).takeWhile isTextChar = c :: tail :=
            by simp [isText]
          rw [shape] at chars ⊢
          have again : ((c :: tail) ++ rest).takeWhile isTextChar = c :: tail ∧
              ((c :: tail) ++ rest).dropWhile isTextChar = rest := by
            cases rest with
            | nil => simpa using takeWhile_all chars
            | cons d more => exact takeWhile_append_stop chars (stops rfl d rfl)
          rw [List.cons_append] at again ⊢
          rw [scanOne, if_neg notMarkup, if_neg notReference, again.1, again.2]
        · rintro _ d first
          simpa [Option.mem_def.mp first] using List.head?_dropWhile_not isTextChar (c :: s)

/-! Runs of events. -/

/-- A text whose events are the given ones, before any text that begins with markup. -/
def Run (w : Text) (events : List Event) : Prop :=
  ∀ rest fuel, Stops rest → scan (events.length + fuel) (w ++ rest) = stream events ++ scan fuel rest

theorem Run.append {w v : Text} {a b : List Event} (first : Run w a) (second : Run v b)
    (stops : ∀ rest, Stops rest → Stops (v ++ rest)) : Run (w ++ v) (a ++ b) := by
  intro rest fuel ends
  rw [List.length_append, List.append_assoc, Nat.add_assoc, first _ _ (stops rest ends),
    second _ _ ends, stream_append, List.append_assoc]

/-- A run of the scanner, cut behind some of its events. -/
theorem scan_split {fuel : Nat} {x : Text} {events later : List Event} (enough : x.length < fuel)
    (run : scan fuel x = stream (events ++ later)) :
    ∃ w rest, x = w ++ rest ∧ Run w events ∧ events.length ≤ w.length ∧
      scan (fuel - events.length) rest = stream later := by
  induction events generalizing fuel x with
  | nil => exact ⟨[], x, rfl, fun rest fuel _ => by simp, Nat.le_refl 0, run⟩
  | cons e events ih =>
    obtain ⟨fuel, rfl⟩ := Nat.exists_eq_add_one_of_ne_zero (Nat.ne_zero_of_lt enough)
    obtain ⟨rest, one, more⟩ := one_of_scan run
    obtain ⟨w, rfl, token, ends⟩ := token_of_one one
    have shorter : 0 < w.length := List.length_pos_iff.mpr token.nonempty
    rw [List.length_append] at enough
    obtain ⟨v, rest, rfl, inner, count, last⟩ := ih (by omega) more.symm
    refine ⟨w ++ v, rest, (List.append_assoc _ _ _).symm, fun other fuel stops => ?_, ?_, ?_⟩
    · have read : scanOne (w ++ (v ++ other)) = some (e, v ++ other) := by
        refine token.read _ fun isText => ?_
        cases v with
        | nil => exact stops
        | cons c v => exact Stops.cons _ (ends isText c rfl)
      rw [List.length_cons, Nat.add_right_comm, List.append_assoc, scan_of_one read,
        inner other fuel stops]
      rfl
    · rw [List.length_append, List.length_cons]
      omega
    · rwa [List.length_cons, Nat.add_sub_add_right]

/-- A text that is not empty has an event or an error. -/
theorem scan_cons_ne_nil (fuel : Nat) (c : Char) (s : Text) : scan (fuel + 1) (c :: s) ≠ [] := by
  rw [scan]
  split
  · split <;> simp
  · split
    · split <;> simp
    · simp

theorem run_of_reads {s : Text} {c : Content} (reads : scanner.Reads s c) :
    Run s c.events ∧ c.events.length ≤ s.length := by
  have run := (scanner_reads s c).mp reads
  rw [← List.append_nil c.events] at run
  obtain ⟨w, rest, rfl, events, count, last⟩ := scan_split (Nat.lt_succ_self _) run
  rw [List.length_append] at last
  obtain ⟨fuel, more⟩ : ∃ n, w.length + rest.length + 1 - c.events.length = n + 1 :=
    ⟨w.length + rest.length - c.events.length, by omega⟩
  rw [more] at last
  cases rest with
  | nil =>
    rw [List.append_nil]
    exact ⟨events, count⟩
  | cons x rest => exact absurd last (scan_cons_ne_nil fuel x rest)

theorem reads_of_run {s : Text} {c : Content} (run : Run s c.events)
    (count : c.events.length ≤ s.length) :
    scanner.Reads s c := by
  rw [scanner_reads]
  have whole := run [] (s.length + 1 - c.events.length) (fun _ absent => by cases absent)
  rw [Nat.add_sub_of_le (by omega), List.append_nil] at whole
  rw [whole]
  cases s.length + 1 - c.events.length <;> simp [scan]

theorem stops_of_markup {s : Text} (markup : s.head? = some '<') (rest : Text) :
    Stops (s ++ rest) := by
  obtain ⟨s, rfl⟩ := List.head?_eq_some_iff.mp markup
  exact Stops.cons _ (by decide)

theorem run_closeTag {name : Text} (isName : IsName name) : Run (closeTag name) [.close name] := by
  intro rest fuel _
  have close := scanMarkup_close name rest isName
  have read : scanOne (closeTag name ++ rest) = some (.close name, rest) := by
    simpa [closeTag, scanOne] using close
  rw [List.length_singleton, Nat.add_comm 1, scan_of_one read]
  rfl

theorem scanOne_start {tag : Tag} (lexical : tag.Lexical) (quotes : tag.QuoteFree) (rest : Text) :
    scanOne ('<' :: (tag.writeBody ++ '>' :: rest)) = some (.start tag.read, rest) := by
  have markup := scanMarkup_tag tag false rest lexical quotes
  simpa [scanOne] using markup

/-- An element is read as its tags around what is read between them. -/
theorem reads_around {tag : Tag} (lexical : tag.Lexical) (quotes : tag.QuoteFree) {s : Text}
    {c : Content} (run : Run s c.events) (count : c.events.length ≤ s.length) :
    scanner.Reads (tag.around s) (.element tag c .nil) := by
  refine reads_of_run (fun rest fuel stops => ?_) ?_
  · have close := run_closeTag lexical.1
    have inner := run.append close (fun rest _ => stops_of_markup rfl rest) rest fuel stops
    have whole : tag.around s ++ rest = '<' :: (tag.writeBody ++ '>' :: ((s ++ closeTag tag.name) ++ rest)) := by
      simp [Tag.around]
    rw [whole, Content.events, List.length_cons, Nat.add_right_comm,
      scan_of_one (scanOne_start lexical quotes _)]
    simp only [Content.events]
    rw [inner]
    rfl
  · simp only [Content.events, Tag.around, closeTag, List.length_cons, List.length_append,
      List.length_nil]
    omega

/-- Only an end tag is read as one. -/
theorem closeTag_of_one {x rest : Text} {name : Text} (one : scanOne x = some (.close name, rest)) :
    x = closeTag name ++ rest := by
  cases x with
  | nil => cases one
  | cons c s =>
    rw [scanOne] at one
    split at one
    case isTrue markup =>
      subst markup
      unfold scanMarkup at one
      split at one
      case h_1 => simp at one
      case h_2 =>
        split at one
        case h_1 => simp at one
        case h_2 =>
          split at one
          case h_1 s' slash =>
            obtain ⟨⟨found, after⟩, split, same⟩ := Option.map_eq_some_iff.mp one
            simp only [Prod.mk.injEq, Event.close.injEq] at same
            obtain ⟨rfl, rfl⟩ := same
            rw [stripPrefix_eq_some] at slash
            obtain ⟨rfl, _⟩ := splitOnce_eq_some split
            simp [slash, closeTag]
          case h_2 =>
            obtain ⟨⟨attrs, closing, after⟩, _, same⟩ := Option.map_eq_some_iff.mp one
            cases closing <;> simp at same
    case isFalse =>
      split at one
      case isTrue => simp at one
      case isFalse => simp at one

/-- What is read between two tags is a run of its own. -/
theorem run_of_around {tag : Tag} (lexical : tag.Lexical) (quotes : tag.QuoteFree) {s : Text}
    {c : Content} (reads : scanner.Reads (tag.around s) (.element tag c .nil)) :
    Run s c.events ∧ c.events.length ≤ s.length := by
  have run := (scanner_reads _ _).mp reads
  rw [Tag.around, scan_of_one (scanOne_start lexical quotes _)] at run
  have inner : scan (tag.around s).length (s ++ closeTag tag.name) = stream (c.events ++ [.close tag.name]) :=
    (List.cons.inj run).2
  obtain ⟨w, rest, split, events, count, last⟩ := scan_split (by simp [Tag.around]; omega) inner
  obtain ⟨fuel, more⟩ : ∃ n, (tag.around s).length - c.events.length = n + 1 + 1 := by
    have := congrArg List.length split
    refine ⟨(tag.around s).length - c.events.length - 2, ?_⟩
    simp only [Tag.around, List.length_append, List.length_cons, closeTag] at this ⊢
    omega
  rw [more] at last
  obtain ⟨after, one, nothing⟩ := one_of_scan last
  obtain rfl := closeTag_of_one one
  cases after with
  | nil =>
    rw [List.append_nil] at split
    obtain rfl := List.append_cancel_right split
    exact ⟨events, count⟩
  | cons x after => exact absurd nothing.symm (scan_cons_ne_nil fuel x after)

theorem scanner_compositional : scanner.Compositional where
  appended s t a b _ markup first second := by
    obtain ⟨runs, count⟩ := run_of_reads first
    obtain ⟨runs', count'⟩ := run_of_reads second
    refine reads_of_run ?_ ?_
    · rw [Content.events_append]
      exact runs.append runs' fun rest _ => stops_of_markup markup rest
    · rw [Content.events_append, List.length_append, List.length_append]
      omega
  nested tag s c lexical quotes _ reads := by
    obtain ⟨run, count⟩ := run_of_reads reads
    exact reads_around lexical quotes run count
  rewrapped tag other s c lexical quotes lexical' quotes' reads := by
    obtain ⟨run, count⟩ := run_of_around lexical quotes reads
    exact reads_around lexical' quotes' run count

end Markup
