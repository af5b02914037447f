import SoapServer.Markup.Namespaces

/-! The streaming reader as a parameter, with its documented behaviour as laws.

`events trim s` lists what the reader reports for the characters `s` up to the end of input;
an error is the last thing reported. With `trim` each run of character data loses its
surrounding whitespace and is not reported when nothing is left. `nsEvents` is the
namespace-aware reader, which may stop where the other one goes on: at a declaration that it
refuses to bind.
-/

set_option autoImplicit false

namespace Markup

structure Reader where
  events : Bool → Text → List (Except Text Event)
  nsEvents : Bool → Text → List (Except Text NsEvent)

def stream {α : Type} (items : List α) : List (Except Text α) := items.map .ok

@[simp] theorem stream_nil {α : Type} : stream ([] : List α) = [] := rfl

@[simp] theorem stream_cons {α : Type} (a : α) (items : List α) :
    stream (a :: items) = .ok a :: stream items := rfl

@[simp] theorem stream_append {α : Type} (a b : List α) :
    stream (a ++ b) = stream a ++ stream b := List.map_append

theorem stream_inj {α : Type} {a b : List α} (same : stream a = stream b) : a = b :=
  List.map_injective_iff.mpr (fun _ _ h => Except.ok.inj h) same

/-- The document the reader finds in a text. -/
def Reader.Reads (reader : Reader) (s : Text) (c : Content) : Prop :=
  reader.events false s = stream c.events

namespace Content

/-- Put character data before a forest, joined with character data that stands there. -/
def prependText (s : Text) : Content → Content
  | .data (.text t) rest => .data (.text (s ++ t)) rest
  | c => if s = [] then c else .data (.text s) c

/-- Adjacent runs of character data as the one run a reader sees, and no empty run. -/
def coalesce : Content → Content
  | .nil => .nil
  | .data (.text s) rest => prependText s rest.coalesce
  | .data d rest => .data d rest.coalesce
  | .empty tag rest => .empty tag rest.coalesce
  | .element tag kids rest => .element tag kids.coalesce rest.coalesce

/-- Character data with surrounding whitespace removed. -/
def trim : Content → Content
  | .nil => .nil
  | .data (.text s) rest =>
    if trimWhitespace s = [] then rest.trim else .data (.text (trimWhitespace s)) rest.trim
  | .data d rest => .data d rest.trim
  | .empty tag rest => .empty tag rest.trim
  | .element tag kids rest => .element tag kids.trim rest.trim

end Content

/-- A value that can stand between double quotes. -/
def Attribute.QuoteFree (a : Attribute) : Prop := '"' ∉ a.value

instance (a : Attribute) : Decidable a.QuoteFree := by unfold Attribute.QuoteFree; infer_instance

def Tag.QuoteFree (tag : Tag) : Prop := ∀ a ∈ tag.attributes, a.QuoteFree

instance (tag : Tag) : Decidable tag.QuoteFree := by unfold Tag.QuoteFree; infer_instance

/-- The lexical constraints of XML on one tag, apart from the quoting of values. -/
def Tag.Lexical (tag : Tag) : Prop :=
  IsName tag.name ∧ ∀ a ∈ tag.attributes, IsName a.key ∧ '<' ∉ a.value

instance (tag : Tag) : Decidable tag.Lexical := by unfold Tag.Lexical; infer_instance

/-- The part of a text before the first occurrence of a mark, and the part after it. -/
def splitMark (mark : Text) : Text → Option (Text × Text)
  | [] => none
  | x :: xs =>
    match stripPrefix mark (x :: xs) with
    | some rest => some ([], rest)
    | none => (splitMark mark xs).map fun parts => (x :: parts.1, parts.2)

/-- The lexical constraints on character data: it does not end early, and a reference is closed
before anything else begins. The laws below are not stated for processing instructions and
declarations. -/
def Data.Lexical : Data → Prop
  | .text raw => ∀ c ∈ raw, c ≠ '<' ∧ c ≠ '&'
  | .cdata raw => splitMark sectionClose (raw ++ sectionClose) = some (raw, [])
  | .generalRef name => ∀ c ∈ name, c ≠ ';' ∧ c ≠ '<' ∧ c ≠ '&'
  | .comment raw => splitMark commentClose (raw ++ commentClose) = some (raw, [])
  | .pi _ | .decl _ | .docType _ => False

instance : (d : Data) → Decidable d.Lexical
  | .text raw => inferInstanceAs (Decidable (∀ c ∈ raw, c ≠ '<' ∧ c ≠ '&'))
  | .cdata raw => inferInstanceAs (Decidable (splitMark sectionClose (raw ++ sectionClose) = some (raw, [])))
  | .generalRef name => inferInstanceAs (Decidable (∀ c ∈ name, c ≠ ';' ∧ c ≠ '<' ∧ c ≠ '&'))
  | .comment raw => inferInstanceAs (Decidable (splitMark commentClose (raw ++ commentClose) = some (raw, [])))
  | .pi _ | .decl _ | .docType _ => inferInstanceAs (Decidable False)

/-- Character data and references hold no markup of their own. -/
def Data.Clean : Data → Prop
  | .text raw => (Data.text raw).Lexical
  | .generalRef name => (Data.generalRef name).Lexical
  | _ => True

instance : (d : Data) → Decidable d.Clean
  | .text raw => inferInstanceAs (Decidable (Data.text raw).Lexical)
  | .generalRef name => inferInstanceAs (Decidable (Data.generalRef name).Lexical)
  | .cdata _ | .comment _ | .pi _ | .decl _ | .docType _ => inferInstanceAs (Decidable True)

/-- A forest whose plain written form reads back. -/
structure Content.Writable (c : Content) : Prop where
  tags : c.AllTags Tag.Lexical
  quotes : c.AllTags Tag.QuoteFree
  data : c.AllData Data.Lexical

instance (c : Content) : Decidable c.Writable :=
  decidable_of_iff (c.AllTags Tag.Lexical ∧ c.AllTags Tag.QuoteFree ∧ c.AllData Data.Lexical)
    ⟨fun h => ⟨h.1, h.2.1, h.2.2⟩, fun h => ⟨h.tags, h.quotes, h.data⟩⟩

/-- The documented behaviour of the reader: it reads back what is written plainly, where no byte
order mark comes first; trimming acts on each run of character data; and the namespace-aware
reader resolves by scope, where it refuses nothing. -/
structure Reader.Lawful (reader : Reader) : Prop where
  written : ∀ c : Content, c.Writable → c.write.head? ≠ some byteOrderMark → reader.Reads c.write c.coalesce
  trims : ∀ (s : Text) (c : Content), reader.Reads s c → reader.events true s = stream c.trim.events
  resolves : ∀ (s : Text) (c : Content), c.AllTags Tag.Unique → c.AllTags Tag.Resolvable → reader.Reads s c →
    reader.nsEvents false s = stream (c.resolved Scope.initial)
  resolvesTrimmed : ∀ (s : Text) (c : Content), c.AllTags Tag.Unique → c.AllTags Tag.Resolvable →
    reader.Reads s c → reader.nsEvents true s = stream (c.trim.resolved Scope.initial)

theorem Reader.Lawful.written_tag {reader : Reader} (lawful : reader.Lawful) {c : Content}
    (writable : c.Writable) (markup : c.write.head? = some '<') : reader.Reads c.write c.coalesce :=
  lawful.written c writable (head_ne_byteOrderMark markup)

end Markup
