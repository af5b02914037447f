import SoapServer.Externals

/-! Escaped text as character data: a reader splits it at each reference. -/

set_option autoImplicit false

namespace SoapServer

open Markup (Text Content Data)

/-- `escape` replaces just the characters that have a predefined reference. -/
def Externals.Escapes (ext : Externals) : Prop := ∀ s, ext.escape s = s.flatMap escapeChar

theorem Externals.scanning_escapes : Externals.scanning.Escapes := fun _ => rfl

def referenceName : Char → Option Text
  | '<' => some "lt".toList
  | '>' => some "gt".toList
  | '&' => some "amp".toList
  | '\'' => some "apos".toList
  | '"' => some "quot".toList
  | _ => none

theorem escapeChar_eq (c : Char) : escapeChar c =
    match referenceName c with
    | some name => '&' :: (name ++ [';'])
    | none => [c] := by
  unfold referenceName escapeChar
  split
  iterate 5 rfl
  -- no entity: neither table matches
  next => simp only

/-- No character of the text is replaced. -/
def Unreferenced (s : Text) : Prop := ∀ c ∈ s, referenceName c = none

instance (s : Text) : Decidable (Unreferenced s) := by unfold Unreferenced; infer_instance

/-- The escaped form of a text, character by character. -/
def escapedData : Text → Content → Content
  | [], rest => rest
  | c :: s, rest =>
    match referenceName c with
    | some name => .data (.generalRef name) (escapedData s rest)
    | none => .data (.text [c]) (escapedData s rest)

theorem escapedData_write (s : Text) (rest : Content) :
    (escapedData s rest).write = s.flatMap escapeChar ++ rest.write := by
  induction s with
  | nil => rfl
  | cons c s ih =>
    rw [List.flatMap_cons, escapeChar_eq, escapedData]
    cases referenceName c with
    | some name => simp [Content.write, Data.write, ih]
    | none => simp [Content.write, Data.write, ih]

theorem escapedData_allTags (P : Markup.Tag → Prop) (s : Text) (rest : Content) :
    (escapedData s rest).AllTags P ↔ rest.AllTags P := by
  induction s with
  | nil => rfl
  | cons c s ih =>
    rw [escapedData]
    cases referenceName c with
    | some name => exact ih
    | none => exact ih

/-- A property of character data is checked on the references and on the other characters. -/
theorem escapedData_allData {P : Data → Prop}
    (references : ∀ c name, referenceName c = some name → P (.generalRef name))
    (characters : ∀ c, referenceName c = none → P (.text [c])) (s : Text) {rest : Content}
    (all : rest.AllData P) :
    (escapedData s rest).AllData P := by
  induction s with
  | nil => exact all
  | cons c s ih =>
    rw [escapedData]
    cases given : referenceName c with
    | some name => exact ⟨references c name given, ih⟩
    | none => exact ⟨characters c given, ih⟩

theorem referenceName_lexical {c : Char} {name : Text} (given : referenceName c = some name) :
    (Data.generalRef name).Lexical := by
  unfold referenceName at given
  split at given
  all_goals first | (cases given; done) | (obtain rfl := Option.some.inj given; decide)

theorem unreferenced_clean {c : Char} (plain : referenceName c = none) : c ≠ '<' ∧ c ≠ '&' := by
  constructor <;> rintro rfl <;> cases plain

theorem escapedData_lexical (s : Text) {rest : Content} (lexical : rest.AllData Data.Lexical) :
    (escapedData s rest).AllData Data.Lexical :=
  escapedData_allData (fun _ _ given => referenceName_lexical given)
    (fun c plain x member => by
      obtain rfl := List.mem_singleton.mp member
      exact unreferenced_clean plain) s lexical

theorem escapedData_coalesce {s : Text} (plain : Unreferenced s) (nonempty : s ≠ []) :
    (escapedData s .nil).coalesce = .data (.text s) .nil := by
  induction s with
  | nil => exact absurd rfl nonempty
  | cons c s ih =>
    rw [escapedData, plain c (.head _)]
    cases s with
    | nil => rfl
    | cons d s =>
      have rest := ih (fun x member => plain x (.tail _ member)) (List.cons_ne_nil d s)
      simp only [Content.coalesce, rest]
      rfl

end SoapServer
