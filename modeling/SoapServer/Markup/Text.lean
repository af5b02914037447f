import Mathlib.Algebra.GroupWithZero.Nat
import Mathlib.Data.List.Infix
import Mathlib.Data.List.ReduceOption

/-! Text as the list of its characters, with the few string operations that
readers and writers of markup are built from. -/

set_option autoImplicit false

namespace Markup

abbrev Text := List Char

/-- The characters of a text are tried, not all there are. -/
instance (priority := high) decidableForallMem (s : Text) (p : Char → Prop) [DecidablePred p] :
    Decidable (∀ c ∈ s, p c) := List.decidableBAll p s

instance (priority := high) decidableMemTexts (s : Text)
    (texts : List Text) : Decidable (s ∈ texts) := inferInstance

/-- Split at the first occurrence of a character; the character is dropped. -/
def splitOnce (c : Char) : Text → Option (Text × Text)
  | [] => none
  | x :: xs =>
    if x = c then some ([], xs)
    else (splitOnce c xs).map fun parts => (x :: parts.1, parts.2)

theorem splitOnce_append (c : Char) (before after : Text) (absent : c ∉ before) :
    splitOnce c (before ++ c :: after) = some (before, after) := by
  induction before with
  | nil => simp [splitOnce]
  | cons x xs ih =>
    simp only [List.mem_cons, not_or] at absent
    simp [splitOnce, Ne.symm absent.1, ih absent.2]

theorem splitOnce_none (c : Char) (s : Text) (absent : c ∉ s) : splitOnce c s = none := by
  induction s with
  | nil => rfl
  | cons x xs ih =>
    simp only [List.mem_cons, not_or] at absent
    simp [splitOnce, Ne.symm absent.1, ih absent.2]

theorem splitOnce_eq_some {c : Char} {s before after : Text}
    (found : splitOnce c s = some (before, after)) :
    s = before ++ c :: after ∧ c ∉ before := by
  induction s generalizing before with
  | nil => cases found
  | cons x xs ih =>
    by_cases same : x = c
    · simp only [splitOnce, if_pos same, Option.some.injEq, Prod.mk.injEq] at found
      obtain ⟨rfl, rfl⟩ := found
      exact ⟨by rw [same]; rfl, by simp⟩
    · simp only [splitOnce, if_neg same, Option.map_eq_some_iff, Prod.mk.injEq] at found
      obtain ⟨⟨inner, rest⟩, deeper, rfl, rfl⟩ := found
      obtain ⟨rfl, absent⟩ := ih deeper
      exact ⟨rfl, by simp [absent, Ne.symm same]⟩

/-- The remainder of a text after a given prefix. -/
def stripPrefix : Text → Text → Option Text
  | [], s => some s
  | _ :: _, [] => none
  | p :: ps, x :: xs => if p = x then stripPrefix ps xs else none

theorem stripPrefix_eq_some {p s r : Text} : stripPrefix p s = some r ↔ s = p ++ r := by
  induction p generalizing s with
  | nil => simp [stripPrefix]
  | cons c cs ih =>
    cases s with
    | nil => simp [stripPrefix]
    | cons x xs =>
      by_cases same : c = x
      · subst same; simp [stripPrefix, ih]
      · simp [stripPrefix, same, Ne.symm same]

@[simp] theorem stripPrefix_append (p r : Text) : stripPrefix p (p ++ r) = some r :=
  stripPrefix_eq_some.mpr rfl

/-- Drop a prefix for as long as the rest starts with it, at most `fuel` times. -/
def trimPrefix (p : Text) : Nat → Text → Text
  | 0, s => s
  | fuel + 1, s =>
    match stripPrefix p s with
    | some rest => trimPrefix p fuel rest
    | none => s

/-- `trim_start_matches`: the text's length bounds the number of repetitions. -/
def trimStartMatches (p s : Text) : Text := trimPrefix p s.length s

/-- The characters an XML reader trims from the two ends of a text. -/
def isWhitespace (c : Char) : Bool := c = ' ' || c = '\t' || c = '\n' || c = '\r'

def trimWhitespace (s : Text) : Text :=
  ((s.dropWhile isWhitespace).reverse.dropWhile isWhitespace).reverse

/-- The mark that may stand before a text in UTF-8; a reader takes it away. -/
def byteOrderMark : Char := '\uFEFF'

/-- What begins with a tag begins with no byte order mark. -/
theorem head_ne_byteOrderMark {s : Text} (markup : s.head? = some '<') :
    s.head? ≠ some byteOrderMark := by
  rw [markup]
  decide

/-- The length in bytes of the text's UTF-8 form. -/
def byteLength (s : Text) : Nat := (s.map Char.utf8Size).sum

/-- The UTF-8 form itself. -/
def utf8 (s : Text) : List UInt8 := s.flatMap String.utf8EncodeChar

end Markup
