import SoapServer.Markup.Text

/-! The characters and names that XML allows. -/

set_option autoImplicit false

namespace Markup

/-- Characters a name cannot hold. -/
def isDelimiter (c : Char) : Bool :=
  isWhitespace c || c = '<' || c = '>' || c = '/' || c = '=' || c = '"' || c = '\'' || c = '&' ||
    c = '!' || c = '?'

/-- A name as far as a reader tells where it ends. -/
def IsName (s : Text) : Prop := s ≠ [] ∧ ∀ c ∈ s, isDelimiter c = false

instance (s : Text) : Decidable (IsName s) := by unfold IsName; infer_instance

/-- A character that can stand in a document. -/
def isXmlChar (c : Char) : Bool :=
  c = '\t' || c = '\n' || c = '\r' || (0x20 ≤ c.toNat && c.toNat ≠ 0xFFFE && c.toNat ≠ 0xFFFF)

def startRanges : List (Nat × Nat) :=
  [(0x41, 0x5A), (0x5F, 0x5F), (0x61, 0x7A), (0xC0, 0xD6), (0xD8, 0xF6), (0xF8, 0x2FF),
    (0x370, 0x37D),
    (0x37F, 0x1FFF), (0x200C, 0x200D), (0x2070, 0x218F), (0x2C00, 0x2FEF), (0x3001, 0xD7FF), (0xF900, 0xFDCF),
    (0xFDF0, 0xFFFD), (0x10000, 0xEFFFF)]

/-- A character that can begin a name, the colon aside. -/
def isNameStart (c : Char) : Bool := startRanges.any fun range => range.1 ≤ c.toNat && c.toNat ≤ range.2

/-- A character that can stand in a name, the colon aside. -/
def isNameChar (c : Char) : Bool :=
  isNameStart c || c = '-' || c = '.' || c.isDigit || c.toNat = 0xB7 || (0x300 ≤ c.toNat && c.toNat ≤ 0x36F) ||
    (0x203F ≤ c.toNat && c.toNat ≤ 0x2040)

/-- A name without a colon. -/
def IsNcName : Text → Prop
  | [] => False
  | c :: s => isNameStart c = true ∧ ∀ d ∈ s, isNameChar d = true

instance : (s : Text) → Decidable (IsNcName s)
  | [] => inferInstanceAs (Decidable False)
  | c :: s => inferInstanceAs (Decidable (isNameStart c = true ∧ ∀ d ∈ s, isNameChar d = true))

/-- A name with at most a prefix. -/
def IsQName (name : Text) : Prop :=
  match splitOnce ':' name with
  | some (pre, l) => IsNcName pre ∧ IsNcName l
  | none => IsNcName name

instance (name : Text) : Decidable (IsQName name) := by unfold IsQName; split <;> infer_instance

theorem isNameChar_of_isDelimiter {c : Char} (delimits : isDelimiter c = true) :
    isNameChar c = false := by
  simp only [isDelimiter, isWhitespace, Bool.or_eq_true, decide_eq_true_eq] at delimits
  rcases delimits with ((((((((((((rfl | rfl) | rfl) | rfl) | rfl) | rfl) | rfl) | rfl) | rfl) | rfl) | rfl) | rfl) | rfl)
  all_goals decide

theorem IsNcName.isNameChar {s : Text} (name : IsNcName s) {c : Char} (member : c ∈ s) :
    isNameChar c = true := by
  cases s with
  | nil => cases member
  | cons d s =>
    rcases List.mem_cons.mp member with rfl | member
    · simp [Markup.isNameChar, name.1]
    · exact name.2 c member

theorem IsNcName.isName {s : Text} (name : IsNcName s) : IsName s := by
  refine ⟨fun empty => (by subst empty; exact name), fun c member => ?_⟩
  by_contra delimits
  have := isNameChar_of_isDelimiter (by simpa using delimits)
  rw [name.isNameChar member] at this
  cases this

theorem IsNcName.no_colon {s : Text} (name : IsNcName s) : ':' ∉ s := fun member =>
  absurd (name.isNameChar member) (by decide)

theorem IsNcName.isQName {s : Text} (name : IsNcName s) : IsQName s := by
  rwa [IsQName, splitOnce_none ':' s name.no_colon]

theorem isQName_prefixed {pre l : Text} (first : IsNcName pre) (last : IsNcName l) :
    IsQName (pre ++ ':' :: l) := by
  rw [IsQName, splitOnce_append ':' pre l first.no_colon]
  exact ⟨first, last⟩

theorem isName_prefixed {pre l : Text} (first : IsNcName pre) (last : IsNcName l) :
    IsName (pre ++ ':' :: l) := by
  refine ⟨by simp, fun c member => ?_⟩
  rcases List.mem_append.mp member with member | member
  · exact first.isName.2 c member
  · rcases List.mem_cons.mp member with rfl | member
    · decide
    · exact last.isName.2 c member

theorem IsQName.isName {name : Text} (isQName : IsQName name) : IsName name := by
  unfold IsQName at isQName
  split at isQName
  next pre l split =>
    rw [(splitOnce_eq_some split).1]
    exact isName_prefixed isQName.1 isQName.2
  next => exact IsNcName.isName isQName

/-- In a qualified name neither part is empty. -/
theorem IsQName.prefix_ne_nil {name pre l : Text} (isQName : IsQName name)
    (parts : splitOnce ':' name = some (pre, l)) : pre ≠ [] ∧ l ≠ [] ∧ ':' ∉ l := by
  rw [IsQName, parts] at isQName
  exact ⟨isQName.1.isName.1, isQName.2.isName.1, isQName.2.no_colon⟩

end Markup
