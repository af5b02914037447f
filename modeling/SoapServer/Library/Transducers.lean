import SoapServer.Library.Loops

/-! Loops that read items one by one, keep a state and write output, and can fail. -/

set_option autoImplicit false

namespace Transducers

open Loops

variable {σ α β ε : Type} {step : σ → α → Except ε (List β × σ)} {s t : σ} {a : α}
    {items more : List α} {out : List β}

def run (step : σ → α → Except ε (List β × σ)) : σ → List α → Except ε (List β × σ)
  | s, [] => .ok ([], s)
  | s, a :: rest => do
    let (written, s) ← step s a
    let (later, s) ← run step s rest
    .ok (written ++ later, s)

theorem run_nil_eq_ok : run step s [] = .ok (out, t) ↔ out = [] ∧ t = s := by
  rw [run, Except.ok.injEq, Prod.mk.injEq, eq_comm, eq_comm (a := s)]

theorem run_cons_eq_ok :
    run step s (a :: items) = .ok (out, t) ↔
      ∃ written next later, step s a = .ok (written, next) ∧ run step next items = .ok (later, t) ∧
        out = written ++ later := by
  rw [run, bind_eq_ok]
  constructor
  · rintro ⟨⟨written, next⟩, first, rest⟩
    obtain ⟨⟨later, last⟩, rest, same⟩ := bind_eq_ok.mp rest
    cases same
    exact ⟨written, next, later, first, rest, rfl⟩
  · rintro ⟨written, next, later, first, rest, rfl⟩
    exact ⟨(written, next), first, bind_eq_ok.mpr ⟨(later, t), rest, rfl⟩⟩

/-- A run over two lists is a run over the first and then, in the state it leaves, over the second. -/
theorem run_append_eq_ok :
    run step s (items ++ more) = .ok (out, t) ↔
      ∃ written next later, run step s items = .ok (written, next) ∧ run step next more = .ok (later, t) ∧
        out = written ++ later := by
  induction items generalizing s out with
  | nil =>
    constructor
    · intro ran
      exact ⟨[], s, out, rfl, ran, rfl⟩
    · rintro ⟨written, next, later, first, ran, rfl⟩
      obtain ⟨rfl, rfl⟩ := run_nil_eq_ok.mp first
      exact ran
  | cons a rest ih =>
    constructor
    · intro ran
      obtain ⟨written, next, _, first, whole, rfl⟩ := run_cons_eq_ok.mp ran
      obtain ⟨inner, last, later, middle, final, rfl⟩ := ih.mp whole
      exact ⟨written ++ inner, last, later,
        run_cons_eq_ok.mpr ⟨written, next, inner, first, middle, rfl⟩, final,
        (List.append_assoc _ _ _).symm⟩
    · rintro ⟨_, last, later, ran, final, rfl⟩
      obtain ⟨written, next, inner, first, middle, rfl⟩ := run_cons_eq_ok.mp ran
      exact run_cons_eq_ok.mpr ⟨written, next, inner ++ later, first,
        ih.mpr ⟨inner, last, later, middle, final, rfl⟩, List.append_assoc _ _ _⟩

end Transducers
