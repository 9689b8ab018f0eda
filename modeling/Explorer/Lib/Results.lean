import Mathlib.Data.List.Basic

/-!
# Computations that may fail

What a bind of two computations came to, taken apart: a success has both
parts, a failure is the first part's or the second's.
-/

namespace Explorer.Lib

theorem bind_eq_ok {ε α β : Type} {m : Except ε α} {f : α → Except ε β}
    {b : β} (h : m.bind f = .ok b) : ∃ a, m = .ok a ∧ f a = .ok b := by
  cases m with
  | error e' => cases h
  | ok a => exact ⟨a, rfl, h⟩

end Explorer.Lib
