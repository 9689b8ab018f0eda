import Mathlib.Algebra.BigOperators.Fin
import Mathlib.Data.List.FinRange

/-!
# Counting by fibre, and sums that saturate

Two facts a bounded counter array needs. A count over a list is the sum of
the counts over the fibres of any function into a finite type, so an array
with one cell per fibre holds the whole count between its cells. And a
left-to-right sum that saturates after every addition ends where the exact
sum saturated once would, so a comparison against a limit below the ceiling
cannot tell the two apart.
-/

namespace Explorer.Lib

variable {α κ : Type*}

/-- A count is the sum of its fibre counts. -/
theorem sum_countP_fibre [Fintype κ] [DecidableEq κ] (f : α → κ)
    (p : α → Bool) (l : List α) :
    ∑ k, l.countP (fun a => decide (f a = k) && p a) = l.countP p := by
  induction l with
  | nil => simp
  | cons a l ih =>
      simp only [List.countP_cons, Finset.sum_add_distrib, ih]
      congr 1
      cases p a <;> simp

/-- A fold whose step is saturated addition, wherever the accumulator can
be, ends at the saturated sum. -/
theorem foldl_sat {f : Nat → α → Nat} {g : α → Nat} {ceil : Nat}
    (hf : ∀ t a, t ≤ ceil → f t a = min (t + g a) ceil) :
    ∀ (l : List α) (t : Nat), t ≤ ceil →
    l.foldl f t = min (t + (l.map g).sum) ceil := by
  intro l
  induction l with
  | nil =>
      intro t ht
      simp only [List.foldl_nil, List.map_nil, List.sum_nil]
      omega
  | cons a l ih =>
      intro t ht
      rw [List.foldl_cons, hf t a ht, ih _ (Nat.min_le_right _ _)]
      simp only [List.map_cons, List.sum_cons]
      omega

end Explorer.Lib
