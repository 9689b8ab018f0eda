import Mathlib

/-!
# Prefixes of an ordered list

A loop that consumes a list up to a bound, and later up to a larger one, has
consumed what it would have consumed in one go. On a list ordered by a key
"up to a bound" is a filter, and a filter over two adjoining ranges is the
two filters laid end to end: that is what lets a fold be stopped and taken up
again.
-/

namespace Explorer.Lib

variable {α : Type*}

/-- A longer prefix is a shorter one and what follows it. -/
theorem takeWhile_append_dropWhile_of_imp {p q : α → Bool}
    (h : ∀ a, p a → q a) (l : List α) :
    l.takeWhile p ++ (l.dropWhile p).takeWhile q = l.takeWhile q := by
  induction l with
  | nil => rfl
  | cons a l ih =>
      by_cases hp : p a
      · rw [List.takeWhile_cons_of_pos hp, List.dropWhile_cons_of_pos hp,
          List.takeWhile_cons_of_pos (h a hp), List.cons_append, ih]
      · rw [List.takeWhile_cons_of_neg hp, List.dropWhile_cons_of_neg hp]
        rfl

theorem dropWhile_dropWhile_of_imp {p q : α → Bool} (h : ∀ a, p a → q a)
    (l : List α) : (l.dropWhile p).dropWhile q = l.dropWhile q := by
  induction l with
  | nil => rfl
  | cons a l ih =>
      by_cases hp : p a
      · rw [List.dropWhile_cons_of_pos hp, List.dropWhile_cons_of_pos (h a hp),
          ih]
      · rw [List.dropWhile_cons_of_neg hp]

variable {κ : Type*} [LinearOrder κ] {key : α → κ}

/-- On an ordered list a bound cuts off a prefix. -/
theorem takeWhile_eq_filter {l : List α}
    (h : l.Pairwise fun a b => key a ≤ key b) (bound : κ) :
    (l.takeWhile fun a => decide (key a ≤ bound)) =
      l.filter fun a => decide (key a ≤ bound) := by
  induction l with
  | nil => rfl
  | cons a l ih =>
      rw [List.pairwise_cons] at h
      by_cases ha : key a ≤ bound
      · rw [List.takeWhile_cons_of_pos (by simpa using ha),
          List.filter_cons_of_pos (by simpa using ha), ih h.2]
      · rw [List.takeWhile_cons_of_neg (by simpa using ha), eq_comm,
          List.filter_eq_nil_iff]
        intro b hb
        rcases List.mem_cons.mp hb with rfl | hb
        · simpa using ha
        · simpa using lt_of_lt_of_le (not_le.mp ha) (h.1 b hb)

/-- On an ordered list a range is two adjoining ranges end to end. -/
theorem filter_append_filter {l : List α}
    (h : l.Pairwise fun a b => key a ≤ key b) {p q r : α → Bool} (cut : κ)
    (hp : ∀ a ∈ l, p a = (r a && decide (key a < cut)))
    (hq : ∀ a ∈ l, q a = (r a && decide (cut ≤ key a))) :
    l.filter p ++ l.filter q = l.filter r := by
  induction l with
  | nil => rfl
  | cons a l ih =>
      rw [List.pairwise_cons] at h
      have ih' := ih h.2 (fun b hb => hp b (List.mem_cons_of_mem _ hb))
        fun b hb => hq b (List.mem_cons_of_mem _ hb)
      have hpa := hp a List.mem_cons_self
      have hqa := hq a List.mem_cons_self
      by_cases hcut : key a < cut
      · rw [decide_eq_true hcut, Bool.and_true] at hpa
        rw [decide_eq_false (not_le.mpr hcut), Bool.and_false] at hqa
        rw [List.filter_cons_of_neg (by simp [hqa] : ¬ q a = true)]
        by_cases hr : r a
        · rw [List.filter_cons_of_pos (by rw [hpa, hr]),
            List.filter_cons_of_pos hr, List.cons_append, ih']
        · rw [List.filter_cons_of_neg (by rwa [hpa]),
            List.filter_cons_of_neg hr, ih']
      · -- from here on everything is past the cut
        have hnil : (a :: l).filter p = [] := by
          rw [List.filter_eq_nil_iff]
          intro b hb
          have hle : cut ≤ key b := by
            rcases List.mem_cons.mp hb with rfl | hb
            · exact not_lt.mp hcut
            · exact le_trans (not_lt.mp hcut) (h.1 b hb)
          rw [hp b hb, decide_eq_false (not_lt.mpr hle), Bool.and_false]
          exact Bool.false_ne_true
        rw [hnil, List.nil_append]
        refine List.filter_congr fun b hb => ?_
        have hle : cut ≤ key b := by
          rcases List.mem_cons.mp hb with rfl | hb
          · exact not_lt.mp hcut
          · exact le_trans (not_lt.mp hcut) (h.1 b hb)
        rw [hq b hb, decide_eq_true hle, Bool.and_true]

end Explorer.Lib
