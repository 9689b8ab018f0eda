import Mathlib.Data.List.SplitBy

/-!
# Maximal runs, from either end

`List.splitBy r` cuts a list into its maximal runs of `r`-related
neighbours. A program that walks the list backwards cuts it from the other
end; for a symmetric `r` the runs are the same, met in the opposite order.
-/

namespace Explorer.Lib

variable {α : Type*}

/-- The runs of a reversed list are the reversed runs, last one first. -/
theorem splitBy_reverse {r : α → α → Bool} (hsymm : ∀ a b, r a b = r b a)
    (l : List α) :
    l.reverse.splitBy r = ((l.splitBy r).map List.reverse).reverse := by
  rw [List.splitBy_eq_iff]
  refine ⟨?_, ?_, ?_, ?_⟩
  · rw [← List.reverse_flatten, List.flatten_splitBy]
  · rw [List.mem_reverse, List.mem_map]
    rintro ⟨g, hg, hnil⟩
    rw [List.reverse_eq_nil_iff] at hnil
    exact List.ne_nil_of_mem_splitBy hg hnil
  · intro g hg
    obtain ⟨g', hg', rfl⟩ := List.mem_map.mp (List.mem_reverse.mp hg)
    rw [List.isChain_reverse]
    exact (List.isChain_of_mem_splitBy hg').imp fun a b h => by rw [hsymm, h]
  · rw [List.isChain_reverse, List.isChain_map]
    refine (List.isChain_getLast_head_splitBy r l).imp ?_
    rintro a b ⟨ha, hb, h⟩
    refine ⟨by simpa using hb, by simpa using ha, ?_⟩
    rw [List.getLast_reverse, List.head_reverse, hsymm]
    exact h

/-- The runs met when the list is walked from its end. -/
theorem splitBy_reverse_map {r : α → α → Bool} (hsymm : ∀ a b, r a b = r b a)
    (l : List α) :
    (l.reverse.splitBy r).map List.reverse = (l.splitBy r).reverse := by
  rw [splitBy_reverse hsymm, List.map_reverse, List.map_map]
  simp

/-! ## Runs of a key -/

/-- Lists with one key each, laid end to end: their runs are the lists that
are not empty, as long as no two of them share a key. -/
theorem splitBy_flatMap {ι κ : Type*} [BEq κ] [LawfulBEq κ] {key : α → κ}
    {rows : ι → List α} {keyOf : ι → κ}
    (hkey : ∀ i, ∀ a ∈ rows i, key a = keyOf i) {l : List ι}
    (hnodup : (l.map keyOf).Nodup) :
    (l.flatMap rows).splitBy (fun a b => key a == key b) =
      (l.map rows).filter fun g => !g.isEmpty := by
  rw [List.splitBy_eq_iff]
  refine ⟨?_, ?_, ?_, ?_⟩
  · clear hnodup
    induction l with
    | nil => rfl
    | cons i l ih =>
        rw [List.flatMap_cons, List.map_cons, List.filter_cons]
        split
        · rw [List.flatten_cons, ih]
        · next h =>
            have hempty : rows i = [] := by simpa using h
            rw [hempty, ih]
            rfl
  · intro hmem
    have := (List.mem_filter.mp hmem).2
    simp at this
  · intro g hg
    obtain ⟨i, -, rfl⟩ := List.mem_map.mp (List.mem_filter.mp hg).1
    refine List.Pairwise.isChain (List.pairwise_of_forall_mem_list ?_)
    intro a ha b hb
    rw [hkey i a ha, hkey i b hb, beq_self_eq_true]
  · refine List.Pairwise.isChain (List.pairwise_filter.mpr ?_)
    rw [List.pairwise_map]
    refine (List.pairwise_map.mp hnodup).imp ?_
    intro i j hne hi hj
    have hi' : rows i ≠ [] := by simpa using hi
    have hj' : rows j ≠ [] := by simpa using hj
    refine ⟨hi', hj', ?_⟩
    rw [hkey i _ (List.getLast_mem hi'), hkey j _ (List.head_mem hj')]
    exact beq_eq_false_iff_ne.mpr hne

end Explorer.Lib
