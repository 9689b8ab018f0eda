import Mathlib.Data.List.Basic
import Mathlib.Data.List.Induction

/-!
# The first of each key

A pass that keeps of a list the first element under each key and lets the
elements through that it is not about. The keys seen are a list here, grown
at the front; what the pass keeps depends on which keys are in it only.

Two passes under two keys, one of which tells more elements apart, agree on a
list exactly where the coarser key tells them apart as well. The pass with the
finer key keeps at least as much, so where the results agree no element can
have been dropped by the other alone.
-/

namespace Explorer.Lib

variable {α κ : Type*} [DecidableEq κ]

/-- The pass, on the keys seen. -/
def firstsFrom (p : α → Bool) (key : α → κ) (seen : List κ) : List α → List α
  | [] => []
  | a :: l =>
      if p a = false then a :: firstsFrom p key seen l
      else if key a ∈ seen then firstsFrom p key seen l
      else a :: firstsFrom p key (key a :: seen) l

variable {p : α → Bool} {key : α → κ} {seen : List κ} {l : List α}

theorem firstsFrom_cons (a : α) :
    firstsFrom p key seen (a :: l) =
      if p a = false then a :: firstsFrom p key seen l
      else if key a ∈ seen then firstsFrom p key seen l
      else a :: firstsFrom p key (key a :: seen) l :=
  rfl

theorem firstsFrom_sublist (p : α → Bool) (key : α → κ) (seen : List κ)
    (l : List α) : (firstsFrom p key seen l).Sublist l := by
  induction l generalizing seen with
  | nil => exact List.Sublist.slnil
  | cons a l ih =>
      unfold firstsFrom
      split
      · exact (ih seen).cons_cons a
      · split
        · exact (ih seen).cons a
        · exact (ih _).cons_cons a

/-- What the pass is not about goes through. -/
theorem filter_firstsFrom (p : α → Bool) (key : α → κ) (seen : List κ)
    (l : List α) :
    (firstsFrom p key seen l).filter (fun a => !p a) =
      l.filter fun a => !p a := by
  induction l generalizing seen with
  | nil => rfl
  | cons a l ih =>
      unfold firstsFrom
      cases hp : p a with
      | false =>
          rw [if_pos rfl, List.filter_cons, List.filter_cons, ih, hp]
      | true =>
          rw [if_neg Bool.true_eq_false.mp, List.filter_cons, hp]
          split
          · exact ih seen
          · rw [List.filter_cons, hp]
            exact ih _

/-- What has been through a pass goes through one that has seen no more. -/
theorem firstsFrom_firstsFrom {seen' : List κ} (h : seen' ⊆ seen) :
    firstsFrom p key seen' (firstsFrom p key seen l) =
      firstsFrom p key seen l := by
  induction l generalizing seen seen' with
  | nil => rfl
  | cons a l ih =>
      rw [firstsFrom_cons]
      by_cases hp : p a = false
      · rw [if_pos hp, firstsFrom_cons, if_pos hp, ih h]
      · rw [if_neg hp]
        by_cases hseen : key a ∈ seen
        · rw [if_pos hseen, ih h]
        · rw [if_neg hseen, firstsFrom_cons, if_neg hp,
            if_neg fun hmem => hseen (h hmem),
            ih (List.cons_subset_cons _ h)]

/-- The element repeats a key, seen or in the list before it. -/
def Repeats (p : α → Bool) (key : α → κ) (seen : List κ) (before : List α)
    (a : α) : Prop :=
  p a = true ∧ (key a ∈ seen ∨ ∃ b ∈ before, p b = true ∧ key b = key a)

instance (seen : List κ) (before : List α) (a : α) :
    Decidable (Repeats p key seen before a) :=
  inferInstanceAs (Decidable (_ ∧ _))

/-- One element more. -/
theorem firstsFrom_append (a : α) :
    firstsFrom p key seen (l ++ [a]) = firstsFrom p key seen l ++
      if Repeats p key seen l a then [] else [a] := by
  induction l generalizing seen with
  | nil =>
      rw [List.nil_append, firstsFrom, firstsFrom]
      by_cases hp : p a = false
      · rw [if_pos hp, if_neg fun h : Repeats p key seen [] a =>
          Bool.false_ne_true (hp.symm.trans h.1)]
        rfl
      · rw [if_neg hp]
        by_cases hseen : key a ∈ seen
        · rw [if_pos hseen, if_pos ⟨eq_true_of_ne_false hp, .inl hseen⟩]
          rfl
        · rw [if_neg hseen, if_neg ?_]
          · rfl
          · rintro ⟨-, hmem | ⟨b, hb, -⟩⟩
            · exact hseen hmem
            · exact absurd hb List.not_mem_nil
  | cons b l ih =>
      rw [List.cons_append, firstsFrom, firstsFrom]
      -- what `b` adds to the keys seen is what it adds to the elements before
      by_cases hp : p b = false
      · rw [if_pos hp, if_pos hp, ih, List.cons_append]
        congr 2
        refine if_congr (and_congr_right fun _ => or_congr_right ?_) rfl rfl
        constructor
        · rintro ⟨c, hc, hrest⟩
          exact ⟨c, List.mem_cons_of_mem _ hc, hrest⟩
        · rintro ⟨c, hc, hrest⟩
          rcases List.mem_cons.mp hc with rfl | hc
          · exact absurd hrest.1 (hp ▸ Bool.false_ne_true)
          · exact ⟨c, hc, hrest⟩
      · have hp' := eq_true_of_ne_false hp
        rw [if_neg hp, if_neg hp]
        by_cases hseen : key b ∈ seen
        · rw [if_pos hseen, if_pos hseen, ih]
          congr 1
          refine if_congr (and_congr_right fun _ => ?_) rfl rfl
          constructor
          · rintro (hmem | ⟨c, hc, hrest⟩)
            · exact .inl hmem
            · exact .inr ⟨c, List.mem_cons_of_mem _ hc, hrest⟩
          · rintro (hmem | ⟨c, hc, hrest⟩)
            · exact .inl hmem
            · rcases List.mem_cons.mp hc with rfl | hc
              · exact .inl (hrest.2 ▸ hseen)
              · exact .inr ⟨c, hc, hrest⟩
        · rw [if_neg hseen, if_neg hseen, ih, List.cons_append]
          congr 2
          refine if_congr (and_congr_right fun _ => ?_) rfl rfl
          rw [List.mem_cons]
          constructor
          · rintro ((heq | hmem) | ⟨c, hc, hrest⟩)
            · exact .inr ⟨b, List.mem_cons_self, hp', heq.symm⟩
            · exact .inl hmem
            · exact .inr ⟨c, List.mem_cons_of_mem _ hc, hrest⟩
          · rintro (hmem | ⟨c, hc, hrest⟩)
            · exact .inl (.inr hmem)
            · rcases List.mem_cons.mp hc with rfl | hc
              · exact .inl (.inl hrest.2.symm)
              · exact .inr ⟨c, hc, hrest⟩

/-- The positions that repeat no key before them. -/
def firstPositions (p : α → Bool) (key : α → κ) (l : List α) : List α :=
  (List.range l.length).filterMap fun i =>
    l[i]?.filter fun a => !decide (Repeats p key [] (l.take i) a)

theorem firstPositions_append (a : α) :
    firstPositions p key (l ++ [a]) = firstPositions p key l ++
      if Repeats p key [] l a then [] else [a] := by
  unfold firstPositions
  rw [List.length_append, List.length_singleton, List.range_succ,
    List.filterMap_append]
  congr 1
  · refine List.filterMap_congr fun i hi => ?_
    have hi := List.mem_range.mp hi
    rw [List.getElem?_append_left hi,
      List.take_append_of_le_length (Nat.le_of_lt hi)]
  · rw [List.filterMap_cons, List.filterMap_nil, List.take_left,
      List.getElem?_append_right (Nat.le_refl _), Nat.sub_self]
    by_cases hrepeats : Repeats p key [] l a
    · rw [if_pos hrepeats]
      simp [Option.filter, hrepeats]
    · rw [if_neg hrepeats]
      simp [Option.filter, hrepeats]

/-- The pass keeps exactly the positions that repeat no key. -/
theorem firstsFrom_eq_firstPositions :
    firstsFrom p key [] l = firstPositions p key l := by
  induction l using List.reverseRecOn with
  | nil => rfl
  | append_singleton l a ih =>
      rw [firstsFrom_append, firstPositions_append, ih]

/-! ## Two keys -/

section

variable {κ' : Type*} [DecidableEq κ'] {key' : α → κ'}

/-- Among the elements that the passes are about, one key tells apart what
the other does. -/
def KeysAgree (p : α → Bool) (key : α → κ) (key' : α → κ') (l : List α) :
    Prop :=
  ∀ a ∈ l, ∀ b ∈ l, p a = true → p b = true → key a = key b → key' a = key' b

variable (hfiner : ∀ a b, key' a = key' b → key a = key b)

include hfiner

omit [DecidableEq κ] [DecidableEq κ'] in
theorem Repeats.coarser {a : α} (h : Repeats p key' [] l a) :
    Repeats p key [] l a := by
  obtain ⟨hp, hmem | ⟨b, hb, hpb, hkey⟩⟩ := h
  · exact absurd hmem List.not_mem_nil
  · exact ⟨hp, .inr ⟨b, hb, hpb, hfiner b a hkey⟩⟩

theorem length_firstsFrom_le (l : List α) :
    (firstsFrom p key [] l).length ≤ (firstsFrom p key' [] l).length := by
  induction l using List.reverseRecOn with
  | nil => exact Nat.le_refl _
  | append_singleton l a ih =>
      rw [firstsFrom_append, firstsFrom_append, List.length_append,
        List.length_append]
      by_cases hrepeats : Repeats p key' [] l a
      · rw [if_pos hrepeats, if_pos (Repeats.coarser hfiner hrepeats)]
        omega
      · rw [if_neg hrepeats]
        split <;> simp only [List.length_nil, List.length_singleton] <;> omega

/-- The passes agree exactly where the coarser key is as fine. -/
theorem firstsFrom_eq_iff (l : List α) :
    firstsFrom p key [] l = firstsFrom p key' [] l ↔
      KeysAgree p key key' l := by
  induction l using List.reverseRecOn with
  | nil =>
      constructor
      · intro _ a ha
        exact absurd ha List.not_mem_nil
      · intro _
        rfl
  | append_singleton l a ih =>
      have hle : (firstsFrom p key [] l).length ≤
          (firstsFrom p key' [] l).length := length_firstsFrom_le hfiner l
      rw [firstsFrom_append, firstsFrom_append]
      constructor
      · intro h
        have hlength := congrArg List.length h
        rw [List.length_append, List.length_append] at hlength
        have hsame : Repeats p key [] l a ↔ Repeats p key' [] l a := by
          refine ⟨fun hrepeats => ?_, Repeats.coarser hfiner⟩
          by_contra hnot
          rw [if_pos hrepeats, if_neg hnot] at hlength
          simp only [List.length_nil, List.length_singleton] at hlength
          omega
        rw [if_congr hsame rfl rfl] at h
        have hbefore := ih.mp (List.append_cancel_right h)
        have hlast : ∀ b ∈ l, p b = true → p a = true → key b = key a →
            key' b = key' a := by
          intro b hb hpb hpa hkey
          obtain ⟨-, hmem | ⟨c, hc, hpc, hkey'⟩⟩ :=
            hsame.mp ⟨hpa, .inr ⟨b, hb, hpb, hkey⟩⟩
          · exact absurd hmem List.not_mem_nil
          · rw [← hkey']
            exact hbefore b hb c hc hpb hpc
              (hkey.trans (hfiner c a hkey').symm)
        intro b hb c hc hpb hpc hkey
        rcases List.mem_append.mp hb with hb | hb
        · rcases List.mem_append.mp hc with hc | hc
          · exact hbefore b hb c hc hpb hpc hkey
          · cases List.mem_singleton.mp hc
            exact hlast b hb hpb hpc hkey
        · cases List.mem_singleton.mp hb
          rcases List.mem_append.mp hc with hc | hc
          · exact (hlast c hc hpc hpb hkey.symm).symm
          · cases List.mem_singleton.mp hc
            rfl
      · intro h
        have hbefore : KeysAgree p key key' l := fun b hb c hc =>
          h b (List.mem_append_left _ hb) c (List.mem_append_left _ hc)
        have hsame : Repeats p key [] l a ↔ Repeats p key' [] l a := by
          refine ⟨?_, Repeats.coarser hfiner⟩
          rintro ⟨hpa, hmem | ⟨b, hb, hpb, hkey⟩⟩
          · exact absurd hmem List.not_mem_nil
          · exact ⟨hpa, .inr ⟨b, hb, hpb, h b (List.mem_append_left _ hb) a
              (List.mem_append_right _ List.mem_cons_self) hpb hpa hkey⟩⟩
        rw [ih.mpr hbefore, if_congr hsame rfl rfl]

end

end Explorer.Lib
