import Explorer.Lib.Tables
import Mathlib.Data.List.Perm.Basic

/-!
# Maps whose keys are compared after folding

A map that ignores the case of its keys holds entries whose keys stay distinct
when they are folded, and an entry that is put replaces the one that folds to
the same key. Whatever order the entries are kept in, the map that a list of
puts ends in has the last entry of each folded key.
-/

namespace Explorer.Lib

variable {κ κ' β ι : Type*} (fold : κ → κ')

/-- No two keys fold to the same. -/
def FoldNodup (m : List (κ × β)) : Prop := (m.map fun e => fold e.1).Nodup

variable {fold} in
theorem FoldNodup.perm {m m' : List (κ × β)} (h : FoldNodup fold m)
    (hperm : m.Perm m') : FoldNodup fold m' :=
  (hperm.map _).nodup_iff.mp h

variable [BEq κ']

/-- The first entry under a folded key: the one entry, in a map. -/
def foldedEntry (m : List (κ × β)) (k : κ') : Option (κ × β) :=
  m.find? fun e => fold e.1 == k

/-- The last entry under a folded key. -/
def lastFolded (l : List (κ × β)) (k : κ') : Option (κ × β) :=
  foldedEntry fold l.reverse k

/-- Put an entry in the place of what folds to its key. -/
def putFolded (m : List (κ × β)) (e : κ × β) : List (κ × β) :=
  e :: m.filter fun x => !(fold x.1 == fold e.1)

variable {fold} {m m' l : List (κ × β)} {k : κ'} {e : κ × β}

theorem lastFolded_append (l₁ l₂ : List (κ × β)) :
    lastFolded fold (l₁ ++ l₂) k =
      (lastFolded fold l₂ k).or (lastFolded fold l₁ k) := by
  rw [lastFolded, List.reverse_append, foldedEntry, List.find?_append]
  rfl

theorem lastFolded_cons : lastFolded fold (e :: l) k =
    (lastFolded fold l k).or (if fold e.1 == k then some e else none) := by
  rw [← List.singleton_append, lastFolded_append]
  cases h : fold e.1 == k <;> simp [lastFolded, foldedEntry, h]

variable [LawfulBEq κ']

theorem FoldNodup.entry_eq_some (h : FoldNodup fold m) :
    foldedEntry fold m k = some e ↔ e ∈ m ∧ fold e.1 = k :=
  find?_key_eq_some h

theorem FoldNodup.entry_perm (h : FoldNodup fold m) (hperm : m.Perm m') :
    foldedEntry fold m k = foldedEntry fold m' k := by
  refine Option.ext fun e => ?_
  rw [h.entry_eq_some, (h.perm hperm).entry_eq_some, hperm.mem_iff]

theorem FoldNodup.put (h : FoldNodup fold m) (e : κ × β) :
    FoldNodup fold (putFolded fold m e) := by
  rw [FoldNodup, putFolded, List.map_cons, List.nodup_cons]
  constructor
  · intro hmem
    obtain ⟨x, hx, hfold⟩ := List.mem_map.mp hmem
    simp [hfold] at hx
  · exact h.sublist (List.filter_sublist.map _)

theorem entry_put : foldedEntry fold (putFolded fold m e) k =
    if fold e.1 == k then some e else foldedEntry fold m k := by
  rw [foldedEntry, putFolded, List.find?_cons]
  cases h : fold e.1 == k with
  | true => rfl
  | false =>
      dsimp only
      rw [List.find?_filter, if_neg Bool.false_ne_true, foldedEntry]
      have hne : (k == fold e.1) = false :=
        beq_eq_false_iff_ne.mpr (beq_eq_false_iff_ne.mp h).symm
      congr 1
      funext x
      by_cases hx : fold x.1 = k
      · simp [hx, hne]
      · simp [hx]

theorem mem_of_lastFolded (h : lastFolded fold l k = some e) :
    e ∈ l ∧ fold e.1 = k := by
  rw [lastFolded, foldedEntry] at h
  exact ⟨List.mem_reverse.mp (List.mem_of_find?_eq_some h),
    by simpa using List.find?_some h⟩

theorem lastFolded_eq_none :
    lastFolded fold l k = none ↔ ∀ e ∈ l, fold e.1 ≠ k := by
  rw [lastFolded, foldedEntry, List.find?_eq_none]
  simp only [List.mem_reverse, beq_iff_eq, Ne]

/-- The map after a list of puts, kept in whatever order. -/
theorem foldl_put {step : List (κ × β) → κ × β → List (κ × β)}
    (hstep : ∀ m, ∀ e ∈ l, FoldNodup fold m →
      (step m e).Perm (putFolded fold m e)) (hm : FoldNodup fold m) :
    FoldNodup fold (l.foldl step m) ∧
      ∀ k, foldedEntry fold (l.foldl step m) k =
        (lastFolded fold l k).or (foldedEntry fold m k) := by
  induction l generalizing m with
  | nil => exact ⟨hm, fun k => rfl⟩
  | cons e l ih =>
      have hperm := hstep m e List.mem_cons_self hm
      have hnext := (hm.put e).perm hperm.symm
      obtain ⟨hnodup, hentry⟩ := ih
        (fun m x hx => hstep m x (List.mem_cons_of_mem _ hx)) hnext
      refine ⟨hnodup, fun k => ?_⟩
      rw [List.foldl_cons, hentry k, hnext.entry_perm hperm, entry_put,
        lastFolded_cons, Option.or_assoc]
      split <;> rfl

/-- Among entries that are made one from each item, under keys of their own,
the last of an item's key is the item's. -/
theorem lastFolded_filterMap {items : List ι} {key : ι → κ'}
    {entryOf : ι → Option (κ × β)}
    (hkey : ∀ i ∈ items, ∀ e, entryOf i = some e → fold e.1 = key i)
    (hnodup : (items.map key).Nodup) {i : ι} (hi : i ∈ items) :
    lastFolded fold (items.filterMap entryOf) (key i) = entryOf i := by
  induction items with
  | nil => cases hi
  | cons j items ih =>
      rw [List.map_cons, List.nodup_cons] at hnodup
      have hrest : ∀ x ∈ items, ∀ e, entryOf x = some e → fold e.1 = key x :=
        fun x hx => hkey x (List.mem_cons_of_mem _ hx)
      have hsplit : (j :: items).filterMap entryOf =
          (entryOf j).toList ++ items.filterMap entryOf := by
        rw [List.filterMap_cons]
        cases entryOf j <;> rfl
      rw [hsplit, lastFolded_append]
      rcases List.mem_cons.mp hi with rfl | hi
      · have hnone : lastFolded fold (items.filterMap entryOf) (key i) =
            none := by
          rw [lastFolded_eq_none]
          intro e he hfold
          obtain ⟨x, hx, hentry⟩ := List.mem_filterMap.mp he
          refine hnodup.1 (List.mem_map.mpr ⟨x, hx, ?_⟩)
          rw [← hrest x hx e hentry, hfold]
        rw [hnone, Option.none_or]
        cases hentry : entryOf i with
        | none => rfl
        | some e =>
            have hfold := hkey i List.mem_cons_self e hentry
            simp [lastFolded, foldedEntry, hfold]
      · have hfirst : lastFolded fold (entryOf j).toList (key i) = none := by
          rw [lastFolded_eq_none]
          intro e he hfold
          have hentry := Option.mem_toList.mp he
          refine hnodup.1 (List.mem_map.mpr ⟨i, hi, ?_⟩)
          rw [← hkey j List.mem_cons_self e hentry, hfold]
        rw [hfirst, Option.or_none]
        exact ih hrest hnodup.2 hi

end Explorer.Lib
