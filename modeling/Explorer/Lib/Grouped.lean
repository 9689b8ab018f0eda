import Mathlib

/-!
# Lists sorted into groups

A program that asks for many things at once sorts them into groups by a key.
The group of a key is what filtering the list by the key gives, in the order of
the list, and the groups of all keys hold each element once. A map that the
elements are pushed into holds the groups, and keys that differ each take
theirs out.
-/

namespace Explorer.Lib

variable {α κ : Type*} [BEq κ] [LawfulBEq κ]

/-- The elements under a key. -/
def group (key : α → κ) (l : List α) (k : κ) : List α :=
  l.filter fun a => key a == k

variable {key : α → κ} {l : List α}

/-- A group of a sorted list is the sorted group, where the places tell the
elements apart. -/
theorem filter_mergeSort {ι : Type*} [LinearOrder ι] {place : α → ι}
    (hplaces : (l.map place).Nodup) (p : α → Bool) :
    (l.mergeSort fun a b => decide (place a ≤ place b)).filter p =
      (l.filter p).mergeSort fun a b => decide (place a ≤ place b) := by
  have hsorted : ∀ l' : List α,
      (l'.mergeSort fun a b => decide (place a ≤ place b)).Pairwise
        fun a b => place a ≤ place b := by
    intro l'
    refine (List.pairwise_mergeSort (fun a b c hab hbc => ?_)
      (fun a b => ?_) l').imp fun h => of_decide_eq_true h
    · exact decide_eq_true
        (le_trans (of_decide_eq_true hab) (of_decide_eq_true hbc))
    · rw [Bool.or_eq_true, decide_eq_true_iff, decide_eq_true_iff]
      exact le_total _ _
  refine List.Perm.eq_of_pairwise (fun a b ha hb hab hba => ?_)
    ((hsorted l).filter p) (hsorted (l.filter p))
    (((List.mergeSort_perm l _).filter p).trans
      (List.mergeSort_perm (l.filter p) _).symm)
  refine List.inj_on_of_nodup_map hplaces ?_ ?_ (le_antisymm hab hba)
  · exact (List.mergeSort_perm l _).mem_iff.mp (List.mem_of_mem_filter ha)
  · exact List.mem_of_mem_filter
      ((List.mergeSort_perm (l.filter p) _).mem_iff.mp hb)

/-- What a sorted answer for many keys has of one of them is the sorted answer
for it alone. -/
theorem group_mergeSort_filter {ι : Type*} [LinearOrder ι] {place : α → ι}
    (hplaces : (l.map place).Nodup) {keys : List κ} {k : κ} (hk : k ∈ keys) :
    group key ((l.filter fun a => keys.contains (key a)).mergeSort
        fun a b => decide (place a ≤ place b)) k =
      (l.filter fun a => [k].contains (key a)).mergeSort
        fun a b => decide (place a ≤ place b) := by
  have hasked := hplaces.sublist
    ((List.filter_sublist (p := fun a => keys.contains (key a))).map place)
  rw [group, filter_mergeSort hasked, List.filter_filter]
  congr 1
  refine List.filter_congr fun a _ => ?_
  rw [Bool.eq_iff_iff, Bool.and_eq_true, beq_iff_eq, List.contains_iff_mem,
    List.contains_iff_mem, List.mem_singleton]
  exact ⟨And.left, fun heq => ⟨heq, heq ▸ hk⟩⟩

/-! ## Groups in a map -/

section

variable {α β κ : Type*} [BEq κ] {key : α → κ}

/-- Push what an element has to say to the end of its group. -/
def pushGroup (key : α → κ) (value : α → β) (groups : κ → List β) (a : α) :
    κ → List β :=
  fun k => if key a == k then groups k ++ [value a] else groups k

theorem foldl_pushGroup (value : α → β) (groups : κ → List β) (l : List α)
    (k : κ) :
    l.foldl (pushGroup key value) groups k =
      groups k ++ (group key l k).map value := by
  induction l generalizing groups with
  | nil => exact (List.append_nil _).symm
  | cons a l ih =>
      rw [List.foldl_cons, ih, pushGroup, group, group, List.filter_cons]
      split
      · rw [List.append_assoc, List.map_cons, List.singleton_append]
      · rfl

/-- Take the groups of the keys out, one after the other. -/
def takeGroups (groups : κ → List β) : List κ → List (List β)
  | [] => []
  | k :: keys =>
      groups k :: takeGroups (fun k' => if k' == k then [] else groups k') keys

/-- Different keys find their groups. -/
theorem takeGroups_eq_map [LawfulBEq κ] {groups : κ → List β} {keys : List κ}
    (hnodup : keys.Nodup) : takeGroups groups keys = keys.map groups := by
  induction keys generalizing groups with
  | nil => rfl
  | cons k keys ih =>
      obtain ⟨hk, hnodup⟩ := List.nodup_cons.mp hnodup
      rw [takeGroups, ih hnodup, List.map_cons]
      congr 1
      refine List.map_congr_left fun k' hk' => ?_
      refine if_neg fun heq => hk ?_
      rw [← beq_iff_eq.mp heq]
      exact hk'

end

end Explorer.Lib
