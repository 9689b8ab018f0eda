import Mathlib.Data.List.Induction

/-!
# A value with an owner and lenders

An owner's writes replace the value. A lender's offer is taken while the value
that stands is not settled. After any writes the value is the last the owner
wrote, and if that is not settled the first settled one that was offered since,
and if there is none of those either, the last that was offered.
-/

namespace Explorer.Lib

variable {α : Type*}

inductive Write (α : Type*) where
  | own (a : α)
  | offer (a : α)

/-- The value after a write. -/
def Write.apply (settled : Option α → Bool) (value : Option α) :
    Write α → Option α
  | .own a => some a
  | .offer a => if settled value then value else some a

/-- What the owner wrote last. -/
def lastOwn (value : Option α) (writes : List (Write α)) : Option α :=
  writes.foldl (fun value write => match write with
    | .own a => some a
    | .offer _ => value) value

/-- What was offered since. -/
def offersSince (writes : List (Write α)) : List α :=
  writes.foldl (fun offers write => match write with
    | .own _ => []
    | .offer a => offers ++ [a]) []

/-- The first of the value and the offers that is settled, else the last. -/
def firstSettled (settled : Option α → Bool) (value : Option α)
    (offers : List α) : Option α :=
  ((value :: offers.map some).find? settled).getD
    ((offers.map some).getLastD value)

variable {settled : Option α → Bool}

theorem firstSettled_append (value : Option α) (offers : List α) (a : α) :
    firstSettled settled value (offers ++ [a]) =
      Write.apply settled (firstSettled settled value offers) (.offer a) := by
  have hlist : value :: (offers ++ [a]).map some =
      (value :: offers.map some) ++ [some a] := by
    rw [List.map_append, List.map_singleton, List.cons_append]
  rw [firstSettled, hlist, List.find?_append, firstSettled]
  cases hfind : (value :: offers.map some).find? settled with
  | some found =>
      have hsettled := List.find?_some hfind
      simp [Write.apply, hsettled]
  | none =>
      -- none is settled, so the last of them is not
      have hlast : settled ((offers.map some).getLastD value) = false := by
        rw [Bool.eq_false_iff]
        refine List.find?_eq_none.mp hfind _ ?_
        rw [List.getLastD_eq_getLast?]
        cases hoffers : (offers.map some).getLast? with
        | none => exact List.mem_cons_self
        | some last =>
            exact List.mem_cons_of_mem _ (List.mem_of_getLast? hoffers)
      have hthis : ((offers ++ [a]).map some).getLastD value = some a := by
        simp
      rw [Option.none_or, Option.getD_none, hthis]
      show _ = if settled ((offers.map some).getLastD value) = true then _
        else some a
      rw [hlast, if_neg Bool.false_ne_true, List.find?_cons]
      split <;> rfl

theorem lastOwn_append (value : Option α) (writes : List (Write α))
    (write : Write α) :
    lastOwn value (writes ++ [write]) = match write with
      | .own a => some a
      | .offer _ => lastOwn value writes := by
  rw [lastOwn, List.foldl_append]
  rfl

theorem offersSince_append (writes : List (Write α)) (write : Write α) :
    offersSince (writes ++ [write]) = match write with
      | .own _ => []
      | .offer a => offersSince writes ++ [a] := by
  rw [offersSince, List.foldl_append]
  rfl

/-- The value that writes leave. -/
theorem foldl_apply_eq_firstSettled (value : Option α)
    (writes : List (Write α)) :
    writes.foldl (Write.apply settled) value =
      firstSettled settled (lastOwn value writes) (offersSince writes) := by
  induction writes using List.reverseRecOn with
  | nil =>
      show value = firstSettled settled value []
      rw [firstSettled, List.map_nil, List.find?_cons]
      split <;> rfl
  | append_singleton writes write ih =>
      rw [List.foldl_append, ih, lastOwn_append, offersSince_append]
      cases write with
      | own a =>
          show some a = firstSettled settled (some a) []
          rw [firstSettled, List.map_nil, List.find?_cons]
          split <;> rfl
      | offer a => exact (firstSettled_append _ _ a).symm

end Explorer.Lib
