import Mathlib.Data.Finmap
import Mathlib.Data.Finset.Sort

/-!
# Finite maps: the entry a key owns, and the map as a list of rows

`Finmap` has lookup lemmas for its operations but says nothing about the
multiset of entries after them, and an aggregate over a map (a sum, a count)
is a function of that multiset. The two equations here are all an
incremental aggregate needs: a map is the entry of a key in front of the map
without the key, and inserting puts the new entry there.

The second half reads a map out as a list of pairs with distinct keys and
back, which is what storing a map in a keyed table does.
-/

namespace Explorer.Lib

variable {α β : Type*} [DecidableEq α]

theorem erase_of_notMem {a : α} {m : Finmap fun _ : α => β} (h : a ∉ m) :
    m.erase a = m := by
  refine Finmap.ext_lookup fun x => ?_
  by_cases hx : x = a
  · subst hx
    rw [Finmap.lookup_erase, Finmap.lookup_eq_none.mpr h]
  · rw [Finmap.lookup_erase_ne hx]

theorem insert_erase_of_lookup {a : α} {b : β} {m : Finmap fun _ : α => β}
    (h : m.lookup a = some b) : (m.erase a).insert a b = m := by
  refine Finmap.ext_lookup fun x => ?_
  by_cases hx : x = a
  · subst hx
    rw [Finmap.lookup_insert, h]
  · rw [Finmap.lookup_insert_of_ne _ hx, Finmap.lookup_erase_ne hx]

/-- Inserting replaces whatever entry the key owned. -/
theorem entries_insert (a : α) (b : β) (m : Finmap fun _ : α => β) :
    (m.insert a b).entries = ⟨a, b⟩ ::ₘ (m.erase a).entries := by
  induction m using Finmap.induction_on with
  | H l => rfl

/-- A map is the entry of one of its keys and the rest. -/
theorem entries_of_lookup {a : α} {b : β} {m : Finmap fun _ : α => β}
    (h : m.lookup a = some b) :
    m.entries = ⟨a, b⟩ ::ₘ (m.erase a).entries := by
  conv_lhs => rw [← insert_erase_of_lookup h]
  rw [entries_insert, erase_of_notMem Finmap.notMem_erase_self]

/-- An entry of the map is a key with the value it looks up. -/
theorem mem_entries_iff {a : α} {b : β} {m : Finmap fun _ : α => β} :
    (⟨a, b⟩ : Sigma fun _ : α => β) ∈ m.entries ↔ m.lookup a = some b :=
  Finmap.mem_lookup_iff.symm

/-! ## Rows -/

/-- A keyed table read into a map, later rows winning. -/
def ofPairs (rows : List (α × β)) : Finmap fun _ : α => β :=
  rows.foldl (fun m r => m.insert r.1 r.2) ∅

theorem lookup_foldl_insert {rows : List (α × β)}
    {m : Finmap fun _ : α => β} (hkeys : (rows.map Prod.fst).Nodup) (a : α) :
    (rows.foldl (fun m r => m.insert r.1 r.2) m).lookup a =
      ((rows.find? fun r => r.1 = a).map Prod.snd).or (m.lookup a) := by
  induction rows generalizing m with
  | nil => rfl
  | cons r rows ih =>
      rw [List.map_cons, List.nodup_cons] at hkeys
      rw [List.foldl_cons, ih hkeys.2]
      by_cases ha : r.1 = a
      · have hnone : rows.find? (fun r => r.1 = a) = none := by
          refine List.find?_eq_none.mpr fun x hx hxa => hkeys.1 ?_
          rw [ha, ← of_decide_eq_true hxa]
          exact List.mem_map_of_mem hx
        subst ha
        rw [hnone, List.find?_cons_of_pos (by simp), Finmap.lookup_insert]
        rfl
      · rw [List.find?_cons_of_neg (by simpa using ha),
          Finmap.lookup_insert_of_ne _ (fun e => ha e.symm)]

theorem lookup_ofPairs {rows : List (α × β)}
    (hkeys : (rows.map Prod.fst).Nodup) {a : α} {b : β} :
    (ofPairs rows).lookup a = some b ↔ (a, b) ∈ rows := by
  rw [ofPairs, lookup_foldl_insert hkeys, Finmap.lookup_empty, Option.or_none,
    Option.map_eq_some_iff]
  constructor
  · rintro ⟨r, hr, rfl⟩
    have ha : r.1 = a := by simpa using List.find?_some hr
    have hm := List.mem_of_find?_eq_some hr
    rwa [← ha]
  · intro hmem
    cases hf : rows.find? fun r => r.1 = a with
    | none =>
        have := List.find?_eq_none.mp hf _ hmem
        simp at this
    | some r =>
        have ha : r.1 = a := by simpa using List.find?_some hf
        have hm := List.mem_of_find?_eq_some hf
        have : r = (a, b) := List.inj_on_of_nodup_map hkeys hm hmem ha
        exact ⟨r, rfl, by rw [this]⟩

variable (le : α → α → Prop) [DecidableRel le] [IsTrans α le]
  [Std.Antisymm le] [Std.Total le]

/-- A map written out as rows, in the order of the keys. -/
def toPairs (m : Finmap fun _ : α => β) : List (α × β) :=
  (m.keys.sort le).filterMap fun a => (m.lookup a).map (Prod.mk a)

theorem mem_toPairs {m : Finmap fun _ : α => β} {a : α} {b : β} :
    (a, b) ∈ toPairs le m ↔ m.lookup a = some b := by
  simp only [toPairs, List.mem_filterMap, Option.map_eq_some_iff,
    Finset.mem_sort]
  constructor
  · rintro ⟨x, -, y, hy, he⟩
    cases he
    exact hy
  · intro h
    exact ⟨a, Finmap.mem_keys.mpr (Finmap.mem_of_lookup_eq_some h), b, h, rfl⟩

theorem nodup_toPairs (m : Finmap fun _ : α => β) :
    ((toPairs le m).map Prod.fst).Nodup := by
  have hfst : (toPairs le m).map Prod.fst =
      (m.keys.sort le).filter fun a => (m.lookup a).isSome := by
    rw [toPairs, List.map_filterMap, ← List.filterMap_eq_filter]
    refine List.filterMap_congr fun a _ => ?_
    cases h : m.lookup a <;> simp [h, Option.guard]
  rw [hfst]
  exact (Finset.sort_nodup _ _).filter _

end Explorer.Lib
