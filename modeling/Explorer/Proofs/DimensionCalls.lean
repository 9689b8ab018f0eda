import Explorer.Proofs.DimensionCache

/-!
# Calls on the dimensions, one after another

A call that no other connection is in the way of leaves contents that depend
on its key alone. It keeps the rows that are there under their ids, and made
again it changes nothing.
-/

namespace Explorer.Ref

open Explorer.Lib

/-! ## Asked for twice -/

section

variable {δ : Type} {c : Contents δ} {key k : Key}

/-- What a resolver does to the contents when no other connection is in its
way. -/
def Contents.touch (c : Contents δ) (key : Key) : Contents δ :=
  match key with
  | .contract chain hash =>
      if c.has key then c.fill chain hash
      else c.add ⟨key, some hash, some hash⟩
  | _ => if c.has key then c else c.add { key := key }

/-- The row is there, with nothing left to fill. -/
def Contents.Settles (c : Contents δ) (key : Key) : Prop :=
  c.has key = true ∧ c.Settled key

theorem Contents.has_add (c : Contents δ) (d : DimensionContent) :
    (c.add d).has k = (c.has k || d.key == k) := by
  simp [Contents.has, Contents.add]

theorem DimensionContent.fill_key (value : String) (d : DimensionContent) :
    (d.fill value).key = d.key :=
  rfl

theorem Contents.has_fill (c : Contents δ) (chain : Nat) (hash : String) :
    (c.fill chain hash).has k = c.has k := by
  rw [Contents.has, Contents.has, Contents.fill, List.any_map]
  congr 1
  funext d
  rw [Function.comp_apply]
  split
  · rw [DimensionContent.fill_key]
  · rfl

theorem Contents.settled_add_other {d : DimensionContent} (h : c.Settled k)
    (hne : d.key ≠ k) : (c.add d).Settled k := by
  intro x hx hkey
  rcases List.mem_append.mp hx with hx | hx
  · exact h x hx hkey
  · rw [List.mem_singleton.mp hx] at hkey
    exact absurd hkey hne

theorem Contents.Settles.touch_eq (h : c.Settles key) : c.touch key = c := by
  obtain ⟨hhas, hset⟩ := h
  cases key with
  | contract chain hash =>
      rw [Contents.touch, if_pos hhas, Contents.fill_of_settled hset]
  | address chain a => exact if_pos hhas
  | eventKind name => exact if_pos hhas
  | transactionState name => exact if_pos hhas

/-- A key of a dimension with nothing to fill. -/
theorem Contents.settles_plain (hkey : ∀ chain hash, key ≠ .contract chain hash)
    (c : Contents δ) :
    (if c.has key then c else c.add { key := key }).Settles key := by
  refine ⟨?_, Contents.settled_of_ne hkey⟩
  split
  · next hhas => exact hhas
  · rw [Contents.has_add, beq_self_eq_true, Bool.or_true]

theorem Contents.settles_touch (c : Contents δ) (key : Key) :
    (c.touch key).Settles key := by
  cases key with
  | contract chain hash =>
      rw [Contents.touch]
      split
      · next hhas =>
          refine ⟨?_, c.settled_fill⟩
          rw [Contents.has_fill, hhas]
      · next hhas =>
          refine ⟨?_, Contents.settled_add hhas⟩
          rw [Contents.has_add, beq_self_eq_true, Bool.or_true]
  | address chain a => exact Contents.settles_plain (by simp) c
  | eventKind name => exact Contents.settles_plain (by simp) c
  | transactionState name => exact Contents.settles_plain (by simp) c

theorem Contents.Settles.add {d : DimensionContent} (h : c.Settles k)
    (hnot : ¬c.has d.key = true) : (c.add d).Settles k := by
  refine ⟨?_, Contents.settled_add_other h.2 ?_⟩
  · rw [Contents.has_add, h.1, Bool.true_or]
  · rintro rfl
    exact hnot h.1

theorem Contents.Settles.touch (h : c.Settles k) (key : Key) :
    (c.touch key).Settles k := by
  have hplain : (if c.has key then c else c.add { key := key }).Settles k := by
    split
    · exact h
    · next hhas => exact h.add hhas
  cases key with
  | contract chain hash =>
      rw [Contents.touch]
      split
      · refine ⟨?_, h.2.fill⟩
        rw [Contents.has_fill, h.1]
      · next hhas => exact h.add hhas
  | address chain a => exact hplain
  | eventKind name => exact hplain
  | transactionState name => exact hplain

theorem Contents.Settles.foldl (h : c.Settles k) (keys : List Key) :
    (keys.foldl Contents.touch c).Settles k := by
  induction keys generalizing c with
  | nil => exact h
  | cons key keys ih => exact ih (h.touch key)

theorem Contents.settles_foldl (c : Contents δ) {keys : List Key}
    (h : k ∈ keys) : (keys.foldl Contents.touch c).Settles k := by
  induction keys generalizing c with
  | nil => cases h
  | cons key keys ih =>
      rcases List.mem_cons.mp h with rfl | h
      · exact (c.settles_touch k).foldl keys
      · exact ih (c.touch key) h

/-- Keys asked for again change nothing. -/
theorem Contents.foldl_touch_again (c : Contents δ) {keys again : List Key}
    (h : again ⊆ keys) :
    again.foldl Contents.touch (keys.foldl Contents.touch c) =
      keys.foldl Contents.touch c := by
  induction again with
  | nil => rfl
  | cons key again ih =>
      have hkey : key ∈ keys := h List.mem_cons_self
      rw [List.foldl_cons, (c.settles_foldl hkey).touch_eq]
      exact ih (List.subset_of_cons_subset h)

/-- A pass that starts over at an earlier point of one list of keys leaves
what a pass to the further point would. -/
theorem Contents.foldl_touch_resume (c : Contents δ)
    {all keys front next : List Key} (hkeys : keys <+: all)
    (hfront : front <+: keys) (hnext : front ++ next <+: all) :
    ∃ keys', keys <+: keys' ∧ front ++ next <+: keys' ∧ keys' <+: all ∧
      next.foldl Contents.touch (keys.foldl Contents.touch c) =
        keys'.foldl Contents.touch c := by
  rcases List.prefix_or_prefix_of_prefix hkeys hnext with hle | hle
  · refine ⟨front ++ next, hle, List.prefix_rfl, hnext, ?_⟩
    obtain ⟨seen, rfl⟩ := hfront
    rw [List.prefix_append_right_inj] at hle
    obtain ⟨new, rfl⟩ := hle
    have hagain := c.foldl_touch_again (List.subset_append_right front seen)
    calc (seen ++ new).foldl Contents.touch
          ((front ++ seen).foldl Contents.touch c)
        = new.foldl Contents.touch (seen.foldl Contents.touch
            ((front ++ seen).foldl Contents.touch c)) := List.foldl_append
      _ = new.foldl Contents.touch
            ((front ++ seen).foldl Contents.touch c) := by rw [hagain]
      _ = (front ++ seen ++ new).foldl Contents.touch c :=
            List.foldl_append.symm
      _ = (front ++ (seen ++ new)).foldl Contents.touch c := by
            rw [List.append_assoc]
  · refine ⟨keys, List.prefix_rfl, hle, hkeys, ?_⟩
    exact c.foldl_touch_again fun k hk =>
      hle.subset (List.mem_append_right _ hk)

end

/-! ## One call -/

section

variable {δ : Type} {tx : BlockTx δ} {t : PlainTx δ} {call : DimensionCall}

/-- No other connection is in the way of the call. -/
def DimensionCall.alone : DimensionCall → Bool
  | .headerAddress _ _ race | .address _ _ race | .eventKind _ race => !race
  | .transactionState _ => true
  | .contract _ _ race => race.isNone

theorem PlainTx.view_upsertKey (key : Key) (t : PlainTx δ) :
    (t.upsertKey key false).view =
      if t.view.has key then t.view else t.view.add { key := key } := by
  unfold PlainTx.upsertKey
  split <;> rfl

theorem PlainTx.view_call (halone : call.alone = true) (t : PlainTx δ) :
    (t.call call).view = t.view.touch call.key := by
  cases call with
  | headerAddress chain a race =>
      cases race with
      | true => cases halone
      | false => exact t.view_upsertKey _
  | address chain a race =>
      cases race with
      | true => cases halone
      | false => exact t.view_upsertKey _
  | eventKind name race =>
      cases race with
      | true => cases halone
      | false => exact t.view_upsertKey _
  | transactionState name => exact t.view_upsertKey _
  | contract chain hash race =>
      cases race with
      | some pair => cases halone
      | none =>
          rw [PlainTx.call, PlainTx.upsertContract, DimensionCall.key,
            Contents.touch]
          split <;> rfl

theorem BlockTx.names_insert (tx : BlockTx δ) (c : DimensionContent) :
    ∀ x ∈ tx.view.names, x ∈ (tx.insert c).2.view.names :=
  Store.names_subset_add _

theorem BlockTx.names_upsertKey (tx : BlockTx δ) (key : Key) :
    ∀ x ∈ tx.view.names, x ∈ (tx.upsertKey key false).2.view.names := by
  intro x hx
  unfold BlockTx.upsertKey
  split
  · exact hx
  · exact tx.names_insert _ x hx

theorem BlockTx.names_fillContract (tx : BlockTx δ) (chain : Nat)
    (hash : String) :
    ∀ x ∈ tx.view.names, x ∈ (tx.fillContract chain hash).view.names :=
  fun x hx => Store.grows_fill.names x hx

theorem BlockTx.names_upsertContractId (tx : BlockTx δ) (chain : Nat)
    (hash : String) :
    ∀ x ∈ tx.view.names,
      x ∈ (tx.upsertContractId chain hash none).2.view.names := by
  intro x hx
  have hinsert : x ∈ (tx.insertContract chain hash none).2.view.names := by
    unfold BlockTx.insertContract
    split
    · exact tx.names_fillContract chain hash x hx
    · exact tx.names_insert _ x hx
    · next heq => cases heq
  unfold BlockTx.upsertContractId
  split
  · split
    · exact hx
    · exact hinsert
  · exact hinsert

theorem BlockTx.names_cachedId {upsert : BlockTx δ → Nat × BlockTx δ}
    {x : Key × Nat} (family : Family) (key : Key) (hx : x ∈ tx.view.names)
    (hupsert : x ∈ (upsert tx).2.view.names) :
    x ∈ (tx.cachedId family key upsert).2.view.names := by
  unfold BlockTx.cachedId
  split
  · exact hx
  · exact hupsert

/-- Calls keep the rows that are there, under their ids. -/
theorem BlockTx.names_call (tx : BlockTx δ) (halone : call.alone = true) :
    ∀ x ∈ tx.view.names, x ∈ (tx.call call).2.view.names := by
  intro x hx
  cases call with
  | headerAddress chain a race =>
      cases race with
      | true => cases halone
      | false => exact names_cachedId _ _ hx (tx.names_upsertKey _ x hx)
  | address chain a race =>
      cases race with
      | true => cases halone
      | false => exact names_cachedId _ _ hx (tx.names_upsertKey _ x hx)
  | eventKind name race =>
      cases race with
      | true => cases halone
      | false => exact names_cachedId _ _ hx (tx.names_upsertKey _ x hx)
  | transactionState name =>
      exact names_cachedId _ _ hx (tx.names_upsertKey _ x hx)
  | contract chain hash race =>
      cases race with
      | some pair => cases halone
      | none =>
          exact names_cachedId _ _ hx (tx.names_upsertContractId _ _ x hx)

/-- The id is that of the row under the key, where there is a key. -/
def RefKnown (s : Store δ) (key : Option Key) (id : Option Nat) : Prop :=
  Option.Rel (fun key id => (key, id) ∈ s.names) key id

theorem RefKnown.mono {s s' : Store δ} {key : Option Key} {id : Option Nat}
    (h : RefKnown s key id) (hnames : ∀ x ∈ s.names, x ∈ s'.names) :
    RefKnown s' key id := by
  cases h with
  | some h => exact .some (hnames _ h)
  | none => exact .none

end

end Explorer.Ref
