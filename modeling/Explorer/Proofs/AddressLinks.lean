import Explorer.Lib.Tables
import Explorer.Ref.AddressLinks
import Mathlib.Order.Bounds.Basic

/-!
# Address links against what they stand for

Dropping the unwanted links and inserting the missing ones leaves the wanted
pairs, whatever was there before. A link that is wanted and already there is
neither dropped nor inserted, and no statement writes its timestamp: it is
the timestamp of the projection that made the link. So the links are exact
just when every surviving link was already right.

A transaction's links and an address's first transaction depend on the listed
ids as a set, which is why the block and its transactions one by one, in any
order, come to the same.
-/

namespace Explorer.Ref

open Explorer.Lib

/-- The transaction names the address, itself or in one of its events. -/
def LinkDb.Names (db : LinkDb) (transactionId addressId : Nat) : Prop :=
  (∃ tx ∈ db.transactions, tx.id = transactionId ∧
    (tx.senderId = addressId ∨ tx.gasPayerId = addressId ∨
      tx.gasTargetId = addressId)) ∨
  ∃ e ∈ db.events, e.transactionId = transactionId ∧ e.addressId = addressId

/-- The timestamp of the transaction. -/
def LinkDb.TimeOf (db : LinkDb) (transactionId : Nat) (time : Int) : Prop :=
  ∃ tx ∈ db.transactions, tx.id = transactionId ∧
    tx.timestampUnixSeconds = time

/-- When the address was seen: before, or in a listed transaction that names
it. -/
def LinkDb.Seen (db : LinkDb) (transactionIds : List Nat)
    (address : LinkedAddress) : Set Int :=
  { time | address.firstTxUnixSeconds = some time ∨
    ∃ t ∈ transactionIds, db.Names t address.id ∧ db.TimeOf t time }

/-- The transactions one by one. -/
def replaceOneByOne (db : LinkDb) (order : List Nat) : LinkDb :=
  order.foldl
    (fun db t => (replaceAddressTransactionsForTransaction db t).1) db

/-- The links after the replacement are those the tables call for. -/
structure ExactLinks (db : LinkDb) (transactionIds : List Nat)
    (after : LinkDb) : Prop where
  listed : ∀ l : AddressLink, l.transactionId ∈ transactionIds →
    (l ∈ after.links ↔ db.Names l.transactionId l.addressId ∧
      db.TimeOf l.transactionId l.timestampUnixSeconds)
  others : ∀ l : AddressLink, l.transactionId ∉ transactionIds →
    (l ∈ after.links ↔ l ∈ db.links)
  first : List.Forall₂
    (fun address address' => address'.id = address.id ∧
      ∀ time, address'.firstTxUnixSeconds = some time ↔
        IsLeast (db.Seen transactionIds address) time)
    db.addresses after.addresses
  oneByOne : ∀ order : List Nat, order.Perm transactionIds →
    (∀ l, l ∈ (replaceOneByOne db order).links ↔ l ∈ after.links) ∧
      (replaceOneByOne db order).addresses = after.addresses

variable {db : LinkDb} {ids : List Nat}

/-! ## The links -/

theorem mem_candidateAddressLinks {t a : Nat} :
    (t, a) ∈ candidateAddressLinks db ids ↔ t ∈ ids ∧ db.Names t a := by
  simp only [candidateAddressLinks, List.mem_append, List.mem_map,
    List.mem_filter, List.contains_iff_mem, Prod.mk.injEq, LinkDb.Names]
  constructor
  · rintro (((h | h) | h) | h)
    · obtain ⟨tx, ⟨htx, hid⟩, rfl, rfl⟩ := h
      exact ⟨hid, .inl ⟨tx, htx, rfl, .inl rfl⟩⟩
    · obtain ⟨tx, ⟨htx, hid⟩, rfl, rfl⟩ := h
      exact ⟨hid, .inl ⟨tx, htx, rfl, .inr (.inl rfl)⟩⟩
    · obtain ⟨tx, ⟨htx, hid⟩, rfl, rfl⟩ := h
      exact ⟨hid, .inl ⟨tx, htx, rfl, .inr (.inr rfl)⟩⟩
    · obtain ⟨e, ⟨he, hid⟩, rfl, rfl⟩ := h
      exact ⟨hid, .inr ⟨e, he, rfl, rfl⟩⟩
  · rintro ⟨hid, ⟨tx, htx, rfl, rfl | rfl | rfl⟩ | ⟨e, he, rfl, rfl⟩⟩
    · exact .inl (.inl (.inl ⟨tx, ⟨htx, hid⟩, rfl, rfl⟩))
    · exact .inl (.inl (.inr ⟨tx, ⟨htx, hid⟩, rfl, rfl⟩))
    · exact .inl (.inr ⟨tx, ⟨htx, hid⟩, rfl, rfl⟩)
    · exact .inr ⟨e, ⟨he, hid⟩, rfl, rfl⟩

theorem mem_desiredLinks {key : Nat × Nat} :
    key ∈ desiredLinks db ids ↔ key.1 ∈ ids ∧ db.Names key.1 key.2 := by
  rw [desiredLinks, List.mem_dedup]
  exact mem_candidateAddressLinks

theorem mem_missingLinks {l : AddressLink} :
    l ∈ missingLinks db ids ↔
      (l.transactionId ∈ ids ∧ db.Names l.transactionId l.addressId) ∧
      db.linked l.key = false ∧
      db.TimeOf l.transactionId l.timestampUnixSeconds := by
  simp only [missingLinks, List.mem_filterMap, List.mem_filter,
    mem_desiredLinks, Bool.not_eq_true', Option.map_eq_some_iff,
    find?_key_eq_some db.transactionIds]
  constructor
  · rintro ⟨key, ⟨hwanted, hfree⟩, tx, ⟨htx, hid⟩, rfl⟩
    exact ⟨hwanted, hfree, tx, htx, hid, rfl⟩
  · rintro ⟨hwanted, hfree, tx, htx, hid, htime⟩
    refine ⟨l.key, ⟨hwanted, hfree⟩, tx, ⟨htx, hid⟩, ?_⟩
    rw [htime]
    rfl

theorem mem_deleteStaleLinks {l : AddressLink} :
    l ∈ (deleteStaleLinks db ids).links ↔ l ∈ db.links ∧
      (l.transactionId ∈ ids → db.Names l.transactionId l.addressId) := by
  have hdesired : l.key ∈ desiredLinks db ids ↔
      l.transactionId ∈ ids ∧ db.Names l.transactionId l.addressId :=
    mem_desiredLinks
  rw [deleteStaleLinks, List.mem_filter, Bool.not_eq_true',
    Bool.and_eq_false_iff, Bool.not_eq_false', List.contains_iff_mem,
    hdesired]
  by_cases hid : l.transactionId ∈ ids <;> simp [hid]

/-- The links of a replaced block: a wanted link that was there stays as it
is. -/
def LinkDb.Kept (db : LinkDb) (transactionIds : List Nat)
    (l : AddressLink) : Prop :=
  if l.transactionId ∈ transactionIds then
    db.Names l.transactionId l.addressId ∧
      (l ∈ db.links ∨ db.linked l.key = false ∧
        db.TimeOf l.transactionId l.timestampUnixSeconds)
  else l ∈ db.links

/-- Dropping links does not make a wanted pair free. -/
theorem linked_deleteStaleLinks {l : AddressLink}
    (hnames : db.Names l.transactionId l.addressId) :
    (deleteStaleLinks db ids).linked l.key = db.linked l.key := by
  rw [Bool.eq_iff_iff]
  simp only [LinkDb.linked, List.any_eq_true, mem_deleteStaleLinks,
    beq_iff_eq]
  constructor
  · rintro ⟨l', ⟨hl', -⟩, hkey⟩
    exact ⟨l', hl', hkey⟩
  · rintro ⟨l', hl', hkey⟩
    obtain ⟨ht, ha⟩ := Prod.mk.inj hkey
    refine ⟨l', ⟨hl', fun _ => ?_⟩, hkey⟩
    rw [ht, ha]
    exact hnames

theorem replace_nil :
    (replaceAddressTransactionsForBlock db []).1 = db := rfl

theorem replace_of_ne_nil (hids : ids ≠ []) :
    (replaceAddressTransactionsForBlock db ids).1 =
      lowerFirstTransactions
        (insertMissingLinks (deleteStaleLinks db ids) ids) ids := by
  cases ids with
  | nil => exact absurd rfl hids
  | cons t ts => rfl

theorem mem_replace {l : AddressLink} :
    l ∈ (replaceAddressTransactionsForBlock db ids).1.links ↔
      db.Kept ids l := by
  by_cases hids : ids = []
  · subst hids
    rw [replace_nil, LinkDb.Kept, if_neg List.not_mem_nil]
  have hmissing : l ∈ missingLinks (deleteStaleLinks db ids) ids ↔
      (l.transactionId ∈ ids ∧ db.Names l.transactionId l.addressId) ∧
      (deleteStaleLinks db ids).linked l.key = false ∧
      db.TimeOf l.transactionId l.timestampUnixSeconds := mem_missingLinks
  have hlinks : l ∈ (replaceAddressTransactionsForBlock db ids).1.links ↔
      l ∈ (deleteStaleLinks db ids).links ∨
        l ∈ missingLinks (deleteStaleLinks db ids) ids := by
    rw [replace_of_ne_nil hids]
    exact List.mem_append
  rw [hlinks, hmissing, mem_deleteStaleLinks, LinkDb.Kept]
  by_cases hid : l.transactionId ∈ ids
  · rw [if_pos hid]
    constructor
    · rintro (⟨hl, hnames⟩ | ⟨⟨-, hnames⟩, hfree, htime⟩)
      · exact ⟨hnames hid, .inl hl⟩
      · rw [linked_deleteStaleLinks hnames] at hfree
        exact ⟨hnames, .inr ⟨hfree, htime⟩⟩
    · rintro ⟨hnames, hl | ⟨hfree, htime⟩⟩
      · exact .inl ⟨hl, fun _ => hnames⟩
      · rw [← linked_deleteStaleLinks hnames] at hfree
        exact .inr ⟨⟨hid, hnames⟩, hfree, htime⟩
  · simp [hid]

/-! ## The first transactions -/

theorem mem_candidateTimestamps {a : Nat} {time : Int} :
    time ∈ candidateTimestamps db ids a ↔
      ∃ t ∈ ids, db.Names t a ∧ db.TimeOf t time := by
  simp only [candidateTimestamps, List.mem_map, List.mem_filter,
    List.mem_append, List.mem_filterMap, List.contains_iff_mem, beq_iff_eq,
    Option.map_eq_some_iff, find?_key_eq_some db.transactionIds]
  constructor
  · rintro ⟨c, ⟨((h | h) | h) | h, rfl⟩, rfl⟩
    · obtain ⟨tx, ⟨htx, hid⟩, rfl⟩ := h
      exact ⟨tx.id, hid, .inl ⟨tx, htx, rfl, .inl rfl⟩, tx, htx, rfl, rfl⟩
    · obtain ⟨tx, ⟨htx, hid⟩, rfl⟩ := h
      exact ⟨tx.id, hid, .inl ⟨tx, htx, rfl, .inr (.inl rfl)⟩,
        tx, htx, rfl, rfl⟩
    · obtain ⟨tx, ⟨htx, hid⟩, rfl⟩ := h
      exact ⟨tx.id, hid, .inl ⟨tx, htx, rfl, .inr (.inr rfl)⟩,
        tx, htx, rfl, rfl⟩
    · obtain ⟨e, ⟨he, hid⟩, tx, ⟨htx, htxid⟩, rfl⟩ := h
      exact ⟨e.transactionId, hid, .inr ⟨e, he, rfl, rfl⟩,
        tx, htx, htxid, rfl⟩
  · rintro ⟨t, hid, hnames, tx, htx, rfl, rfl⟩
    refine ⟨(a, tx.timestampUnixSeconds), ⟨?_, rfl⟩, rfl⟩
    rcases hnames with ⟨tx', htx', hid', haddress⟩ | ⟨e, he, heid, rfl⟩
    · have htx' := List.inj_on_of_nodup_map db.transactionIds htx' htx hid'
      subst htx'
      rcases haddress with rfl | rfl | rfl
      · exact .inl (.inl (.inl ⟨tx', ⟨htx, hid⟩, rfl⟩))
      · exact .inl (.inl (.inr ⟨tx', ⟨htx, hid⟩, rfl⟩))
      · exact .inl (.inr ⟨tx', ⟨htx, hid⟩, rfl⟩)
    · exact .inr ⟨e, ⟨he, heid ▸ hid⟩, tx, ⟨htx, heid.symm⟩, rfl⟩

/-- Lowering the first transaction of one address. -/
def LinkedAddress.lowered (address : LinkedAddress) (times : List Int) :
    LinkedAddress :=
  match times.min? with
  | none => address
  | some first =>
      if address.firstTxUnixSeconds.all fun t => decide (first < t) then
        { address with firstTxUnixSeconds := some first }
      else address

theorem lowered_id (address : LinkedAddress) (times : List Int) :
    (address.lowered times).id = address.id := by
  rw [LinkedAddress.lowered]
  split
  · rfl
  · split <;> rfl

theorem some_eq_iff_isLeast {S : Set Int} {first time : Int}
    (h : IsLeast S first) : some first = some time ↔ IsLeast S time := by
  constructor
  · intro heq
    cases heq
    exact h
  · intro htime
    rw [h.unique htime]

/-- The least of what was there and the new times. -/
theorem lowered_first {address : LinkedAddress} {times : List Int}
    {time : Int} :
    (address.lowered times).firstTxUnixSeconds = some time ↔
      IsLeast { v | address.firstTxUnixSeconds = some v ∨ v ∈ times }
        time := by
  rw [LinkedAddress.lowered]
  cases hmin : times.min? with
  | none =>
      rw [List.min?_eq_none_iff.mp hmin]
      constructor
      · intro htime
        refine ⟨.inl htime, ?_⟩
        rintro v (hv | hv)
        · rw [htime] at hv
          cases hv
          exact le_rfl
        · cases hv
      · rintro ⟨htime | htime, -⟩
        · exact htime
        · cases htime
  | some first =>
      obtain ⟨hmem, hleast⟩ := List.min?_eq_some_iff.mp hmin
      cases hbefore : address.firstTxUnixSeconds with
      | none =>
          refine some_eq_iff_isLeast ⟨.inr hmem, ?_⟩
          rintro v (hv | hv)
          · cases hv
          · exact hleast v hv
      | some before =>
          simp only [Option.all_some, decide_eq_true_eq]
          split
          · next hlt =>
              refine some_eq_iff_isLeast ⟨.inr hmem, ?_⟩
              rintro v (hv | hv)
              · cases hv
                exact hlt.le
              · exact hleast v hv
          · next hge =>
              rw [hbefore]
              refine some_eq_iff_isLeast ⟨.inl rfl, ?_⟩
              rintro v (hv | hv)
              · cases hv
                exact le_rfl
              · exact (not_lt.mp hge).trans (hleast v hv)

theorem lowered_none {address : LinkedAddress} {times : List Int}
    (h : (address.lowered times).firstTxUnixSeconds = none) :
    address.firstTxUnixSeconds = none ∧ times = [] := by
  rw [LinkedAddress.lowered] at h
  cases hmin : times.min? with
  | none =>
      rw [hmin] at h
      exact ⟨h, List.min?_eq_none_iff.mp hmin⟩
  | some first =>
      simp only [hmin] at h
      split at h
      · cases h
      · next hge =>
          rw [h] at hge
          exact absurd rfl hge

theorem LinkedAddress.ext_first {a b : LinkedAddress} (hid : a.id = b.id)
    (hfirst : ∀ time, a.firstTxUnixSeconds = some time ↔
      b.firstTxUnixSeconds = some time) : a = b := by
  cases a
  cases b
  cases hid
  exact congrArg _ (Option.ext hfirst)

/-- Lowering twice is lowering by all the times. -/
theorem lowered_lowered (address : LinkedAddress) {times times' all : List Int}
    (hall : ∀ v, v ∈ all ↔ v ∈ times ∨ v ∈ times') :
    (address.lowered times).lowered times' = address.lowered all := by
  refine LinkedAddress.ext_first ?_ fun time => ?_
  · rw [lowered_id, lowered_id, lowered_id]
  rw [lowered_first, lowered_first]
  cases hfirst : (address.lowered times).firstTxUnixSeconds with
  | none =>
      obtain ⟨hnone, rfl⟩ := lowered_none hfirst
      simp [hnone, hall]
  | some x =>
      obtain ⟨hx, hleast⟩ := lowered_first.mp hfirst
      constructor
      · rintro ⟨htime, hlow⟩
        constructor
        · rcases htime with heq | htime
          · cases heq
            exact hx.imp id fun h => (hall _).mpr (.inl h)
          · exact .inr ((hall time).mpr (.inr htime))
        · have hle : time ≤ x := hlow (.inl rfl)
          rintro v (hv | hv)
          · exact hle.trans (hleast (.inl hv))
          · rcases (hall v).mp hv with hv | hv
            · exact hle.trans (hleast (.inr hv))
            · exact hlow (.inr hv)
      · rintro ⟨htime, hlow⟩
        have hle : time ≤ x :=
          hlow (hx.imp id fun h => (hall x).mpr (.inl h))
        constructor
        · have hold : address.firstTxUnixSeconds = some time ∨
              time ∈ times ∨ time ∈ times' :=
            htime.imp id (hall time).mp
          rcases hold with h | h | h
          · exact .inl (congrArg some (le_antisymm (hleast (.inl h)) hle))
          · exact .inl (congrArg some (le_antisymm (hleast (.inr h)) hle))
          · exact .inr h
        · rintro v (hv | hv)
          · cases hv
            exact hle
          · exact hlow (.inr ((hall v).mpr (.inr hv)))

theorem replace_addresses :
    (replaceAddressTransactionsForBlock db ids).1.addresses =
      db.addresses.map fun address =>
        address.lowered (candidateTimestamps db ids address.id) := by
  by_cases hids : ids = []
  · subst hids
    rw [replace_nil]
    refine (List.map_id'' (fun address => ?_) _).symm
    simp [candidateTimestamps, LinkedAddress.lowered]
  · rw [replace_of_ne_nil hids]
    rfl

/-! ## One by one -/

/-- The replacement writes neither transactions nor events. -/
theorem replace_frame :
    (replaceAddressTransactionsForBlock db ids).1.transactions =
        db.transactions ∧
      (replaceAddressTransactionsForBlock db ids).1.events = db.events := by
  cases ids <;> exact ⟨rfl, rfl⟩

theorem names_replace {t a : Nat} :
    (replaceAddressTransactionsForBlock db ids).1.Names t a ↔
      db.Names t a := by
  rw [LinkDb.Names, LinkDb.Names, replace_frame.1, replace_frame.2]

theorem timeOf_replace {t : Nat} {time : Int} :
    (replaceAddressTransactionsForBlock db ids).1.TimeOf t time ↔
      db.TimeOf t time := by
  rw [LinkDb.TimeOf, LinkDb.TimeOf, replace_frame.1]

/-- A transaction that names an address is in the table. -/
theorem LinkDb.Names.timeOf {t a : Nat} (h : db.Names t a) :
    ∃ time, db.TimeOf t time := by
  rcases h with ⟨tx, htx, hid, -⟩ | ⟨e, he, rfl, -⟩
  · exact ⟨_, tx, htx, hid, rfl⟩
  · obtain ⟨tx, htx, hid⟩ := db.eventTransactions e he
    exact ⟨_, tx, htx, hid, rfl⟩

/-- A wanted pair of a listed transaction is linked afterwards. -/
theorem linked_replace {l : AddressLink} (hid : l.transactionId ∈ ids)
    (hnames : db.Names l.transactionId l.addressId) :
    (replaceAddressTransactionsForBlock db ids).1.linked l.key = true := by
  cases hlinked : db.linked l.key with
  | true =>
      obtain ⟨l', hl', hkey⟩ := List.any_eq_true.mp hlinked
      obtain ⟨ht, ha⟩ := Prod.mk.inj (eq_of_beq hkey)
      refine List.any_eq_true.mpr ⟨l', mem_replace.mpr ?_, hkey⟩
      rw [LinkDb.Kept, ht, ha, if_pos hid]
      exact ⟨hnames, .inl hl'⟩
  | false =>
      obtain ⟨time, htime⟩ := hnames.timeOf
      let l' : AddressLink := { l with timestampUnixSeconds := time }
      have hkept : db.Kept ids l' := by
        rw [LinkDb.Kept, if_pos hid]
        exact ⟨hnames, .inr ⟨hlinked, htime⟩⟩
      exact List.any_eq_true.mpr
        ⟨l', mem_replace.mpr hkept, beq_self_eq_true _⟩

/-- Other transactions' pairs are as free as before. -/
theorem linked_replace_other {l : AddressLink} (hid : l.transactionId ∉ ids) :
    (replaceAddressTransactionsForBlock db ids).1.linked l.key =
      db.linked l.key := by
  rw [Bool.eq_iff_iff]
  simp only [LinkDb.linked, List.any_eq_true, mem_replace, beq_iff_eq]
  refine exists_congr fun l' => and_congr_left fun hkey => ?_
  obtain ⟨ht, -⟩ := Prod.mk.inj hkey
  rw [LinkDb.Kept, ht, if_neg hid]

theorem kept_replace {first rest : List Nat} {l : AddressLink} :
    (replaceAddressTransactionsForBlock db first).1.Kept rest l ↔
      db.Kept (first ++ rest) l := by
  have hmem : l.transactionId ∈ first ++ rest ↔
      l.transactionId ∈ first ∨ l.transactionId ∈ rest := List.mem_append
  rw [LinkDb.Kept, mem_replace, names_replace, timeOf_replace]
  by_cases hfirst : l.transactionId ∈ first
  · rw [LinkDb.Kept, LinkDb.Kept, if_pos hfirst,
      if_pos (hmem.mpr (.inl hfirst))]
    by_cases hrest : l.transactionId ∈ rest
    · rw [if_pos hrest]
      constructor
      · rintro ⟨hnames, ⟨-, hl⟩ | ⟨hfree, -⟩⟩
        · exact ⟨hnames, hl⟩
        · rw [linked_replace hfirst hnames] at hfree
          cases hfree
      · intro h
        exact ⟨h.1, .inl h⟩
    · rw [if_neg hrest]
  · rw [linked_replace_other hfirst, LinkDb.Kept, LinkDb.Kept,
      if_neg hfirst]
    simp only [hmem, hfirst, false_or]

theorem mem_replaceOneByOne {order : List Nat} {l : AddressLink} :
    l ∈ (replaceOneByOne db order).links ↔ db.Kept order l := by
  induction order generalizing db with
  | nil =>
      rw [LinkDb.Kept, if_neg List.not_mem_nil]
      rfl
  | cons t rest ih => exact ih.trans kept_replace

theorem replaceOneByOne_addresses {order : List Nat} :
    (replaceOneByOne db order).addresses =
      db.addresses.map fun address =>
        address.lowered (candidateTimestamps db order address.id) := by
  induction order generalizing db with
  | nil =>
      refine (List.map_id'' (fun address => ?_) _).symm
      simp [candidateTimestamps, LinkedAddress.lowered]
  | cons t rest ih =>
      have hstep : (replaceAddressTransactionsForBlock db [t]).1.addresses =
          _ := replace_addresses
      refine ih.trans ?_
      simp only [replaceAddressTransactionsForTransaction, hstep,
        List.map_map]
      refine List.map_congr_left fun address _ => ?_
      refine lowered_lowered address fun time => ?_
      simp only [mem_candidateTimestamps, names_replace, timeOf_replace,
        lowered_id, List.mem_cons, List.not_mem_nil, or_false,
        exists_eq_or_imp, exists_eq_left]

/-- The listed transactions as a set decide the times of an address. -/
theorem replaceOneByOne_perm {order : List Nat} (h : order.Perm ids) :
    (replaceOneByOne db order).addresses =
      (replaceAddressTransactionsForBlock db ids).1.addresses := by
  rw [replaceOneByOne_addresses, replace_addresses]
  refine List.map_congr_left fun address _ => ?_
  refine LinkedAddress.ext_first ?_ fun time => ?_
  · rw [lowered_id, lowered_id]
  · simp only [lowered_first, mem_candidateTimestamps, h.mem_iff]

theorem LinkDb.TimeOf.unique {t : Nat} {time time' : Int}
    (h : db.TimeOf t time) (h' : db.TimeOf t time') : time = time' := by
  obtain ⟨tx, htx, rfl, rfl⟩ := h
  obtain ⟨tx', htx', hid, rfl⟩ := h'
  rw [List.inj_on_of_nodup_map db.transactionIds htx' htx hid]

theorem AddressLink.ext_key {l l' : AddressLink}
    (ht : l.transactionId = l'.transactionId)
    (ha : l.addressId = l'.addressId)
    (htime : l.timestampUnixSeconds = l'.timestampUnixSeconds) : l = l' := by
  cases l
  cases l'
  cases ht
  cases ha
  cases htime
  rfl

theorem kept_perm {order : List Nat} (h : order.Perm ids) {l : AddressLink} :
    db.Kept order l ↔ db.Kept ids l := by
  simp only [LinkDb.Kept, h.mem_iff]

/-- The links come out exact if and only if every link that survives carried
the timestamp its transaction has now. -/
theorem address_links_exact_iff (db : LinkDb) (transactionIds : List Nat) :
    ExactLinks db transactionIds
        (replaceAddressTransactionsForBlock db transactionIds).1 ↔
      ∀ l ∈ db.links, l.transactionId ∈ transactionIds →
        db.Names l.transactionId l.addressId →
        db.TimeOf l.transactionId l.timestampUnixSeconds := by
  constructor
  · intro h l hl hid hnames
    have hafter : db.Kept transactionIds l := by
      rw [LinkDb.Kept, if_pos hid]
      exact ⟨hnames, .inl hl⟩
    exact ((h.listed l hid).mp (mem_replace.mpr hafter)).2
  · intro hcurrent
    refine ⟨fun l hid => ?_, fun l hid => ?_, ?_, fun order horder => ?_⟩
    · rw [mem_replace, LinkDb.Kept, if_pos hid]
      refine and_congr_right fun hnames => ?_
      constructor
      · rintro (hl | ⟨-, htime⟩)
        · exact hcurrent l hl hid hnames
        · exact htime
      · intro htime
        cases hlinked : db.linked l.key with
        | false => exact .inr ⟨rfl, htime⟩
        | true =>
            -- the link that holds the pair has the same timestamp
            obtain ⟨l', hl', hkey⟩ := List.any_eq_true.mp hlinked
            obtain ⟨ht, ha⟩ := Prod.mk.inj (eq_of_beq hkey)
            have htime' := hcurrent l' hl' (ht ▸ hid) (by rwa [ht, ha])
            rw [ht] at htime'
            rw [AddressLink.ext_key ht ha (htime'.unique htime)] at hl'
            exact .inl hl'
    · rw [mem_replace, LinkDb.Kept, if_neg hid]
    · rw [replace_addresses, List.forall₂_map_right_iff]
      refine List.forall₂_same.mpr fun address _ => ?_
      refine ⟨lowered_id _ _, fun time => ?_⟩
      simp only [lowered_first, mem_candidateTimestamps]
      rfl
    · refine ⟨fun l => ?_, replaceOneByOne_perm horder⟩
      rw [mem_replaceOneByOne, mem_replace, kept_perm horder]

/-- One transaction at second 20, with a link from when it stood at second
10. -/
def movedTransaction : LinkDb where
  transactions := [⟨1, 20, 5, 5, 5⟩]
  events := []
  links := [⟨5, 1, 10⟩]
  addresses := [⟨5, some 10⟩]
  transactionIds := by decide
  linkKeys := by decide
  eventTransactions := by decide

theorem address_link_keeps_old_timestamp :
    ¬ExactLinks movedTransaction [1]
      (replaceAddressTransactionsForBlock movedTransaction [1]).1 := by
  intro h
  have hlink : ⟨5, 1, 10⟩ ∈
      (replaceAddressTransactionsForBlock movedTransaction [1]).1.links := by
    decide
  obtain ⟨-, tx, htx, -, htime⟩ :=
    (h.listed ⟨5, 1, 10⟩ (by decide)).mp hlink
  rw [List.mem_singleton.mp htx] at htime
  exact absurd htime (by decide)

end Explorer.Ref
