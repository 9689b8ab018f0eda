import Explorer.Ref.AddressLookup
import Explorer.Proofs.Pagination

/-!
# The transactions of an address on several chains

The lookup gives one row for a text, and the lists page over the links of that
row; a filter by chain narrows them, and does not move to the row of the chain.
So the activity of the other rows of an address is in no list.
`listsActivity_iff` says when nothing is lost: every row the lookup may give
has all the links of the rows with that address, and each of its transactions
is also linked by the row of its own chain. With links that stay in one chain,
which is how the projection writes them, that is an address of one row or one
without activity (`unsplit_iff_alone`).
-/

namespace Explorer.Ref

open Explorer.Lib

variable (ilike : String → String → Bool)

namespace AddressDb

/-- `address_transactions` joins the row and the transaction. -/
def Linked (db : AddressDb) (row : ListedAddress) (tx : ListedTransaction) :
    Prop :=
  tx ∈ db.list.transactions ∧ ∃ link ∈ db.list.addressTransactions,
    link.addressId = row.id ∧ link.transactionId = tx.id

/-- The row has this address. -/
def Named (db : AddressDb) (text : String) (row : ListedAddress) : Prop :=
  row ∈ db.addresses ∧ row.address = some text

/-- The transactions the list of an address is about: without a chain those of
every row of the address, with a chain those of the row of the chain. -/
def Activity (db : AddressDb) (text : String) (filter : TransactionFilter)
    (tx : ListedTransaction) : Prop :=
  filter.selects ilike tx = true ∧ ∃ row, db.Named text row ∧
    (∀ chain, filter.chainId = some chain → row.chainId = chain) ∧
    db.Linked row tx

/-- Following the cursors to the end visits the activity of the address, no
more and no less, in whichever order the lookup reads the table. -/
def ListsActivity (db : AddressDb) (text : String) : Prop :=
  ∀ rows, rows.Perm db.addresses → ∀ filter orderBy direction ss pages,
    (∀ s ∈ ss, s.db = db.list) →
    Walk (fun s : PageRequest => loadTransactions ilike
      (addressQuery rows text filter orderBy direction) s.db s.limit)
      none ss pages true →
    ∀ tx, (∃ r ∈ pages.flatten, r.row = tx) ↔ db.Activity ilike text filter tx

/-- The lookup gives this row in some order of the table. -/
def MayResolve (db : AddressDb) (text : String) (row : ListedAddress) : Prop :=
  row ∈ db.addresses ∧ row.carries text = true ∧
    ∀ row' ∈ db.addresses, row'.carries text = true →
      row.rank text ≤ row'.rank text

/-- The activity of the address is not split over its rows. -/
structure Unsplit (db : AddressDb) (text : String) : Prop where
  shared : ∀ row, db.MayResolve text row → ∀ row', db.Named text row' →
    ∀ tx, db.Linked row' tx → db.Linked row tx
  home : ∀ row, db.MayResolve text row → ∀ tx, db.Linked row tx →
    ∃ row', db.Named text row' ∧ row'.chainId = tx.chainId ∧
      db.Linked row' tx

end AddressDb

/-! ## The lookup -/

theorem firstRow_eq_none {text : String} {rows : List ListedAddress}
    (h : firstRow text rows = none) : rows = [] := by
  cases rows with
  | nil => rfl
  | cons row rest =>
      rw [firstRow] at h
      split at h
      · cases h
      · split at h <;> cases h

theorem firstRow_least {text : String} {row : ListedAddress} :
    ∀ {rows : List ListedAddress}, firstRow text rows = some row →
      row ∈ rows ∧ ∀ row' ∈ rows, row.rank text ≤ row'.rank text := by
  intro rows
  induction rows generalizing row with
  | nil =>
      intro h
      cases h
  | cons first rest ih =>
      intro h
      rw [firstRow] at h
      split at h
      · rename_i hnone
        obtain rfl := firstRow_eq_none hnone
        obtain rfl : first = row := by simpa using h
        simp
      · rename_i best hbest
        obtain ⟨hmem, hleast⟩ := ih hbest
        split at h
        · rename_i hle
          obtain rfl : first = row := by simpa using h
          refine ⟨by simp, ?_⟩
          intro row' hrow'
          obtain rfl | hrow' := List.mem_cons.1 hrow'
          · exact le_refl _
          · exact hle.trans (hleast row' hrow')
        · rename_i hlt
          obtain rfl : best = row := by simpa using h
          refine ⟨by simp [hmem], ?_⟩
          intro row' hrow'
          obtain rfl | hrow' := List.mem_cons.1 hrow'
          · omega
          · exact hleast row' hrow'

/-- A row that ranks least is taken where it is read first. -/
theorem firstRow_cons {text : String} {row : ListedAddress}
    {rest : List ListedAddress}
    (h : ∀ row' ∈ rest, row.rank text ≤ row'.rank text) :
    firstRow text (row :: rest) = some row := by
  rw [firstRow]
  split
  · rfl
  · rename_i best hbest
    rw [if_pos (h best (firstRow_least hbest).1)]

section Lookup

variable {db : AddressDb} {text : String}

theorem lookup_none {rows : List ListedAddress} (hrows : rows.Perm db.addresses)
    (h : addressIdByAddress rows text = none) :
    ∀ row ∈ db.addresses, row.carries text = false := by
  intro row hrow
  have hnil := firstRow_eq_none (Option.map_eq_none_iff.1 h)
  rw [List.filter_eq_nil_iff] at hnil
  simpa using hnil row (hrows.mem_iff.2 hrow)

theorem lookup_some {rows : List ListedAddress} (hrows : rows.Perm db.addresses)
    {id : Int32} (h : addressIdByAddress rows text = some id) :
    ∃ row, db.MayResolve text row ∧ row.id = id := by
  obtain ⟨row, hfirst, hid⟩ := Option.map_eq_some_iff.1 h
  obtain ⟨hmem, hleast⟩ := firstRow_least hfirst
  obtain ⟨hmem, hcarries⟩ := List.mem_filter.1 hmem
  refine ⟨row, ⟨hrows.mem_iff.1 hmem, hcarries, ?_⟩, hid⟩
  intro row' hrow' hcarries'
  exact hleast row' (List.mem_filter.2 ⟨hrows.mem_iff.2 hrow', hcarries'⟩)

theorem AddressDb.MayResolve.lookup {row : ListedAddress}
    (h : db.MayResolve text row) :
    ∃ rows, rows.Perm db.addresses ∧
      addressIdByAddress rows text = some row.id := by
  obtain ⟨hmem, hcarries, hleast⟩ := h
  refine ⟨row :: db.addresses.erase row, (List.perm_cons_erase hmem).symm, ?_⟩
  rw [addressIdByAddress, List.filter_cons_of_pos hcarries, firstRow_cons]
  · rfl
  · intro row' hrow'
    obtain ⟨hrow', hcarries'⟩ := List.mem_filter.1 hrow'
    exact hleast row' (List.mem_of_mem_erase hrow') hcarries'

theorem AddressDb.Named.carries {row : ListedAddress} (h : db.Named text row) :
    row.carries text = true := by
  simp [ListedAddress.carries, h.2]

end Lookup

/-! ## What a walk visits -/

/-- Over a fixed database a finished walk visits the matching rows. -/
theorem mem_pages_iff {query : TransactionQuery} {db : ListDb}
    {ss : List PageRequest} {pages : List (List (PageRow ListedTransaction))}
    (hdb : ∀ s ∈ ss, s.db = db)
    (hwalk : Walk (fun s : PageRequest =>
      loadTransactions ilike query s.db s.limit) none ss pages true)
    (r : PageRow ListedTransaction) :
    r ∈ pages.flatten ↔ r ∈ query.matching ilike db := by
  have hpages : Paginates (fun s => loadTransactions ilike query s.db s.limit)
      query.direction (query.matching ilike) :=
    paginates (answersPages (query.list_eq ilike)) (query.nodup_matching ilike)
      (query.matching_grows ilike)
  constructor
  · intro hr
    obtain ⟨s, hs, hmatch⟩ := hpages.sound hwalk r hr
    rwa [hdb s hs] at hmatch
  · have hne : ss ≠ [] := by
      rintro rfl
      cases hwalk
    exact (hpages.last hwalk hne hdb).1 rfl r

theorem exists_walk (query : TransactionQuery) (db : ListDb) :
    ∃ ss pages, (∀ s ∈ ss, s.db = db) ∧ Walk (fun s : PageRequest =>
      loadTransactions ilike query s.db s.limit) none ss pages true := by
  have hpages : Paginates (fun s => loadTransactions ilike query s.db s.limit)
      query.direction (query.matching ilike) :=
    paginates (answersPages (query.list_eq ilike)) (query.nodup_matching ilike)
      (query.matching_grows ilike)
  obtain ⟨n, pages, hwalk⟩ := hpages.ends db fun _ => none
  refine ⟨_, pages, ?_, hwalk⟩
  intro s hs
  obtain ⟨i, -, rfl⟩ := List.mem_map.1 hs
  rfl

/-- The transactions of the list of an address. -/
theorem exists_matching_iff {db : AddressDb} {row : ListedAddress}
    {query : TransactionQuery} (hquery : query.address = some (some row.id))
    (tx : ListedTransaction) :
    (∃ r ∈ query.matching ilike db.list, r.row = tx) ↔
      query.filter.selects ilike tx = true ∧ db.Linked row tx := by
  rw [TransactionQuery.matching, hquery]
  simp only [List.mem_filterMap, List.mem_filter, beq_iff_eq]
  constructor
  · rintro ⟨r, ⟨link, ⟨hlink, hid⟩, hrow⟩, rfl⟩
    obtain ⟨tx, htx, hselects, rfl⟩ := TransactionQuery.linkRow_some ilike hrow
    obtain ⟨hmem, htxid⟩ := ListDb.transaction_eq_some.1 htx
    exact ⟨hselects, hmem, link, hlink, hid, htxid.symm⟩
  · rintro ⟨hselects, hmem, link, hlink, hid, htxid⟩
    have htx := ListDb.transaction_eq_some.2 ⟨hmem, htxid.symm⟩
    refine ⟨⟨tx, query.orderBy.addressColumn link tx, link.transactionId⟩,
      ⟨link, ⟨hlink, hid⟩, ?_⟩, rfl⟩
    rw [TransactionQuery.linkRow, htx, Option.filter_some, if_pos hselects,
      Option.map_some]

/-! ## When nothing is lost -/

section

variable {db : AddressDb} {text : String}

/-- A filter that selects by chain only, or not at all. -/
def chainFilter (chainId : Option Int32) : TransactionFilter where
  hash := none
  blockHeight := none
  blockHash := none
  chainId := chainId
  stateId := none
  q := none
  dateGreater := none
  dateLess := none

theorem chainFilter_selects {chainId : Option Int32} {tx : ListedTransaction} :
    (chainFilter chainId).selects ilike tx = true ↔
      ∀ chain, chainId = some chain → tx.chainId = chain := by
  cases chainId <;>
    simp [chainFilter, TransactionFilter.selects, transactionQForms]

/-- A filter by chain is one of the filters. -/
theorem chainId_of_selects {filter : TransactionFilter}
    {tx : ListedTransaction} (h : filter.selects ilike tx = true)
    {chain : Int32} (hchain : filter.chainId = some chain) :
    tx.chainId = chain := by
  simp only [TransactionFilter.selects, Bool.and_eq_true, hchain,
    Option.all_some, beq_iff_eq] at h
  exact h.1.1.1.1.1.1.1

/-- The list that starts from a row shows what that row links. -/
theorem AddressDb.ListsActivity.of_mayResolve
    (h : db.ListsActivity ilike text) {row : ListedAddress}
    (hrow : db.MayResolve text row) (chainId : Option Int32)
    (tx : ListedTransaction) :
    ((chainFilter chainId).selects ilike tx = true ∧ db.Linked row tx) ↔
      db.Activity ilike text (chainFilter chainId) tx := by
  obtain ⟨rows, hperm, hid⟩ := hrow.lookup
  let query := addressQuery rows text (chainFilter chainId) .date .asc
  obtain ⟨ss, pages, hdb, hwalk⟩ := exists_walk ilike query db.list
  have hquery : query.address = some (some row.id) := by
    rw [← hid]
    rfl
  rw [← h rows hperm _ _ _ ss pages hdb hwalk tx]
  simp only [mem_pages_iff ilike hdb hwalk]
  exact (exists_matching_iff ilike hquery tx).symm

theorem AddressDb.Unsplit.listsActivity (h : db.Unsplit text) :
    db.ListsActivity ilike text := by
  intro rows hperm filter orderBy direction ss pages hdb hwalk tx
  simp only [mem_pages_iff ilike hdb hwalk]
  cases hid : addressIdByAddress rows text with
  | none =>
      have hnone := lookup_none hperm hid
      simp only [TransactionQuery.matching, addressQuery, hid, List.not_mem_nil,
        false_and, exists_false, false_iff]
      rintro ⟨-, row, hnamed, -⟩
      have := hnone row hnamed.1
      rw [hnamed.carries] at this
      cases this
  | some id =>
      obtain ⟨row, hrow, rfl⟩ := lookup_some hperm hid
      have hquery : (addressQuery rows text filter orderBy direction).address =
          some (some row.id) := by
        rw [← hid]
        rfl
      rw [exists_matching_iff ilike hquery tx]
      constructor
      · rintro ⟨hselects, hlinked⟩
        obtain ⟨row', hnamed, hchain, hlinked'⟩ := h.home row hrow tx hlinked
        refine ⟨hselects, row', hnamed, ?_, hlinked'⟩
        intro chain hfilter
        rw [hchain]
        exact chainId_of_selects ilike hselects hfilter
      · rintro ⟨hselects, row', hnamed, -, hlinked'⟩
        exact ⟨hselects, h.shared row hrow row' hnamed tx hlinked'⟩

/-- The lists of an address show its activity exactly when it is not split. -/
theorem listsActivity_iff (db : AddressDb) (text : String) :
    db.ListsActivity ilike text ↔ db.Unsplit text := by
  refine ⟨fun h => ⟨?_, ?_⟩, fun h => h.listsActivity ilike⟩
  · intro row hrow row' hnamed tx hlinked
    refine ((h.of_mayResolve ilike hrow none tx).2 ?_).2
    exact ⟨(chainFilter_selects ilike).2 (fun _ hc => by cases hc), row',
      hnamed, (fun _ hc => by cases hc), hlinked⟩
  · intro row hrow tx hlinked
    have hselects : (chainFilter (some tx.chainId)).selects ilike tx = true :=
      (chainFilter_selects ilike).2 fun _ hc => Option.some.inj hc
    obtain ⟨-, row', hnamed, hchain, hlinked'⟩ :=
      (h.of_mayResolve ilike hrow (some tx.chainId) tx).1 ⟨hselects, hlinked⟩
    exact ⟨row', hnamed, hchain _ rfl, hlinked'⟩

/-- Where links stay in a chain and the text is the address of some row and
not the name of a row without one, the activity is not split exactly when the
text has one row, or no activity. -/
theorem unsplit_iff_alone
    (hchains : ∀ row ∈ db.addresses, ∀ tx, db.Linked row tx →
      row.chainId = tx.chainId)
    (hnull : ∀ row ∈ db.addresses, row.carries text = true →
      row.address ≠ none)
    (hstored : ∃ row, db.Named text row) :
    db.Unsplit text ↔
      (∀ row row', db.Named text row → db.Named text row' → row = row') ∨
        ∀ row tx, db.Named text row → ¬ db.Linked row tx := by
  -- An exact match ranks before the names, so the lookup gives a named row.
  have hresolve : ∀ row, db.MayResolve text row ↔ db.Named text row := by
    intro row
    constructor
    · rintro ⟨hmem, hcarries, hleast⟩
      refine ⟨hmem, ?_⟩
      obtain ⟨stored, hstored⟩ := hstored
      have hle := hleast stored hstored.1 hstored.carries
      have hone : stored.rank text = 1 := by
        simp [ListedAddress.rank, hstored.2]
      rw [hone] at hle
      cases haddress : row.address with
      | none => exact absurd haddress (hnull row hmem hcarries)
      | some address =>
          simp only [ListedAddress.rank, haddress] at hle
          split at hle
          · rename_i heq
            rw [heq]
          · omega
    · intro hnamed
      refine ⟨hnamed.1, hnamed.carries, ?_⟩
      intro row' hrow' hcarries'
      simp only [ListedAddress.rank, hnamed.2, if_true]
      cases haddress : row'.address with
      | none => exact absurd haddress (hnull row' hrow' hcarries')
      | some address =>
          simp only
          split <;> omega
  constructor
  · intro h
    by_cases hidle : ∀ row tx, db.Named text row → ¬ db.Linked row tx
    · exact .inr hidle
    · left
      simp only [not_forall, not_not] at hidle
      obtain ⟨active, tx, hactive, hlinked⟩ := hidle
      -- every row of the address links this transaction, so is of its chain
      have hone : ∀ row, db.Named text row → row = active := by
        intro row hnamed
        have hrow := h.shared row ((hresolve row).2 hnamed) active hactive tx
          hlinked
        refine db.addressKeys row hnamed.1 active hactive.1 ?_ ?_ ?_
        · rw [hnamed.2]
          exact Option.some_ne_none _
        · rw [hchains row hnamed.1 tx hrow,
            hchains active hactive.1 tx hlinked]
        · rw [hnamed.2, hactive.2]
      intro row row' hnamed hnamed'
      rw [hone row hnamed, hone row' hnamed']
  · intro h
    refine ⟨?_, ?_⟩
    · intro row hrow row' hnamed tx hlinked
      obtain hone | hidle := h
      · rwa [hone row row' ((hresolve row).1 hrow) hnamed]
      · exact absurd hlinked (hidle row' tx hnamed)
    · intro row hrow tx hlinked
      exact ⟨row, (hresolve row).1 hrow, hchains row hrow.1 tx hlinked, hlinked⟩

end

/-! ## An address on two chains -/

def twoChainTransactions : List ListedTransaction :=
  [⟨1, none, 10, 1, 5, none, 1⟩, ⟨2, none, 20, 1, 6, none, 2⟩]

/-- The address is on two chains, with a transaction on each. -/
def twoChains : AddressDb where
  list :=
    { transactions := twoChainTransactions
      addressTransactions := [⟨1, 1, 10⟩, ⟨2, 2, 20⟩]
      events := []
      transactionIds := by decide
      addressTransactionKeys := by decide
      eventIds := by decide
      linked := by decide }
  addresses := [⟨1, 1, some "P2K", none⟩, ⟨2, 2, some "P2K", none⟩]
  addressIds := by decide
  addressKeys := by decide
  linkedAddresses := by decide

/-- The list without a chain misses the transaction of the second chain, and
the list of the second chain is empty. -/
theorem twoChains_loses_activity :
    ¬ twoChains.ListsActivity (fun _ _ => false) "P2K" ∧
      loadTransactions (fun _ _ => false)
        (addressQuery twoChains.addresses "P2K" (chainFilter (some 2)) .date .asc)
        twoChains.list none none = .ok ([], none) := by
  refine ⟨fun h => ?_, by decide⟩
  have hwalk : Walk (fun s : PageRequest => loadTransactions (fun _ _ => false)
      (addressQuery twoChains.addresses "P2K" (chainFilter none) .date .asc)
      s.db s.limit) none [⟨twoChains.list, none⟩]
      [[⟨⟨1, none, 10, 1, 5, none, 1⟩, 10, 1⟩]] true := .last (by decide)
  obtain ⟨r, hr, hrow⟩ := (h twoChains.addresses (.refl _) (chainFilter none)
    .date .asc _ _ (by simp) hwalk ⟨2, none, 20, 1, 6, none, 2⟩).2
    ⟨by decide, ⟨2, 2, some "P2K", none⟩, ⟨by decide, rfl⟩,
      (fun _ hchain => by cases hchain), by decide, ⟨2, 2, 20⟩, by decide, rfl,
      rfl⟩
  simp only [List.flatten_cons, List.flatten_nil, List.append_nil,
    List.mem_singleton] at hr
  subst hr
  exact absurd hrow (by decide)

end Explorer.Ref
