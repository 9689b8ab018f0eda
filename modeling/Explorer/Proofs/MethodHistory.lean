import Explorer.Lib.Steps
import Explorer.Ref.ContractMethods

/-!
# The history of contract methods is as long as the contracts are old

Snapshots are never removed, and the list reaches one only from the contract
that points at it: it shows every snapshot exactly when each contract with
snapshots points at its only one. A metadata call brings a snapshot to a
contract that points at none, so it keeps that; an upgrade keeps it when it
finds its snapshot, or brings the first one of a contract of its chain. Any
other upgrade leaves a snapshot behind that nobody lists.
-/

namespace Explorer.Ref

open Explorer.Lib

/-! ## The tables -/

/-- The keys of the tables, and that a contract points at a snapshot of its
own. -/
structure ContractDb.Ok (db : ContractDb) : Prop where
  contractIds : (db.contracts.map Stored.id).Nodup
  methodIds : (db.contractMethods.rows.map Stored.id).Nodup
  drawn : ∀ m ∈ db.contractMethods.rows, m.id < db.contractMethods.next
  owned : ∀ m ∈ db.contractMethods.rows,
    ∃ c ∈ db.contracts, c.id = m.cells.contractId
  own : ∀ c ∈ db.contracts, ∀ id, c.cells.contractMethodId = some id →
    ∃ m ∈ db.contractMethods.rows, m.id = id ∧ m.cells.contractId = c.id

/-- The snapshots of the contracts of a chain. -/
def ContractDb.snapshots (db : ContractDb) (chainId : Int) :
    List MethodOfContract :=
  db.contractMethods.rows.flatMap fun method =>
    (db.contracts.filter fun contract =>
      ofContract method.cells.contractId chainId contract).map fun contract =>
        ⟨method, contract⟩

/-- Without filters the list has every snapshot of the chain once, in whatever
order and page size it is read to the end, and the count counts them. -/
structure ListsSnapshots (textLe : String → String → Bool) (db : ContractDb)
    (chainId : Int) : Prop where
  listed : ∀ orderBy direction limit k, 0 < limit →
    listContractMethodHistories textLe db { chainId } orderBy direction limit
      (k * limit) = [] →
    ((List.range k).flatMap fun i => listContractMethodHistories textLe db
      { chainId } orderBy direction limit (i * limit)).Perm
        ((db.snapshots chainId).map db.historyRow)
  counted : countContractMethodHistories db { chainId } =
    (db.snapshots chainId).length

/-- The snapshots there were are still there, and listed. -/
structure KeepsHistory (textLe : String → String → Bool)
    (older newer : ContractDb) (chainId : Int) : Prop where
  kept : (older.snapshots chainId).map MethodOfContract.method <+:
    (newer.snapshots chainId).map MethodOfContract.method
  lists : ListsSnapshots textLe newer chainId

/-- Every snapshot of the chain is its contract's current one. -/
def ContractDb.AllCurrent (db : ContractDb) (chainId : Int) : Prop :=
  ∀ m ∈ db.contractMethods.rows, ∀ c ∈ db.contracts,
    c.id = m.cells.contractId → c.cells.chainId = chainId →
      c.cells.contractMethodId = some m.id

/-- An upgrade of a contract of the chain finds its snapshot, or brings the
contract's first one in the contract's chain. -/
def CallKeeps (chainId : Int) (db : ContractDb) : ContractMethodCall → Prop
  | .rpcMetadata _ _ => True
  | .upgradeMethod callChain upsert =>
      ∀ c ∈ db.contracts, c.id = upsert.contractId →
        c.cells.chainId = chainId →
        (∃ m ∈ db.contractMethods.rows,
          m.cells.contractId = upsert.contractId ∧
          m.cells.timestampUnixSeconds = upsert.timestampUnixSeconds) ∨
        (callChain = chainId ∧ ∀ m ∈ db.contractMethods.rows,
          m.cells.contractId ≠ upsert.contractId)

def ContractMethodCall.chainId : ContractMethodCall → Int
  | .rpcMetadata chainId _ => chainId
  | .upgradeMethod chainId _ => chainId

def ContractMethodCall.contractId : ContractMethodCall → Int
  | .rpcMetadata _ upsert => upsert.contractId
  | .upgradeMethod _ upsert => upsert.contractId

section

variable {db db' : ContractDb} {chainId : Int}

theorem ofContract_iff {contractId : Int} {c : Stored ContractCells} :
    ofContract contractId chainId c = true ↔
      c.id = contractId ∧ c.cells.chainId = chainId := by
  rw [ofContract, Bool.and_eq_true, beq_iff_eq, beq_iff_eq]

theorem mem_snapshots {row : MethodOfContract} :
    row ∈ db.snapshots chainId ↔ row.method ∈ db.contractMethods.rows ∧
      row.contract ∈ db.contracts ∧
      row.contract.id = row.method.cells.contractId ∧
      row.contract.cells.chainId = chainId := by
  simp only [ContractDb.snapshots, List.mem_flatMap, List.mem_map,
    List.mem_filter, ofContract_iff]
  constructor
  · rintro ⟨m, hm, c, ⟨hc, hof⟩, rfl⟩
    exact ⟨hm, hc, hof⟩
  · rintro ⟨hm, hc, hof⟩
    exact ⟨row.method, hm, row.contract, ⟨hc, hof⟩, rfl⟩

/-! ## What the reader reaches -/

/-- The list reads the snapshots that are current. -/
theorem ContractDb.Ok.currentMethods (h : db.Ok) :
    (db.currentMethods.filter
        (ContractMethodHistoryFilter.selects { chainId })) =
      (db.snapshots chainId).filter fun row =>
        row.contract.cells.contractMethodId == some row.method.id := by
  rw [ContractDb.currentMethods, ContractDb.snapshots, List.filter_flatMap,
    List.filter_flatMap]
  refine List.flatMap_congr fun m hm => ?_
  rw [List.filter_map, List.filter_map, List.filter_filter,
    List.filter_filter]
  refine congrArg _ (List.filter_congr fun c hc => ?_)
  have hselects : ContractMethodHistoryFilter.selects { chainId } ⟨m, c⟩ =
      (c.cells.chainId == chainId) := by
    simp [ContractMethodHistoryFilter.selects]
  rw [Function.comp_apply, Function.comp_apply, hselects, Bool.eq_iff_iff,
    Bool.and_eq_true, Bool.and_eq_true, ofContract_iff, beq_iff_eq, beq_iff_eq]
  constructor
  · rintro ⟨hchain, hcurrent⟩
    obtain ⟨m', hm', hid, hown⟩ := h.own c hc m.id hcurrent
    have hsame := List.inj_on_of_nodup_map h.methodIds hm' hm hid
    exact ⟨hcurrent, by rw [← hown, hsame], hchain⟩
  · rintro ⟨hcurrent, -, hchain⟩
    exact ⟨hchain, hcurrent⟩

theorem allCurrent_iff : db.AllCurrent chainId ↔
    ∀ row ∈ db.snapshots chainId,
      row.contract.cells.contractMethodId = some row.method.id := by
  constructor
  · intro h row hrow
    obtain ⟨hm, hc, hid, hchain⟩ := mem_snapshots.mp hrow
    exact h _ hm _ hc hid hchain
  · intro h m hm c hc hid hchain
    exact h ⟨m, c⟩ (mem_snapshots.mpr ⟨hm, hc, hid, hchain⟩)

/-- Read to the end, the pages are the rows that are selected. -/
theorem pages_perm {textLe : String → String → Bool}
    {filter : ContractMethodHistoryFilter}
    {orderBy : ContractMethodHistoryOrderBy} {direction : SortDirection}
    {limit k : Nat} (hlimit : 0 < limit)
    (hend : listContractMethodHistories textLe db filter orderBy direction
      limit (k * limit) = []) :
    ((List.range k).flatMap fun i => listContractMethodHistories textLe db
      filter orderBy direction limit (i * limit)).Perm
        ((db.currentMethods.filter filter.selects).map db.historyRow) := by
  simp only [listContractMethodHistories, ← offsetPage_map] at hend ⊢
  rw [flatMap_offsetPage_of_nil hlimit hend]
  exact (SortDirection.orderBy_perm _ _ _ _).map _

theorem ContractDb.Ok.listsSnapshots_iff {textLe : String → String → Bool}
    (h : db.Ok) : ListsSnapshots textLe db chainId ↔ db.AllCurrent chainId := by
  rw [allCurrent_iff]
  constructor
  · intro hlists row hrow
    have hcounted := hlists.counted
    rw [countContractMethodHistories, h.currentMethods,
      List.length_filter_eq_length_iff] at hcounted
    exact beq_iff_eq.mp (hcounted row hrow)
  · intro hall
    have hsame : db.currentMethods.filter
        (ContractMethodHistoryFilter.selects { chainId }) =
          db.snapshots chainId := by
      rw [h.currentMethods, List.filter_eq_self]
      exact fun row hrow => beq_iff_eq.mpr (hall row hrow)
    refine ⟨fun orderBy direction limit k hlimit hend => ?_, ?_⟩
    · rw [← hsame]
      exact pages_perm hlimit hend
    · rw [countContractMethodHistories, hsame]

/-! ## What a call writes -/

/-- Contracts keep their id and chain, and one of a chain is pointed at the
target. -/
structure Points (f : Stored ContractCells → Stored ContractCells)
    (callChain contractId target : Int) : Prop where
  id : ∀ c, (f c).id = c.id
  chainId : ∀ c, (f c).cells.chainId = c.cells.chainId
  pointer : ∀ c, (f c).cells.contractMethodId =
    if ofContract contractId callChain c then some target
    else c.cells.contractMethodId

/-- When a call writes nothing of the history. -/
def ContractMethodCall.Skips (db : ContractDb) : ContractMethodCall → Prop
  | .rpcMetadata _ _ => True
  | .upgradeMethod _ upsert => ∀ c ∈ db.contracts, c.id ≠ upsert.contractId

/-- When a call may find its snapshot. -/
def ContractMethodCall.Finds (db : ContractDb) : ContractMethodCall → Prop
  | .rpcMetadata _ _ => False
  | .upgradeMethod _ upsert => ∃ m ∈ db.contractMethods.rows,
      m.cells.contractId = upsert.contractId ∧
      m.cells.timestampUnixSeconds = upsert.timestampUnixSeconds

/-- When a call may bring a snapshot. -/
def ContractMethodCall.Inserts (db : ContractDb) : ContractMethodCall → Prop
  | .rpcMetadata callChain upsert => ∃ c ∈ db.contracts,
      c.id = upsert.contractId ∧ c.cells.chainId = callChain ∧
      c.cells.contractMethodId = none
  | .upgradeMethod _ upsert => ∀ m ∈ db.contractMethods.rows,
      m.cells.contractId = upsert.contractId →
        m.cells.timestampUnixSeconds ≠ upsert.timestampUnixSeconds

/-- A call writes no snapshot and moves no pointer, finds a snapshot of the
contract and points the contract at it, or does so with a new one. -/
inductive Wrote (db db' : ContractDb) (call : ContractMethodCall) : Prop
  | nothing (f : Stored ContractCells → Stored ContractCells)
      (why : call.Skips db)
      (same : ∀ c, (f c).id = c.id ∧
        (f c).cells.chainId = c.cells.chainId ∧
        (f c).cells.contractMethodId = c.cells.contractMethodId)
      (contracts : db'.contracts = db.contracts.map f)
      (methods : db'.contractMethods = db.contractMethods)
  | found (f : Stored ContractCells → Stored ContractCells)
      (m : Stored ContractMethodCells) (why : call.Finds db)
      (hm : m ∈ db.contractMethods.rows)
      (hown : m.cells.contractId = call.contractId)
      (points : Points f call.chainId call.contractId m.id)
      (contracts : db'.contracts = db.contracts.map f)
      (methods : db'.contractMethods = db.contractMethods)
  | inserted (f : Stored ContractCells → Stored ContractCells)
      (cells : ContractMethodCells) (why : call.Inserts db)
      (hown : cells.contractId = call.contractId)
      (exist : ∃ c ∈ db.contracts, c.id = call.contractId)
      (points : Points f call.chainId call.contractId db.contractMethods.next)
      (contracts : db'.contracts = db.contracts.map f)
      (methods : db'.contractMethods = db.contractMethods.insert cells)

theorem wrote_self {call : ContractMethodCall} (why : call.Skips db) :
    Wrote db db call :=
  .nothing id why (fun _ => ⟨rfl, rfl, rfl⟩) (List.map_id _).symm rfl

theorem points_link {callChain target : Int}
    {upsert : ContractUpgradeMethodUpsert} :
    Points (fun contract =>
      if linksContract upsert callChain target contract then
        ⟨contract.id, { contract.cells with contractMethodId := some target }⟩
      else contract) callChain upsert.contractId target := by
  refine ⟨fun c => ?_, fun c => ?_, fun c => ?_⟩
  · split <;> rfl
  · split <;> rfl
  · rw [linksContract]
    cases hof : ofContract upsert.contractId callChain c with
    | false => rfl
    | true =>
        by_cases hsame : c.cells.contractMethodId = some target
        · rw [hsame, bne_self_eq_false]
          exact hsame
        · rw [bne_iff_ne.mpr hsame]
          rfl

theorem points_update {callChain target : Int}
    {upsert : ContractRpcMetadataUpsert} {addressId : Option Int} :
    Points (fun contract =>
      if ofContract upsert.contractId callChain contract then
        ⟨contract.id, updatedContract upsert addressId (some target)
          contract.cells⟩
      else contract) callChain upsert.contractId target := by
  refine ⟨fun c => ?_, fun c => ?_, fun c => ?_⟩
  · split <;> rfl
  · split <;> rfl
  · cases ofContract upsert.contractId callChain c <;> rfl

/-- The snapshot an upgrade finds is one of its contract and time. -/
theorem existingMethod_some {upsert : ContractUpgradeMethodUpsert} {id : Int}
    (h : existingMethod db upsert = some id) :
    ∃ m ∈ db.contractMethods.rows, m.id = id ∧
      m.cells.contractId = upsert.contractId ∧
      m.cells.timestampUnixSeconds = upsert.timestampUnixSeconds := by
  have hmem := (List.perm_insertionSort _ _).mem_iff.mp (List.mem_of_head? h)
  obtain ⟨m, hm, rfl⟩ := List.mem_map.mp hmem
  obtain ⟨hm, hkeys⟩ := List.mem_filter.mp hm
  rw [Bool.and_eq_true, beq_iff_eq, beq_iff_eq] at hkeys
  exact ⟨m, hm, rfl, hkeys⟩

theorem existingMethod_none {upsert : ContractUpgradeMethodUpsert}
    (h : existingMethod db upsert = none) :
    ∀ m ∈ db.contractMethods.rows,
      m.cells.contractId = upsert.contractId →
        m.cells.timestampUnixSeconds ≠ upsert.timestampUnixSeconds := by
  intro m hm hcontract htime
  rw [existingMethod, List.head?_eq_none_iff] at h
  have hperm := List.perm_insertionSort (fun a b : Int => b ≤ a)
    ((db.contractMethods.rows.filter fun method =>
      method.cells.contractId == upsert.contractId &&
        method.cells.timestampUnixSeconds ==
          upsert.timestampUnixSeconds).map Stored.id)
  rw [h, List.nil_perm, List.map_eq_nil_iff, List.filter_eq_nil_iff] at hperm
  exact hperm m hm (by rw [hcontract, htime]; simp)

theorem upgradeMethod_wrote (db : ContractDb) (callChain : Int)
    (upsert : ContractUpgradeMethodUpsert) :
    Wrote db (db.after (.upgradeMethod callChain upsert))
      (.upgradeMethod callChain upsert) := by
  rw [ContractDb.after, applyContractUpgradeMethod]
  cases hexisting : existingMethod db upsert with
  | some target =>
      obtain ⟨m, hm, rfl, hkeys⟩ := existingMethod_some hexisting
      exact .found _ m ⟨m, hm, hkeys⟩ hm hkeys.1 points_link rfl rfl
  | none =>
      by_cases hany : db.contracts.any fun c => c.id == upsert.contractId
      · rw [if_pos hany]
        obtain ⟨c, hc, hid⟩ := List.any_eq_true.mp hany
        exact .inserted _ _ (existingMethod_none hexisting) rfl
          ⟨c, hc, beq_iff_eq.mp hid⟩ points_link rfl rfl
      · rw [if_neg hany]
        refine wrote_self fun c hc hid => hany ?_
        exact List.any_eq_true.mpr ⟨c, hc, beq_iff_eq.mpr hid⟩

/-- A first snapshot is for a contract of the chain that points at none. -/
theorem insertedMethod_some {callChain : Int}
    {upsert : ContractRpcMetadataUpsert} {methods : Json}
    (h : insertedMethod db callChain upsert = some methods) :
    ∃ c ∈ db.contracts, c.id = upsert.contractId ∧
      c.cells.chainId = callChain ∧ c.cells.contractMethodId = none := by
  rw [insertedMethod] at h
  split at h
  · next hcond =>
      obtain ⟨c, hc, hof⟩ :=
        List.any_eq_true.mp ((Bool.and_eq_true _ _).mp hcond).2
      rw [Bool.and_eq_true, ofContract_iff, Option.isNone_iff_eq_none] at hof
      exact ⟨c, hc, hof.1.1, hof.1.2, hof.2⟩
  · cases h

theorem rpcMetadata_wrote (db : ContractDb) (callChain : Int)
    (upsert : ContractRpcMetadataUpsert) :
    Wrote db (db.after (.rpcMetadata callChain upsert))
      (.rpcMetadata callChain upsert) := by
  rw [ContractDb.after, applyContractRpcMetadata]
  cases upsertedAddress db callChain upsert.address with
  | error e => exact wrote_self trivial
  | ok upserted =>
      obtain ⟨addressId, addresses⟩ := upserted
      cases hinserted : insertedMethod db callChain upsert with
      | none =>
          refine .nothing _ trivial (fun c => ?_) rfl rfl
          split
          · exact ⟨rfl, rfl, rfl⟩
          · exact ⟨rfl, rfl, rfl⟩
      | some methods =>
          obtain ⟨c, hc, hof⟩ := insertedMethod_some hinserted
          exact .inserted _ _ ⟨c, hc, hof⟩ rfl ⟨c, hc, hof.1⟩ points_update
            rfl rfl

theorem after_wrote (db : ContractDb) (call : ContractMethodCall) :
    Wrote db (db.after call) call := by
  cases call with
  | rpcMetadata callChain upsert => exact rpcMetadata_wrote db callChain upsert
  | upgradeMethod callChain upsert =>
      exact upgradeMethod_wrote db callChain upsert

/-! ## What a call keeps -/

section

variable {callChain contractId : Int}

theorem exists_map_id {f : Stored ContractCells → Stored ContractCells}
    (hid : ∀ c, (f c).id = c.id) {contracts : List (Stored ContractCells)}
    {id : Int} (hexist : ∃ c ∈ contracts, c.id = id) :
    ∃ c ∈ contracts.map f, c.id = id := by
  obtain ⟨c, hc, rfl⟩ := hexist
  exact ⟨f c, List.mem_map_of_mem hc, hid c⟩

theorem map_ids {f : Stored ContractCells → Stored ContractCells}
    (hid : ∀ c, (f c).id = c.id) (contracts : List (Stored ContractCells)) :
    (contracts.map f).map Stored.id = contracts.map Stored.id := by
  rw [List.map_map]
  exact List.map_congr_left fun c _ => hid c

theorem mem_insert {cells : ContractMethodCells}
    {m : Stored ContractMethodCells} :
    m ∈ (db.contractMethods.insert cells).rows ↔
      m ∈ db.contractMethods.rows ∨ m = ⟨db.contractMethods.next, cells⟩ := by
  rw [SerialTable.insert, List.mem_append, List.mem_singleton]

theorem ContractDb.Ok.wrote (h : db.Ok)
    {call : ContractMethodCall}
    (hwrote : Wrote db db' call) : db'.Ok := by
  cases hwrote with
  | nothing f why same contracts methods =>
      refine ⟨?_, methods ▸ h.methodIds, methods ▸ h.drawn, ?_, ?_⟩
      · rw [contracts, map_ids fun c => (same c).1]
        exact h.contractIds
      · intro m hm
        rw [methods] at hm
        rw [contracts]
        exact exists_map_id (fun c => (same c).1) (h.owned m hm)
      · rw [contracts, methods]
        intro c' hc' id hpointer
        obtain ⟨c, hc, rfl⟩ := List.mem_map.mp hc'
        rw [(same c).2.2] at hpointer
        rw [(same c).1]
        exact h.own c hc id hpointer
  | found f m why hm hown points contracts methods =>
      refine ⟨?_, methods ▸ h.methodIds, methods ▸ h.drawn, ?_, ?_⟩
      · rw [contracts, map_ids points.id]
        exact h.contractIds
      · intro m' hm'
        rw [methods] at hm'
        rw [contracts]
        exact exists_map_id points.id (h.owned m' hm')
      · rw [contracts, methods]
        intro c' hc' id hpointer
        obtain ⟨c, hc, rfl⟩ := List.mem_map.mp hc'
        rw [points.pointer] at hpointer
        rw [points.id]
        split at hpointer
        · next hof =>
            cases hpointer
            exact ⟨m, hm, rfl, hown.trans (ofContract_iff.mp hof).1.symm⟩
        · exact h.own c hc id hpointer
  | inserted f cells why hown exist points contracts methods =>
      refine ⟨?_, ?_, ?_, ?_, ?_⟩
      · rw [contracts, map_ids points.id]
        exact h.contractIds
      · rw [methods, SerialTable.insert, List.map_append, List.nodup_append]
        refine ⟨h.methodIds, List.nodup_singleton _, ?_⟩
        intro a ha b hb
        obtain ⟨m, hm, rfl⟩ := List.mem_map.mp ha
        rw [List.map_singleton, List.mem_singleton] at hb
        rw [hb]
        exact Int.ne_of_lt (h.drawn m hm)
      · rw [methods]
        intro m hm
        rcases mem_insert.mp hm with hm | rfl
        · exact Int.lt_trans (h.drawn m hm) (Int.lt_succ _)
        · exact Int.lt_succ _
      · rw [methods, contracts]
        intro m hm
        rcases mem_insert.mp hm with hm | rfl
        · exact exists_map_id points.id (h.owned m hm)
        · rw [hown]
          exact exists_map_id points.id exist
      · rw [contracts, methods]
        intro c' hc' id hpointer
        obtain ⟨c, hc, rfl⟩ := List.mem_map.mp hc'
        rw [points.pointer] at hpointer
        rw [points.id]
        split at hpointer
        · next hof =>
            cases hpointer
            exact ⟨_, mem_insert.mpr (.inr rfl), rfl,
              hown.trans (ofContract_iff.mp hof).1.symm⟩
        · obtain ⟨m, hm, hid⟩ := h.own c hc id hpointer
          exact ⟨m, mem_insert.mpr (.inl hm), hid⟩

/-- A call leaves the contracts in their chains, and the snapshots where they
are. -/
theorem Wrote.keeps {call : ContractMethodCall}
    (hwrote : Wrote db db' call) :
    ∃ (f : Stored ContractCells → Stored ContractCells)
      (added : List (Stored ContractMethodCells)),
      (∀ c, (f c).id = c.id ∧ (f c).cells.chainId = c.cells.chainId) ∧
      db'.contracts = db.contracts.map f ∧
      db'.contractMethods.rows = db.contractMethods.rows ++ added := by
  cases hwrote with
  | nothing f why same contracts methods =>
      refine ⟨f, [], fun c => ⟨(same c).1, (same c).2.1⟩, contracts, ?_⟩
      rw [methods, List.append_nil]
  | found f m why hm hown points contracts methods =>
      refine ⟨f, [], fun c => ⟨points.id c, points.chainId c⟩, contracts, ?_⟩
      rw [methods, List.append_nil]
  | inserted f cells why hown exist points contracts methods =>
      exact ⟨f, _, fun c => ⟨points.id c, points.chainId c⟩, contracts,
        congrArg SerialTable.rows methods⟩

theorem snapshots_methods (db : ContractDb) (chainId : Int) :
    (db.snapshots chainId).map MethodOfContract.method =
      db.contractMethods.rows.flatMap fun m =>
        (db.contracts.filter
          (ofContract m.cells.contractId chainId)).map fun _ => m := by
  rw [ContractDb.snapshots, List.map_flatMap]
  refine List.flatMap_congr fun m _ => ?_
  rw [List.map_map]
  rfl

theorem Wrote.snapshots_extend {call : ContractMethodCall}
    (hwrote : Wrote db db' call)
    (chainId : Int) :
    (db.snapshots chainId).map MethodOfContract.method <+:
      (db'.snapshots chainId).map MethodOfContract.method := by
  obtain ⟨f, added, hsame, hcontracts, hrows⟩ := hwrote.keeps
  have hof : ∀ m : Stored ContractMethodCells,
      ofContract m.cells.contractId chainId ∘ f =
        ofContract m.cells.contractId chainId := by
    intro m
    funext c
    rw [Function.comp_apply, ofContract, ofContract, (hsame c).1, (hsame c).2]
  have hold : (db.contractMethods.rows.flatMap fun m =>
      (db'.contracts.filter
        (ofContract m.cells.contractId chainId)).map fun _ => m) =
      (db.snapshots chainId).map MethodOfContract.method := by
    rw [snapshots_methods]
    refine List.flatMap_congr fun m _ => ?_
    rw [hcontracts, List.filter_map, hof m, List.map_map]
    rfl
  rw [snapshots_methods db', hrows, List.flatMap_append, hold]
  exact List.prefix_append _ _

/-! ## Which calls keep every snapshot current -/

theorem allCurrent_nothing {f : Stored ContractCells → Stored ContractCells}
    (same : ∀ c, (f c).id = c.id ∧
      (f c).cells.chainId = c.cells.chainId ∧
      (f c).cells.contractMethodId = c.cells.contractMethodId)
    (contracts : db'.contracts = db.contracts.map f)
    (methods : db'.contractMethods = db.contractMethods)
    (hall : db.AllCurrent chainId) : db'.AllCurrent chainId := by
  rw [ContractDb.AllCurrent, contracts, methods]
  intro m hm c' hc' hid hchain
  obtain ⟨c, hc, rfl⟩ := List.mem_map.mp hc'
  rw [(same c).1] at hid
  rw [(same c).2.1] at hchain
  rw [(same c).2.2]
  exact hall m hm c hc hid hchain

/-- The snapshot that is found is the contract's current one already. -/
theorem allCurrent_found {f : Stored ContractCells → Stored ContractCells}
    {m : Stored ContractMethodCells} (hm : m ∈ db.contractMethods.rows)
    (hown : m.cells.contractId = contractId)
    (points : Points f callChain contractId m.id)
    (contracts : db'.contracts = db.contracts.map f)
    (methods : db'.contractMethods = db.contractMethods)
    (hall : db.AllCurrent chainId) : db'.AllCurrent chainId := by
  rw [ContractDb.AllCurrent, contracts, methods]
  intro m' hm' c' hc' hid hchain
  obtain ⟨c, hc, rfl⟩ := List.mem_map.mp hc'
  rw [points.id] at hid
  rw [points.chainId] at hchain
  rw [points.pointer]
  have hcurrent := hall m' hm' c hc hid hchain
  split
  · next hof =>
      have hcontract := (ofContract_iff.mp hof).1
      rw [← hcurrent]
      exact (hall m hm c hc (hcontract.trans hown.symm) hchain).symm
  · exact hcurrent

/-- A new snapshot is the contract's only one, and the contract one of the
chain the call names. -/
theorem allCurrent_inserted_iff (h : db.Ok)
    {f : Stored ContractCells → Stored ContractCells}
    {cells : ContractMethodCells} (hown : cells.contractId = contractId)
    (points : Points f callChain contractId db.contractMethods.next)
    (contracts : db'.contracts = db.contracts.map f)
    (methods : db'.contractMethods = db.contractMethods.insert cells)
    (hall : db.AllCurrent chainId) :
    db'.AllCurrent chainId ↔
      ∀ c ∈ db.contracts, c.id = contractId → c.cells.chainId = chainId →
        callChain = chainId ∧ ∀ m ∈ db.contractMethods.rows,
          m.cells.contractId ≠ contractId := by
  rw [ContractDb.AllCurrent, contracts, methods]
  constructor
  · intro hnew c hc hid hchain
    have hcurrent : ∀ m ∈ (db.contractMethods.insert cells).rows,
        m.cells.contractId = contractId →
          (f c).cells.contractMethodId = some m.id := by
      intro m hm hcontract
      refine hnew m hm (f c) (List.mem_map_of_mem hc) ?_ ?_
      · rw [points.id, hid, hcontract]
      · rw [points.chainId, hchain]
    have hpointer := hcurrent _ (mem_insert.mpr (.inr rfl)) hown
    constructor
    · by_contra hother
      rw [points.pointer, if_neg] at hpointer
      · obtain ⟨m, hm, hmid, -⟩ := h.own c hc _ hpointer
        exact absurd hmid (Int.ne_of_lt (h.drawn m hm))
      · rw [ofContract_iff]
        exact fun hof => hother (hof.2.symm.trans hchain)
    · intro m hm hcontract
      have hsame := hcurrent m (mem_insert.mpr (.inl hm)) hcontract
      rw [hpointer] at hsame
      exact absurd (Option.some.inj hsame).symm (Int.ne_of_lt (h.drawn m hm))
  · intro hfirst m hm c' hc' hid hchain
    obtain ⟨c, hc, rfl⟩ := List.mem_map.mp hc'
    rw [points.id] at hid
    rw [points.chainId] at hchain
    rw [points.pointer]
    rcases mem_insert.mp hm with hm | rfl
    · have hcurrent := hall m hm c hc hid hchain
      rw [if_neg, hcurrent]
      rw [ofContract_iff]
      rintro ⟨hcontract, -⟩
      exact (hfirst c hc hcontract hchain).2 m hm (hid.symm.trans hcontract)
    · have hcontract := hid.trans hown
      rw [if_pos]
      exact ofContract_iff.mpr
        ⟨hcontract, hchain.trans (hfirst c hc hcontract hchain).1.symm⟩

/-- Which calls leave every snapshot of the chain current. -/
theorem ContractDb.Ok.after_allCurrent_iff (h : db.Ok)
    (hall : db.AllCurrent chainId) (call : ContractMethodCall) :
    (db.after call).AllCurrent chainId ↔ CallKeeps chainId db call := by
  cases after_wrote db call with
  | nothing f why same contracts methods =>
      refine iff_of_true (allCurrent_nothing same contracts methods hall) ?_
      cases call with
      | rpcMetadata callChain upsert => trivial
      | upgradeMethod callChain upsert =>
          intro c hc hid
          exact absurd hid (why c hc)
  | found f m why hm hown points contracts methods =>
      refine iff_of_true
        (allCurrent_found hm hown points contracts methods hall) ?_
      cases call with
      | rpcMetadata callChain upsert => trivial
      | upgradeMethod callChain upsert => exact fun _ _ _ _ => .inl why
  | inserted f cells why hown exist points contracts methods =>
      rw [allCurrent_inserted_iff h hown points contracts methods hall]
      cases call with
      | rpcMetadata callChain upsert =>
          obtain ⟨c, hc, hid, hchain, hnone⟩ := why
          refine iff_of_true (fun c' hc' hid' hchain' => ?_) trivial
          have hsame : c' = c := List.inj_on_of_nodup_map h.contractIds hc' hc
            (hid'.trans hid.symm)
          subst hsame
          refine ⟨hchain.symm.trans hchain', fun m hm hcontract => ?_⟩
          have hcurrent := hall m hm c' hc' (hid'.trans hcontract.symm) hchain'
          rw [hnone] at hcurrent
          cases hcurrent
      | upgradeMethod callChain upsert =>
          constructor
          · intro hfirst c hc hid hchain
            exact .inr (hfirst c hc hid hchain)
          · intro hkeeps c hc hid hchain
            rcases hkeeps c hc hid hchain with ⟨m, hm, hcontract, htime⟩ | hfirst
            · exact absurd htime (why m hm hcontract)
            · exact hfirst

end

/-! ## Runs -/

theorem ContractDb.Ok.run (h : db.Ok) (calls : List ContractMethodCall) :
    (db.run calls).Ok := by
  induction calls generalizing db with
  | nil => exact h
  | cons call calls ih => exact ih (h.wrote (after_wrote db call))

theorem run_append (db : ContractDb) (earlier later : List ContractMethodCall) :
    db.run (earlier ++ later) = (db.run earlier).run later :=
  List.foldl_append

theorem run_snapshots_extend (db : ContractDb) (chainId : Int)
    (calls : List ContractMethodCall) :
    (db.snapshots chainId).map MethodOfContract.method <+:
      ((db.run calls).snapshots chainId).map MethodOfContract.method := by
  induction calls generalizing db with
  | nil => exact List.prefix_rfl
  | cons call calls ih =>
      exact ((after_wrote db call).snapshots_extend chainId).trans (ih _)

end

/-- The history of a chain is kept along a run exactly when every snapshot is
its contract's current one at the start, and every upgrade of the run finds its
snapshot or brings a first one. -/
theorem method_history_kept_iff (textLe : String → String → Bool)
    {db : ContractDb} (hdb : db.Ok) (chainId : Int)
    (calls : List ContractMethodCall) :
    (∀ earlier between later, calls = earlier ++ between ++ later →
      KeepsHistory textLe (db.run earlier) (db.run (earlier ++ between))
        chainId) ↔
    db.AllCurrent chainId ∧ ∀ before call later,
      calls = before ++ call :: later →
        CallKeeps chainId (db.run before) call := by
  have halways := always_foldl_iff (f := ContractDb.after) (I := ContractDb.Ok)
    (J := fun db => db.AllCurrent chainId) (K := CallKeeps chainId)
    (fun db call h => h.wrote (after_wrote db call))
    (fun db call h hall => h.after_allCurrent_iff hall call) hdb calls
  refine Iff.trans ⟨?_, ?_⟩ halways
  · intro hkeeps before later heq
    refine (hdb.run before).listsSnapshots_iff.mp
      (hkeeps [] before later ?_).lists
    exact heq
  · intro hall earlier between later heq
    refine ⟨?_, ?_⟩
    · rw [run_append]
      exact run_snapshots_extend _ chainId between
    · refine (hdb.run (earlier ++ between)).listsSnapshots_iff.mpr ?_
      exact hall _ later heq

/-- A contract without snapshots. -/
def oneContract : ContractDb where
  chainIds := [1]
  addresses := ⟨[], 1⟩
  contracts :=
    [⟨1, none, some "market", none, none, 1, none, none, 0⟩]
  contractMethods := ⟨[], 1⟩

theorem oneContract_ok : oneContract.Ok where
  contractIds := by decide +kernel
  methodIds := by decide +kernel
  drawn := fun m hm => absurd hm List.not_mem_nil
  owned := fun m hm => absurd hm List.not_mem_nil
  own := by
    intro c hc id hpointer
    rw [List.mem_singleton.mp hc] at hpointer
    cases hpointer

/-- An upgrade of the contract at a time. -/
def upgradeAt (time : Int) : ContractMethodCall :=
  .upgradeMethod 1 ⟨1, .arr [], time⟩

theorem method_history_kept_iff_upgrade :
    KeepsHistory (fun a b => decide (a ≤ b)) (oneContract.run [upgradeAt 100])
      (oneContract.run [upgradeAt 100, upgradeAt 100]) 1 := by
  refine (method_history_kept_iff _ oneContract_ok 1
    [upgradeAt 100, upgradeAt 100]).mpr ⟨?_, ?_⟩ [upgradeAt 100]
      [upgradeAt 100] [] rfl
  · intro m hm
    exact absurd hm List.not_mem_nil
  · intro before call later heq
    rcases before with _ | ⟨first, _ | ⟨second, before⟩⟩
    · cases heq
      intro c hc hid hchain
      exact .inr ⟨rfl, fun m hm => absurd hm List.not_mem_nil⟩
    · cases heq
      intro c hc hid hchain
      exact .inl ⟨_, List.mem_singleton_self _, rfl, rfl⟩
    · simp at heq

/-- After a second upgrade the first snapshot is there and not listed. -/
theorem method_history_loses_snapshot :
    ((oneContract.run [upgradeAt 100, upgradeAt 200]).snapshots 1).length = 2 ∧
    countContractMethodHistories
      (oneContract.run [upgradeAt 100, upgradeAt 200]) { chainId := 1 } = 1 ∧
    ¬∀ earlier between later,
      [upgradeAt 100, upgradeAt 200] = earlier ++ between ++ later →
      KeepsHistory (fun a b => decide (a ≤ b)) (oneContract.run earlier)
        (oneContract.run (earlier ++ between)) 1 := by
  have hthere : ((oneContract.run
      [upgradeAt 100, upgradeAt 200]).snapshots 1).length = 2 := by
    decide +kernel
  have hlisted : countContractMethodHistories (oneContract.run
      [upgradeAt 100, upgradeAt 200]) { chainId := 1 } = 1 := by
    decide +kernel
  refine ⟨hthere, hlisted, fun hkeeps => ?_⟩
  have hcounted := (hkeeps [] [upgradeAt 100, upgradeAt 200] []
    rfl).lists.counted
  rw [List.nil_append, hthere, hlisted] at hcounted
  omega

end Explorer.Ref
