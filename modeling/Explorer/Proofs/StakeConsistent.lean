import Explorer.Ref.StakeTables
import Mathlib

/-!
# The four aggregates of a stake state agree

A `StakeSnapshotState` stores one map and three numbers that could be
recomputed from it. Nothing in the source recomputes them: every stake delta
moves the total by the difference and the two counters by a threshold
crossing, around a clamp and a removal at zero.

All of it comes down to one key. A map is the entry of an address in front
of the map without that address (`entries_split`), and after a delta it is
the new entry in front of the same rest (`moveStake_entries`), so each
aggregate moves by what that one entry contributes. The rest of the file is
bookkeeping: the supply moves touch no aggregate, the loaders start from
nothing and add entries, and the resume tables hold the map exactly.

The consequence that is easy to miss is `movedTotal_nonneg`: in a consistent
state the total is the sum of positive stakes, so the clamp on a negative
total is dead code, and the anomaly it records can never be seen.
-/

namespace Explorer.Ref

open Explorer.Lib

/-- The stakes as a bag. -/
def stakeBag (m : Stakes) : Multiset Int := m.entries.map fun e => e.2

/-- The map and the three numbers beside it agree. -/
structure Consistent (s : StakeSnapshotState) : Prop where
  pos : ∀ v ∈ stakeBag s.stakesByAddress, 0 < v
  total : s.totalStakedRaw = (stakeBag s.stakesByAddress).sum
  stakers : s.stakersCount = ((stakeBag s.stakesByAddress).card : Int)
  masters : s.mastersCount =
    ((stakeBag s.stakesByAddress).countP (masterThreshold ≤ ·) : Int)

/-! ## One address -/

/-- What an address with this stake contributes to the bag. -/
def ownShare (v : Int) : Multiset Int := if 0 < v then {v} else 0

theorem ownShare_sum {v : Int} (h : 0 ≤ v) : (ownShare v).sum = v := by
  unfold ownShare
  split
  · exact Multiset.sum_singleton v
  · rw [Multiset.sum_zero]
    omega

theorem ownShare_card (v : Int) :
    ((ownShare v).card : Int) = if 0 < v then 1 else 0 := by
  unfold ownShare
  split <;> simp

theorem ownShare_countP (v : Int) :
    ((ownShare v).countP (masterThreshold ≤ ·) : Int) =
      if masterThreshold ≤ v then 1 else 0 := by
  unfold ownShare
  split
  · by_cases h : masterThreshold ≤ v <;> simp [h, ← Multiset.cons_zero]
  · have h : ¬ masterThreshold ≤ v := by unfold masterThreshold; omega
    simp [h]

theorem stakeBag_insert (m : Stakes) (a : String) (v : Int) :
    stakeBag (m.insert a v) = v ::ₘ stakeBag (m.erase a) := by
  simp only [stakeBag, entries_insert, Multiset.map_cons]

theorem pos_of_lookup {m : Stakes} {a : String} {v : Int}
    (hpos : ∀ v ∈ stakeBag m, 0 < v) (h : m.lookup a = some v) : 0 < v :=
  hpos v (Multiset.mem_map.mpr ⟨⟨a, v⟩, mem_entries_iff.mpr h, rfl⟩)

/-- The bag around one address, before a delta. -/
theorem stakeBag_split {m : Stakes} (hpos : ∀ v ∈ stakeBag m, 0 < v)
    (a : String) :
    stakeBag m = ownShare ((m.lookup a).getD 0) + stakeBag (m.erase a) := by
  cases h : m.lookup a with
  | none =>
      rw [erase_of_notMem (Finmap.lookup_eq_none.mp h)]
      simp [ownShare]
  | some v =>
      have hv : 0 < v := pos_of_lookup hpos h
      simp only [Option.getD_some, ownShare, if_pos hv]
      rw [Multiset.singleton_add, stakeBag, entries_of_lookup h,
        Multiset.map_cons]
      rfl

/-- The bag around one address, after a delta. -/
theorem stakeBag_set (m : Stakes) (a : String) {v : Int} (hv : 0 ≤ v) :
    stakeBag (if v = 0 then m.erase a else m.insert a v) =
      ownShare v + stakeBag (m.erase a) := by
  by_cases h : v = 0
  · rw [if_pos h]
    simp [ownShare, h]
  · rw [if_neg h, stakeBag_insert, ownShare, if_pos (by omega),
      Multiset.singleton_add]

theorem clampedStake_nonneg (old delta : Int) : 0 ≤ clampedStake old delta := by
  unfold clampedStake
  split <;> omega

theorem stakeOf_nonneg {s : StakeSnapshotState} (hs : Consistent s)
    (a : String) : 0 ≤ s.stakeOf a := by
  unfold StakeSnapshotState.stakeOf
  cases h : s.stakesByAddress.lookup a with
  | none => exact le_refl 0
  | some v => exact (pos_of_lookup hs.pos h).le

theorem sum_erase_nonneg {s : StakeSnapshotState} (hs : Consistent s)
    (a : String) : 0 ≤ (stakeBag (s.stakesByAddress.erase a)).sum := by
  refine Multiset.sum_nonneg fun v hv => (hs.pos v ?_).le
  rw [stakeBag_split hs.pos a]
  exact Multiset.mem_add.mpr (Or.inr hv)

/-- The total before its clamp is a sum of stakes again. -/
theorem movedTotal_eq {s : StakeSnapshotState} (hs : Consistent s)
    (a : String) (delta : Int) :
    s.movedTotal a delta = clampedStake (s.stakeOf a) delta +
      (stakeBag (s.stakesByAddress.erase a)).sum := by
  have hsplit : s.totalStakedRaw = s.stakeOf a +
      (stakeBag (s.stakesByAddress.erase a)).sum := by
    rw [hs.total, stakeBag_split hs.pos a, Multiset.sum_add]
    rw [← StakeSnapshotState.stakeOf, ownShare_sum (stakeOf_nonneg hs a)]
  rw [StakeSnapshotState.movedTotal, hsplit]
  omega

/-- The clamp on a negative total never fires. -/
theorem movedTotal_nonneg {s : StakeSnapshotState} (hs : Consistent s)
    (a : String) (delta : Int) : 0 ≤ s.movedTotal a delta := by
  have h1 := clampedStake_nonneg (s.stakeOf a) delta
  have h2 := sum_erase_nonneg hs a
  rw [movedTotal_eq hs]
  omega

theorem crossing_eq (was is : Prop) [Decidable was] [Decidable is] :
    crossing (decide was) (decide is) =
      (if is then 1 else 0) - (if was then 1 else 0) := by
  by_cases h1 : was <;> by_cases h2 : is <;> simp [crossing, h1, h2]

theorem Consistent.moveStake {s : StakeSnapshotState} (hs : Consistent s)
    (a : String) (delta : Int) : Consistent (s.moveStake a delta) := by
  have hnew := clampedStake_nonneg (s.stakeOf a) delta
  have hset := stakeBag_set s.stakesByAddress a hnew
  have hold := stakeBag_split hs.pos a
  rw [← StakeSnapshotState.stakeOf] at hold
  refine ⟨?_, ?_, ?_, ?_⟩
  · intro v hv
    simp only [StakeSnapshotState.moveStake, hset, Multiset.mem_add] at hv
    rcases hv with hv | hv
    · unfold ownShare at hv
      split at hv
      · next hp => exact Multiset.mem_singleton.mp hv ▸ hp
      · exact absurd hv (Multiset.notMem_zero v)
    · exact hs.pos v (hold ▸ Multiset.mem_add.mpr (Or.inr hv))
  · have hnn := movedTotal_nonneg hs a delta
    simp only [StakeSnapshotState.moveStake, hset]
    rw [if_neg (by omega), movedTotal_eq hs, Multiset.sum_add,
      ownShare_sum hnew]
  · simp only [StakeSnapshotState.moveStake, hset]
    rw [hs.stakers, hold, crossing_eq, Multiset.card_add, Multiset.card_add]
    push_cast
    rw [ownShare_card, ownShare_card]
    omega
  · simp only [StakeSnapshotState.moveStake, hset]
    rw [hs.masters, hold, crossing_eq, Multiset.countP_add,
      Multiset.countP_add]
    push_cast
    rw [ownShare_countP, ownShare_countP]
    omega

/-! ## Rows, transactions, runs -/

theorem Consistent.setSupply {s : StakeSnapshotState} (hs : Consistent s)
    (supply : Int) : Consistent { s with soulSupplyRaw := supply } :=
  ⟨hs.pos, hs.total, hs.stakers, hs.masters⟩

theorem consistent_stakeDelta {l : ReplayLoop} (hs : Consistent l.state)
    (row : StakeSnapshotEventRow) (delta : Int) :
    Consistent (l.stakeDelta row delta).state := by
  simp only [ReplayLoop.stakeDelta, applyStakeSnapshotStakeDelta]
  split
  · exact hs
  · exact hs.moveStake _ _

theorem consistent_moveSupply {l : ReplayLoop} (hs : Consistent l.state)
    (inflation : Option Int) (sign value : Int) :
    Consistent (l.moveSupply inflation sign value).state := by
  unfold ReplayLoop.moveSupply
  split
  · split
    · exact hs
    · exact hs.setSupply _
  · exact hs.setSupply _

theorem consistent_clampSupply {l : ReplayLoop} (hs : Consistent l.state)
    (reverse : Bool) (row : StakeSnapshotEventRow) :
    Consistent (l.clampSupply reverse row).state := by
  unfold ReplayLoop.clampSupply
  split
  · exact hs.setSupply _
  · exact hs

/-- One row, whatever it is. -/
theorem consistent_applyRow {l : ReplayLoop} (hs : Consistent l.state)
    (ctx : TxContext) (row : StakeSnapshotEventRow) :
    Consistent (applyRow ctx l row).state := by
  unfold applyRow
  split
  · exact hs
  · split
    · exact consistent_stakeDelta hs _ _
    · exact consistent_stakeDelta hs _ _
    · exact consistent_stakeDelta hs _ _
    · exact consistent_stakeDelta hs _ _
    · exact consistent_moveSupply hs _ _ _
    · exact consistent_moveSupply hs _ _ _
    · exact consistent_clampSupply (consistent_moveSupply hs _ _ _) _ _
    · exact consistent_clampSupply (consistent_moveSupply hs _ _ _) _ _

theorem consistent_applyRows {l : ReplayLoop} (hs : Consistent l.state)
    (ctx : TxContext) (rows : List StakeSnapshotEventRow) :
    Consistent (rows.foldl (applyRow ctx) l).state := by
  induction rows generalizing l with
  | nil => exact hs
  | cons row rows ih => exact ih (consistent_applyRow hs ctx row)

/-- A transaction in either direction. -/
theorem Consistent.transaction {r : Replay} (hs : Consistent r.1)
    (rows : List StakeSnapshotEventRow) (reverse : Bool) :
    Consistent (applyStakeSnapshotTransaction r rows reverse).1 :=
  consistent_applyRows (l := ⟨r.1, r.2, false⟩) hs _ rows

/-- Transactions one after the other, each in its own direction. -/
def runTransactions (r : Replay)
    (txs : List (List StakeSnapshotEventRow × Bool)) : Replay :=
  txs.foldl (fun r tx => applyStakeSnapshotTransaction r tx.1 tx.2) r

theorem Consistent.run {r : Replay} (hs : Consistent r.1)
    (txs : List (List StakeSnapshotEventRow × Bool)) :
    Consistent (runTransactions r txs).1 := by
  induction txs generalizing r with
  | nil => exact hs
  | cons tx txs ih => exact ih (hs.transaction tx.1 tx.2)

theorem Consistent.replayGroups {r : Replay} (hs : Consistent r.1)
    (reverse : Bool) (groups : List (List StakeSnapshotEventRow)) :
    Consistent (replayGroups reverse r groups).1 := by
  induction groups generalizing r with
  | nil => exact hs
  | cons g groups ih =>
      exact ih (hs.transaction (deduplicateStakeSnapshotTxRows g) reverse)

/-! ## The loaders -/

theorem consistent_emptyStakeState (supply : Int) :
    Consistent (emptyStakeState supply) := by
  refine ⟨?_, rfl, rfl, rfl⟩
  intro v hv
  exact absurd hv (Multiset.notMem_zero v)

theorem Consistent.addLoaded {s : StakeSnapshotState} (hs : Consistent s)
    {a : String} (ha : a ∉ s.stakesByAddress) (staked : Int) :
    Consistent (s.addLoaded a staked) := by
  unfold StakeSnapshotState.addLoaded
  split
  · exact hs
  · next hpos =>
      have hbag : stakeBag (s.stakesByAddress.insert a staked) =
          staked ::ₘ stakeBag s.stakesByAddress := by
        rw [stakeBag_insert, erase_of_notMem ha]
      refine ⟨?_, ?_, ?_, ?_⟩
      · intro v hv
        rw [hbag, Multiset.mem_cons] at hv
        rcases hv with hv | hv
        · omega
        · exact hs.pos v hv
      · simp only [hbag, hs.total, Multiset.sum_cons]
        omega
      · simp only [hbag, hs.stakers, Multiset.card_cons]
        push_cast
        omega
      · simp only [hbag, hs.masters, Multiset.countP_cons]
        push_cast
        split <;> omega

theorem mem_addLoaded {s : StakeSnapshotState} {a b : String} {staked : Int}
    (h : b ∈ (s.addLoaded a staked).stakesByAddress) :
    b = a ∨ b ∈ s.stakesByAddress := by
  unfold StakeSnapshotState.addLoaded at h
  split at h
  · exact Or.inr h
  · exact Finmap.mem_insert.mp h

/-- The loop of both loaders, over rows whose addresses are new. -/
theorem consistent_addLoadedRows {parse : String → Option Int}
    {rows : List (String × String)} {s s' : StakeSnapshotState}
    (hs : Consistent s) (hkeys : (rows.map Prod.fst).Nodup)
    (hfresh : ∀ row ∈ rows, row.1 ∉ s.stakesByAddress)
    (h : addLoadedRows parse s rows = .ok s') : Consistent s' := by
  induction rows generalizing s with
  | nil =>
      simp only [addLoadedRows, Except.ok.injEq] at h
      exact h ▸ hs
  | cons row rows ih =>
      rw [List.map_cons, List.nodup_cons] at hkeys
      simp only [addLoadedRows] at h
      split at h
      · cases h
      · next staked _ =>
          refine ih (hs.addLoaded (hfresh row List.mem_cons_self) staked)
            hkeys.2 ?_ h
          intro row' hrow' hmem
          rcases mem_addLoaded hmem with heq | hold
          · exact hkeys.1 (heq ▸ List.mem_map_of_mem hrow')
          · exact hfresh row' (List.mem_cons_of_mem _ hrow') hold

/-- The loop ends in a state as soon as every text is a numeral. -/
theorem addLoadedRows_ok {parse : String → Option Int}
    {rows : List (String × String)}
    (hparse : ∀ row ∈ rows, (parse row.2).isSome) (s : StakeSnapshotState) :
    ∃ s', addLoadedRows parse s rows = .ok s' := by
  induction rows generalizing s with
  | nil => exact ⟨s, rfl⟩
  | cons row rows ih =>
      obtain ⟨n, hn⟩ := Option.isSome_iff_exists.mp
        (hparse row List.mem_cons_self)
      have hrest := ih (fun row' h => hparse row' (List.mem_cons_of_mem _ h))
        (s.addLoaded row.1 n)
      simpa [addLoadedRows, parseStakeSnapshotRaw, hn] using hrest

theorem consistent_loadBoundary {parse : String → Option Int}
    {t : StakeTables} {day : Int} {s : StakeSnapshotState}
    (hkeys : (t.boundaryBalances.map Prod.fst).Nodup)
    (h : loadStakeBoundarySlice parse t = .ok (some (day, s))) :
    Consistent s := by
  unfold loadStakeBoundarySlice at h
  split at h
  · cases h
  · split at h
    · cases h
    · split at h
      · cases h
      · next hrows =>
          cases h
          refine consistent_addLoadedRows (consistent_emptyStakeState _) hkeys
            ?_ hrows
          intro row _ hmem
          exact Finmap.notMem_empty hmem

/-- A captured seed loads as soon as its texts are numerals. -/
theorem loadBoundary_ok {parse : String → Option Int} {t : StakeTables}
    {header : BoundaryHeader} (hheader : t.boundaryState = some header)
    {supply : Int} (hsupply : parse header.soulSupplyRaw = some supply)
    (hrows : ∀ row ∈ t.boundaryBalances, (parse row.2).isSome) :
    ∃ s, loadStakeBoundarySlice parse t =
      .ok (some (header.boundaryDayUnixSeconds, s)) := by
  obtain ⟨s, hs⟩ := addLoadedRows_ok hrows (emptyStakeState supply)
  refine ⟨s, ?_⟩
  simp only [loadStakeBoundarySlice, hheader, parseStakeSnapshotRaw, hsupply,
    hs]

theorem stakeRows_nodup {ledger : LedgerTables}
    (hkeys : (ledger.addresses.map Prod.fst).Nodup) :
    (ledger.stakeRows.map Prod.fst).Nodup := by
  refine hkeys.sublist ?_
  unfold LedgerTables.stakeRows
  induction ledger.addresses with
  | nil => exact List.Sublist.refl _
  | cons row rows ih =>
      rw [List.filterMap_cons]
      split
      · exact ih.cons _
      · next b hb =>
          have hfst : b.1 = row.1 := by
            split at hb
            · split at hb
              · cases hb
                rfl
              · cases hb
            · cases hb
          rw [List.map_cons, List.map_cons, hfst]
          exact ih.cons_cons _

/-- A ledger with a SOUL supply always loads, and loads consistently. -/
theorem consistent_loadCurrent {parse : String → Option Int}
    (hparse : ∀ n : Int, parse (toString n) = some n) {ledger : LedgerTables}
    {supply : Int} (hsoul : ledger.soulToken = some (some supply))
    (hkeys : (ledger.addresses.map Prod.fst).Nodup) :
    ∃ s, loadCurrentStakeSnapshotState parse ledger = .ok s ∧
      Consistent s := by
  have hrows : ∀ row ∈ ledger.stakeRows, (parse row.2).isSome := by
    intro row hrow
    obtain ⟨r, _, hr⟩ := List.mem_filterMap.mp hrow
    split at hr
    · split at hr
      · cases hr
        rw [hparse]
        rfl
      · cases hr
    · cases hr
  obtain ⟨s, hs⟩ := addLoadedRows_ok hrows (emptyStakeState supply)
  refine ⟨s, ?_, ?_⟩
  · rw [loadCurrentStakeSnapshotState, hsoul]
    simp only [parseStakeSnapshotRaw, hparse]
    exact hs
  · refine consistent_addLoadedRows (consistent_emptyStakeState supply)
      (stakeRows_nodup hkeys) ?_ hs
    intro row _ hmem
    exact Finmap.notMem_empty hmem

/-! ## The resume tables -/

theorem loadResumeStakes_eq {parse : String → Option Int}
    (hparse : ∀ n : Int, parse (toString n) = some n)
    (rows : List (String × Int)) (m : Stakes) :
    loadResumeStakes parse m rows =
      .ok (rows.foldl (fun m r => m.insert r.1 r.2) m) := by
  induction rows generalizing m with
  | nil => rfl
  | cons row rows ih =>
      rw [List.foldl_cons, ← ih]
      simp only [loadResumeStakes, parseStakeSnapshotRaw, hparse]

/-- Reading the rows of a map back gives the map. -/
theorem ofPairs_toPairs (m : Stakes) : ofPairs (toPairs (· ≤ ·) m) = m := by
  refine Finmap.ext_lookup fun a => Option.ext fun b => ?_
  exact (lookup_ofPairs (nodup_toPairs _ m)).trans (mem_toPairs _)

theorem loadResume_saveResume {parse : String → Option Int}
    (hparse : ∀ n : Int, parse (toString n) = some n) (t : StakeTables)
    (day : Int) {s : StakeSnapshotState} (hs : Consistent s) :
    loadStakeSnapshotResume parse (saveStakeSnapshotResume t day s) =
      .ok (some (day, s)) := by
  have hrows : (toPairs (· ≤ ·) s.stakesByAddress).filter
      (fun e => decide (0 < e.2)) = toPairs (· ≤ ·) s.stakesByAddress := by
    refine List.filter_eq_self.mpr fun e he => ?_
    exact decide_eq_true (pos_of_lookup hs.pos ((mem_toPairs _).mp he))
  simp only [loadStakeSnapshotResume, saveStakeSnapshotResume, hrows,
    loadResumeStakes_eq hparse, parseStakeSnapshotRaw, hparse]
  rw [← ofPairs, ofPairs_toPairs]

/-! ## The main statement -/

/-- Both loaders give consistent states from rows with distinct addresses;
every state a run of transactions reaches is consistent, at the end of a
transaction and before each of its rows; there the guard of the clamp on the
total is false for every delta; and the resume tables give back what was
saved. -/
theorem stake_state_consistency (parse : String → Option Int)
    (hparse : ∀ n : Int, parse (toString n) = some n) :
    (∀ (t : StakeTables), (t.boundaryBalances.map Prod.fst).Nodup →
      (∀ header supply, t.boundaryState = some header →
        parse header.soulSupplyRaw = some supply →
        (∀ row ∈ t.boundaryBalances, (parse row.2).isSome) →
        ∃ s, loadStakeBoundarySlice parse t =
          .ok (some (header.boundaryDayUnixSeconds, s))) ∧
      ∀ (day : Int) (s : StakeSnapshotState),
        loadStakeBoundarySlice parse t = .ok (some (day, s)) →
        Consistent s) ∧
    (∀ (ledger : LedgerTables) (supply : Int),
      ledger.soulToken = some (some supply) →
      (ledger.addresses.map Prod.fst).Nodup →
      ∃ s, loadCurrentStakeSnapshotState parse ledger = .ok s ∧
        Consistent s) ∧
    (∀ (s : StakeSnapshotState) (an : StakeSnapshotAnomalies)
      (txs : List (List StakeSnapshotEventRow × Bool)), Consistent s →
      Consistent (runTransactions (s, an) txs).1 ∧
      ∀ (rows seen rest : List StakeSnapshotEventRow) (reverse : Bool),
        rows = seen ++ rest →
        let r := runTransactions (s, an) txs
        let l := seen.foldl (applyRow (txContext rows reverse))
          ⟨r.1, r.2, false⟩
        Consistent l.state ∧
        ∀ (address : String) (delta : Int),
          ¬ l.state.movedTotal address delta < 0) ∧
    (∀ (t : StakeTables) (day : Int) (s : StakeSnapshotState),
      Consistent s →
      loadStakeSnapshotResume parse (saveStakeSnapshotResume t day s) =
        .ok (some (day, s))) := by
  refine ⟨?_, ?_, ?_, ?_⟩
  · intro t hkeys
    refine ⟨?_, ?_⟩
    · intro header supply hheader hsupply hrows
      exact loadBoundary_ok hheader hsupply hrows
    · intro day s h
      exact consistent_loadBoundary hkeys h
  · intro ledger supply hsoul hkeys
    exact consistent_loadCurrent hparse hsoul hkeys
  · intro s an txs hs
    refine ⟨Consistent.run (r := (s, an)) hs txs, ?_⟩
    intro rows seen rest reverse _
    have hl := consistent_applyRows
      (l := ⟨(runTransactions (s, an) txs).1, (runTransactions (s, an) txs).2,
        false⟩) (Consistent.run (r := (s, an)) hs txs)
      (txContext rows reverse) seen
    refine ⟨hl, ?_⟩
    intro address delta
    have := movedTotal_nonneg hl address delta
    omega
  · intro t day s hs
    exact loadResume_saveResume hparse t day hs

theorem toInt?_toString (n : Int) : (toString n).toInt? = some n :=
  Int.toInt?_repr n

/-- A seed with two stakers, one of them a master. -/
def seedOfTwo : StakeTables where
  boundaryState := some ⟨86400, toString (100 : Int)⟩
  boundaryBalances :=
    [("P", toString (7 : Int)), ("K", toString masterThreshold)]
  dailies := []
  resume := none
  resumeStakes := []

/-- The state of this seed. -/
def twoStakers : StakeSnapshotState :=
  ((emptyStakeState 100).addLoaded "P" 7).addLoaded "K" masterThreshold

theorem seedOfTwo_loads : loadStakeBoundarySlice String.toInt? seedOfTwo =
    .ok (some (86400, twoStakers)) := by
  simp only [loadStakeBoundarySlice, seedOfTwo, parseStakeSnapshotRaw,
    toInt?_toString, addLoadedRows, twoStakers]

/-- The master claims more than is staked. -/
def claimTooMuch : StakeSnapshotEventRow where
  eventId := 1
  txId := 1
  kind := "TokenClaim"
  timestampUnixSeconds := 86405
  payloadIdentity := ""
  payloadFormat := 2
  tokenSymbol := some "SOUL"
  valueRaw := some (masterThreshold + 1)
  address := some "K"
  marketQuoteSymbol := none
  txHasStakeCall := false
  txHasUnstakeCall := true
  txHasClaimCall := false
  txApplyInflationResultSoulDeltaRaw := none

/-- The seed, a claim that is clamped, and the state saved and resumed. -/
theorem stake_state_consistency_toInt :
    twoStakers.stakersCount = 2 ∧ Consistent twoStakers ∧
    let s := (runTransactions (twoStakers, .none) [([claimTooMuch], false)]).1
    s.stakersCount = 1 ∧ Consistent s ∧
      loadStakeSnapshotResume String.toInt?
          (saveStakeSnapshotResume seedOfTwo 172800 s) =
        .ok (some (172800, s)) := by
  obtain ⟨hseed, -, hruns, hresume⟩ :=
    stake_state_consistency String.toInt? toInt?_toString
  have htwo : Consistent twoStakers :=
    (hseed seedOfTwo (by decide)).2 86400 twoStakers seedOfTwo_loads
  have hrun := (hruns twoStakers .none [([claimTooMuch], false)] htwo).1
  exact ⟨by decide +kernel, htwo, by decide +kernel, hrun,
    hresume seedOfTwo 172800 _ hrun⟩

end Explorer.Ref
