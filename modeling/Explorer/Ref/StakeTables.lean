import Explorer.Ref.Staking
import Mathlib.Data.List.MinMax

/-!
# The tables under the stake projector (`crates/db/src/staking.rs`)

One chain's share of the tables the projector reads and writes: the frozen
seed (`stake_boundary_*`), the curve (`staking_progress_dailies`), the
persisted fold state (`stake_snapshot_resume*`), and the projected chain the
events come from. `chain_id` is the same in every statement and is left out.

A `numeric` column that only ever receives integer numerals is an `Int`, and
its `::text` is `toString`; a `text` column is a `String`. `BigInt::from_str`
belongs to a package outside the repository and is the parameter `parse`.

The rows of `StakeTransaction.events` are the ones the `WHERE` clause of
`load_stake_snapshot_events` selects, the time window apart, in
`(event_index, id)` order; `ORDER BY` then only has to order the
transactions. Two outputs of the projector are left out because nothing it
reads depends on them: the `staking_ratio` column, which is the quotient of
two columns that are kept, and the monthly rollup of the curve.
-/

namespace Explorer.Ref

open Explorer.Lib

/-- What ends a run without a report. `panicked` is the one panic the model
can reach, the byte slice of `parse_carbon_intx_i64_raw`. -/
inductive StakeError where
  | invalidRaw (field value : String)
  | tokenMissing (symbol : String)
  | rowNotFound
  | panicked
  deriving Repr, DecidableEq

/-- `parse_stake_snapshot_raw`. -/
def parseStakeSnapshotRaw (parse : String → Option Int)
    (field value : String) : Except StakeError Int :=
  match parse value with
  | some n => .ok n
  | none => .error (.invalidRaw field value)

/-! ## Loading a state from rows -/

/-- The loop body both loaders share: skip what is not positive, count the
rest. -/
def StakeSnapshotState.addLoaded (s : StakeSnapshotState) (address : String)
    (staked : Int) : StakeSnapshotState :=
  if staked ≤ 0 then s
  else
    { s with
      mastersCount := s.mastersCount + if masterThreshold ≤ staked then 1 else 0
      stakersCount := s.stakersCount + 1
      totalStakedRaw := s.totalStakedRaw + staked
      stakesByAddress := s.stakesByAddress.insert address staked }

/-- The loop of both loaders over `(address, staked_amount_raw)` rows. -/
def addLoadedRows (parse : String → Option Int) (s : StakeSnapshotState) :
    List (String × String) → Except StakeError StakeSnapshotState
  | [] => .ok s
  | (address, raw) :: rows =>
      match parseStakeSnapshotRaw parse "staked_amount_raw" raw with
      | .error e => .error e
      | .ok staked => addLoadedRows parse (s.addLoaded address staked) rows

/-- A state before its rows are added. -/
def emptyStakeState (soulSupplyRaw : Int) : StakeSnapshotState where
  stakesByAddress := ∅
  totalStakedRaw := 0
  soulSupplyRaw := soulSupplyRaw
  stakersCount := 0
  mastersCount := 0

structure BoundaryHeader where
  boundaryDayUnixSeconds : Int
  soulSupplyRaw : String
  deriving Repr, DecidableEq

structure ResumeHeader where
  lastProjectedDayUnixSeconds : Int
  totalStakedRaw : Int
  soulSupplyRaw : Int
  stakersCount : Int
  mastersCount : Int
  deriving Repr, DecidableEq

/-- A row of `staking_progress_dailies`; `(chain_id, date)` is its key. -/
structure DailyRow where
  point : StakeSnapshotDailyPoint
  source : String
  deriving Repr, DecidableEq

structure StakeTables where
  boundaryState : Option BoundaryHeader
  boundaryBalances : List (String × String)
  dailies : List DailyRow
  resume : Option ResumeHeader
  resumeStakes : List (String × Int)

/-- `load_stake_boundary_slice`. -/
def loadStakeBoundarySlice (parse : String → Option Int) (t : StakeTables) :
    Except StakeError (Option (Int × StakeSnapshotState)) :=
  match t.boundaryState with
  | none => .ok none
  | some header =>
      match parseStakeSnapshotRaw parse "soul_supply_raw"
          header.soulSupplyRaw with
      | .error e => .error e
      | .ok supply =>
          match addLoadedRows parse (emptyStakeState supply)
              t.boundaryBalances with
          | .error e => .error e
          | .ok s => .ok (some (header.boundaryDayUnixSeconds, s))

/-- The current ledger, as the capture reads it: the SOUL token's row, if
there is one, with its nullable supply, and the address rows. -/
structure LedgerTables where
  soulToken : Option (Option Int)
  addresses : List (String × Option Int)

/-- The rows of `SELECT address, staked_amount_raw::text ... WHERE address
<> 'NULL' AND staked_amount_raw > 0`. -/
def LedgerTables.stakeRows (ledger : LedgerTables) : List (String × String) :=
  ledger.addresses.filterMap fun row =>
    match row.2 with
    | some staked =>
        if row.1 ≠ "NULL" ∧ 0 < staked then some (row.1, toString staked)
        else none
    | none => none

/-- `load_current_stake_snapshot_state`. -/
def loadCurrentStakeSnapshotState (parse : String → Option Int)
    (ledger : LedgerTables) : Except StakeError StakeSnapshotState :=
  match ledger.soulToken with
  | none => .error .rowNotFound
  | some none => .error (.tokenMissing "SOUL")
  | some (some supply) =>
      match parseStakeSnapshotRaw parse "current_supply_raw"
          (toString supply) with
      | .error e => .error e
      | .ok supply => addLoadedRows parse (emptyStakeState supply)
          ledger.stakeRows

/-! ## The persisted fold state -/

/-- The row loop of `load_stake_snapshot_resume`. -/
def loadResumeStakes (parse : String → Option Int) (m : Stakes) :
    List (String × Int) → Except StakeError Stakes
  | [] => .ok m
  | (address, staked) :: rows =>
      match parseStakeSnapshotRaw parse "staked_amount_raw"
          (toString staked) with
      | .error e => .error e
      | .ok staked => loadResumeStakes parse (m.insert address staked) rows

/-- `load_stake_snapshot_resume`. -/
def loadStakeSnapshotResume (parse : String → Option Int) (t : StakeTables) :
    Except StakeError (Option (Int × StakeSnapshotState)) :=
  match t.resume with
  | none => .ok none
  | some header =>
      match loadResumeStakes parse ∅ t.resumeStakes with
      | .error e => .error e
      | .ok stakes =>
          match parseStakeSnapshotRaw parse "total_staked_raw"
              (toString header.totalStakedRaw) with
          | .error e => .error e
          | .ok total =>
              match parseStakeSnapshotRaw parse "soul_supply_raw"
                  (toString header.soulSupplyRaw) with
              | .error e => .error e
              | .ok supply => .ok (some (header.lastProjectedDayUnixSeconds,
                  { stakesByAddress := stakes
                    totalStakedRaw := total
                    soulSupplyRaw := supply
                    stakersCount := header.stakersCount
                    mastersCount := header.mastersCount }))

/-- `save_stake_snapshot_resume`. The order in which a `HashMap` is walked
is unspecified and the table is keyed, so key order stands for it. -/
def saveStakeSnapshotResume (t : StakeTables) (lastProjectedDay : Int)
    (s : StakeSnapshotState) : StakeTables :=
  { t with
    resume := some
      { lastProjectedDayUnixSeconds := lastProjectedDay
        totalStakedRaw := s.totalStakedRaw
        soulSupplyRaw := s.soulSupplyRaw
        stakersCount := s.stakersCount
        mastersCount := s.mastersCount }
    resumeStakes :=
      (toPairs (· ≤ ·) s.stakesByAddress).filter fun e => decide (0 < e.2) }

/-! ## The projected chain -/

structure StakeEvent where
  eventId : Int
  kind : String
  payloadIdentity : String
  payloadFormat : Int
  tokenSymbol : Option String
  valueRaw : Option String
  address : Option String
  marketQuoteSymbol : Option String
  deriving Repr, DecidableEq

structure StakeTransaction where
  txId : Int
  blockHeight : Nat
  txIndex : Nat
  timestampUnixSeconds : Int
  hasStakeCall : Bool
  hasUnstakeCall : Bool
  hasClaimCall : Bool
  isSoulApplyInflation : Bool
  result : Option String
  events : List StakeEvent
  deriving Repr, DecidableEq

structure ChainBlock where
  height : Nat
  timestampUnixSeconds : Int
  deriving Repr, DecidableEq

/-- What is projected of the chain when a run starts. -/
structure ChainView where
  currentHeight : Nat
  blocks : List ChainBlock
  transactions : List StakeTransaction

/-- `load_stake_snapshot_cursor_timestamp`. The lateral join of a chain
without a projected block has no row, and `fetch_one` turns that into an
error; the `None` its signature allows cannot arise. -/
def loadStakeSnapshotCursorTimestamp (view : ChainView) :
    Except StakeError Int :=
  match (view.blocks.filter fun b => b.height ≤ view.currentHeight).argmax
      ChainBlock.height with
  | some b => .ok b.timestampUnixSeconds
  | none => .error .rowNotFound

/-- `ORDER BY timestamp, height, tx_index`. -/
def txOrder (a b : StakeTransaction) : Bool :=
  decide (a.timestampUnixSeconds < b.timestampUnixSeconds) ||
    (a.timestampUnixSeconds == b.timestampUnixSeconds &&
      (decide (a.blockHeight < b.blockHeight) ||
        (a.blockHeight == b.blockHeight && decide (a.txIndex ≤ b.txIndex))))

/-- The inflation result of a row's transaction, with the anomaly a missing
or undecodable one leaves behind. -/
def inflationDelta (tx : StakeTransaction) (an : StakeSnapshotAnomalies) :
    Except StakeError (Option Int × StakeSnapshotAnomalies) :=
  if tx.isSoulApplyInflation then
    match tx.result with
    | none => .ok (none, an.record
        ("missing Token.ApplyInflation SOUL result in tx " ++ toString tx.txId))
    | some result =>
        match parseCarbonIntxI64Raw "tx.result" result with
        | .ok delta => .ok (some delta, an)
        | .err reason => .ok (none, an.record ("tx " ++ toString tx.txId ++
            " Token.ApplyInflation result: " ++
            "staking snapshot projector replay failed: " ++ reason))
        | .panic => .error .panicked
  else .ok (none, an)

/-- `row.get("value_raw").map(parse).transpose()`. -/
def loadValueRaw (parse : String → Option Int) (raw : Option String) :
    Except StakeError (Option Int) :=
  match raw with
  | none => .ok none
  | some value => (parseStakeSnapshotRaw parse "value_raw" value).map some

/-- One row of the query's answer. -/
def loadRow (parse : String → Option Int) (tx : StakeTransaction)
    (ev : StakeEvent) (an : StakeSnapshotAnomalies) :
    Except StakeError (StakeSnapshotEventRow × StakeSnapshotAnomalies) :=
  match loadValueRaw parse ev.valueRaw with
  | .error e => .error e
  | .ok value =>
      match inflationDelta tx an with
      | .error e => .error e
      | .ok (delta, an) => .ok
          ({ eventId := ev.eventId
             txId := tx.txId
             kind := ev.kind
             timestampUnixSeconds := tx.timestampUnixSeconds
             payloadIdentity := ev.payloadIdentity
             payloadFormat := ev.payloadFormat
             tokenSymbol := ev.tokenSymbol
             valueRaw := value
             address := ev.address
             marketQuoteSymbol := ev.marketQuoteSymbol
             txHasStakeCall := tx.hasStakeCall
             txHasUnstakeCall := tx.hasUnstakeCall
             txHasClaimCall := tx.hasClaimCall
             txApplyInflationResultSoulDeltaRaw := delta }, an)

/-- The mapping of the query's rows, stopping at the first error. -/
def loadRows (parse : String → Option Int) :
    List (StakeTransaction × StakeEvent) → StakeSnapshotAnomalies →
    Except StakeError (List StakeSnapshotEventRow × StakeSnapshotAnomalies)
  | [], an => .ok ([], an)
  | (tx, ev) :: rest, an =>
      match loadRow parse tx ev an with
      | .error e => .error e
      | .ok (row, an) =>
          match loadRows parse rest an with
          | .error e => .error e
          | .ok (rows, an) => .ok (row :: rows, an)

/-- The rows of the query, joined and ordered. -/
def stakeEventRows (view : ChainView) (fromTs toTs : Int) :
    List (StakeTransaction × StakeEvent) :=
  ((view.transactions.filter fun tx =>
      decide (fromTs ≤ tx.timestampUnixSeconds) &&
        decide (tx.timestampUnixSeconds ≤ toTs)).mergeSort txOrder).flatMap
    fun tx => tx.events.map fun ev => (tx, ev)

/-- `load_stake_snapshot_events`. -/
def loadStakeSnapshotEvents (parse : String → Option Int) (view : ChainView)
    (fromTs toTs : Int) (an : StakeSnapshotAnomalies) :
    Except StakeError (List StakeSnapshotEventRow × StakeSnapshotAnomalies) :=
  loadRows parse (stakeEventRows view fromTs toTs) an

/-! ## The forward projector -/

/-- `STAKE_SNAPSHOT_PROJECTOR_SOURCE`. -/
def stakeSnapshotProjectorSource : String := "staking-snapshot-projector.v1"

/-- `load_max_projected_daily_day`. -/
def loadMaxProjectedDailyDay (t : StakeTables) : Option Int :=
  ((t.dailies.filter fun r => r.source == stakeSnapshotProjectorSource).map
    fun r => r.point.dateUnixSeconds).max?

/-- One statement of `upsert_stake_snapshot_daily_points`. -/
def upsertDailyPoint (rows : List DailyRow) (p : StakeSnapshotDailyPoint) :
    List DailyRow :=
  if rows.any fun r => r.point.dateUnixSeconds == p.dateUnixSeconds then
    rows.map fun r =>
      if r.point.dateUnixSeconds = p.dateUnixSeconds then
        ⟨p, stakeSnapshotProjectorSource⟩
      else r
  else rows ++ [⟨p, stakeSnapshotProjectorSource⟩]

structure StakeForwardBuildReport where
  boundaryDayUnixSeconds : Int
  boundaryMastersCount : Int
  validated : Bool
  dailyUpserted : Nat
  resumedFromDayUnixSeconds : Option Int
  skippedReason : Option String
  anomalies : StakeSnapshotAnomalies
  deriving Repr, DecidableEq

/-- The report of a run that builds nothing. -/
def skipReport (boundaryDay boundaryMasters : Int) (reason : String) :
    StakeForwardBuildReport where
  boundaryDayUnixSeconds := boundaryDay
  boundaryMastersCount := boundaryMasters
  validated := false
  dailyUpserted := 0
  resumedFromDayUnixSeconds := none
  skippedReason := some reason
  anomalies := .none

/-- Where the replay starts: at the persisted state when it stands exactly
one day before the last built day and after the seed, at the seed
otherwise. -/
def replayStart (boundaryDay : Int) (boundaryState : StakeSnapshotState)
    (resume : Option (Int × StakeSnapshotState)) (lastBuiltDay : Option Int) :
    Int × StakeSnapshotState × Option Int :=
  match resume, lastBuiltDay with
  | some (resumeDay, resumeState), some lastBuiltDay =>
      if resumeDay + secondsPerDay = lastBuiltDay ∧ boundaryDay < resumeDay then
        (resumeDay + secondsPerDay, resumeState, some resumeDay)
      else (boundaryDay + secondsPerDay, boundaryState, none)
  | _, _ => (boundaryDay + secondsPerDay, boundaryState, none)

/-- The part of the run that builds: load the window, fold it, write the
points and, if a day was closed, the state. -/
def buildForward (parse : String → Option Int) (view : ChainView)
    (t : StakeTables) (boundaryDay boundaryMasters cursorTimestamp : Int)
    (start : Int × StakeSnapshotState × Option Int) :
    Except StakeError (StakeForwardBuildReport × StakeTables) :=
  let targetExclusiveDay := stakeSnapshotDayStart cursorTimestamp + secondsPerDay
  match loadStakeSnapshotEvents parse view start.1 cursorTimestamp .none with
  | .error e => .error e
  | .ok (rows, an) =>
      let built := buildStakeSnapshotDailyPoints start.2.1 rows start.1
        targetExclusiveDay an
      let t' := { t with dailies := built.1.foldl upsertDailyPoint t.dailies }
      let t'' :=
        match built.2.1 with
        | some (closedDay, state) => saveStakeSnapshotResume t' closedDay state
        | none => t'
      .ok ({ boundaryDayUnixSeconds := boundaryDay
             boundaryMastersCount := boundaryMasters
             validated := true
             dailyUpserted := built.1.length
             resumedFromDayUnixSeconds := start.2.2
             skippedReason := none
             anomalies := built.2.2 }, t'')

/-- `project_stake_snapshots_forward_in_tx`. -/
def projectStakeSnapshotsForwardInTx (parse : String → Option Int)
    (view : ChainView) (t : StakeTables) :
    Except StakeError (StakeForwardBuildReport × StakeTables) :=
  match loadStakeBoundarySlice parse t with
  | .error e => .error e
  | .ok none => .ok (skipReport 0 0
      "stake seed not captured; run capture_stake_boundary_slice first", t)
  | .ok (some (boundaryDay, boundaryState)) =>
      match loadStakeSnapshotCursorTimestamp view with
      | .error e => .error e
      | .ok cursorTimestamp =>
          let cursorDay := stakeSnapshotDayStart cursorTimestamp
          if cursorDay + secondsPerDay ≤ boundaryDay + secondsPerDay then
            .ok (skipReport boundaryDay boundaryState.mastersCount
              "boundary is already at the tip; nothing to build", t)
          else if (loadMaxProjectedDailyDay t).any
              fun lastBuiltDay => decide (cursorDay ≤ lastBuiltDay) then
            .ok (skipReport boundaryDay boundaryState.mastersCount
              "curve already built through the tip; nothing to rebuild", t)
          else
            match loadStakeSnapshotResume parse t with
            | .error e => .error e
            | .ok resume =>
                buildForward parse view t boundaryDay
                  boundaryState.mastersCount cursorTimestamp
                  (replayStart boundaryDay boundaryState resume
                    (loadMaxProjectedDailyDay t))

/-- `project_stake_snapshots_forward`: the tables after the run, which are
the tables before it unless the transaction committed. -/
def projectStakeSnapshotsForward (parse : String → Option Int)
    (view : ChainView) (t : StakeTables) : StakeTables :=
  match projectStakeSnapshotsForwardInTx parse view t with
  | .ok (_, t') => t'
  | .error _ => t

end Explorer.Ref
