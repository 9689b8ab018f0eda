import Explorer.Lib.FiniteMap
import Explorer.Ref.Rust
import Mathlib.Data.List.SplitBy
import Mathlib.Data.String.Basic

/-!
# The stake replay (`crates/db/src/staking.rs`)

The Soul-Masters curve is a fold over stake events: a `StakeSnapshotState`
is carried transaction by transaction, forwards to build the daily points
and backwards to capture the seed. This file is the fold; the tables it
reads and writes are in `StakeTables.lean`.

Big integers are `Int`. The two counters are `i32` in the source and `Int`
here: a counter is bounded by the number of address rows, and `addresses.id`
is itself an `i32`. The event kind stays a string, because the
de-duplication key is built from its text. None of the replay functions can
fail (`Result` is only ever `Ok`), so they return plain values, with the
anomaly collector passed through explicitly.
-/

namespace Explorer.Ref

open Explorer.Lib

/-- `stakes_by_address`. -/
abbrev Stakes := Finmap fun _ : String => Int

structure StakeSnapshotState where
  stakesByAddress : Stakes
  totalStakedRaw : Int
  soulSupplyRaw : Int
  stakersCount : Int
  mastersCount : Int
  deriving DecidableEq

structure StakeSnapshotEventRow where
  eventId : Int
  txId : Int
  kind : String
  timestampUnixSeconds : Int
  payloadIdentity : String
  payloadFormat : Int
  tokenSymbol : Option String
  valueRaw : Option Int
  address : Option String
  marketQuoteSymbol : Option String
  txHasStakeCall : Bool
  txHasUnstakeCall : Bool
  txHasClaimCall : Bool
  txApplyInflationResultSoulDeltaRaw : Option Int
  deriving Repr, DecidableEq

structure StakeSnapshotDailyPoint where
  dateUnixSeconds : Int
  stakedSoulRaw : String
  soulSupplyRaw : String
  stakersCount : Int
  mastersCount : Int
  capturedAtUnixSeconds : Int
  deriving Repr, DecidableEq

inductive StakeSnapshotTxKind where
  | normal
  | marketEvent
  | smReward
  | stakeReward
  deriving Repr, DecidableEq

/-- What the replay had to clamp to finish. -/
structure StakeSnapshotAnomalies where
  count : Nat
  samples : List String
  deriving Repr, DecidableEq

/-- `StakeSnapshotAnomalies::default`. -/
def StakeSnapshotAnomalies.none : StakeSnapshotAnomalies := ⟨0, []⟩

/-- `StakeSnapshotAnomalies::MAX_SAMPLES`. -/
def maxSamples : Nat := 5

/-- `StakeSnapshotAnomalies::record`. -/
def StakeSnapshotAnomalies.record (a : StakeSnapshotAnomalies)
    (reason : String) : StakeSnapshotAnomalies where
  count := satAdd32 a.count 1
  samples :=
    if a.samples.length < maxSamples then a.samples ++ [reason] else a.samples

/-- `StakeSnapshotAnomalies::is_empty`. -/
def StakeSnapshotAnomalies.isEmpty (a : StakeSnapshotAnomalies) : Bool :=
  a.count == 0

/-- `STAKE_SNAPSHOT_SECONDS_PER_DAY`. -/
def secondsPerDay : Int := 86400

/-- `stake_snapshot_master_threshold`. -/
def masterThreshold : Int := 5000000000000

/-- `stake_snapshot_day_start`; `rem_euclid` is `Int.emod`. -/
def stakeSnapshotDayStart (unixSeconds : Int) : Int :=
  unixSeconds - unixSeconds % secondsPerDay

/-- `stake_snapshot_day_end`. -/
def stakeSnapshotDayEnd (dayStart : Int) : Int := dayStart + secondsPerDay - 1

/-! ## One transaction -/

/-- The de-duplication key, as the text it is. -/
def dedupKey (row : StakeSnapshotEventRow) : String :=
  row.kind ++ "|" ++ row.payloadIdentity ++ "|" ++ row.address.getD ""

/-- `LEGACY_BACKFILL_PAYLOAD_FORMAT`. -/
def legacyBackfillPayloadFormat : Int := 1

/-- The loop of `deduplicate_stake_snapshot_tx_rows`, on the keys seen. -/
def dedupFrom (seen : List String) :
    List StakeSnapshotEventRow → List StakeSnapshotEventRow
  | [] => []
  | row :: rows =>
      if row.payloadFormat ≠ legacyBackfillPayloadFormat then
        row :: dedupFrom seen rows
      else if dedupKey row ∈ seen then dedupFrom seen rows
      else row :: dedupFrom (dedupKey row :: seen) rows

/-- `deduplicate_stake_snapshot_tx_rows`. -/
def deduplicateStakeSnapshotTxRows (rows : List StakeSnapshotEventRow) :
    List StakeSnapshotEventRow := dedupFrom [] rows

/-- `classify_stake_snapshot_transaction`. -/
def classifyStakeSnapshotTransaction (rows : List StakeSnapshotEventRow) :
    StakeSnapshotTxKind :=
  let hasStakeCall := rows.any (·.txHasStakeCall)
  let hasUnstakeCall := rows.any (·.txHasUnstakeCall)
  let hasClaimCall := rows.any (·.txHasClaimCall)
  if rows.any fun row => row.kind == "TokenMint" && isSoul row.tokenSymbol then
    .smReward
  else if hasClaimCall && !hasStakeCall && !hasUnstakeCall then .stakeReward
  else if rows.any fun row => isSoul row.marketQuoteSymbol then .marketEvent
  else .normal

/-- The stake the map holds for an address. -/
def StakeSnapshotState.stakeOf (s : StakeSnapshotState) (address : String) :
    Int := (s.stakesByAddress.lookup address).getD 0

/-- `new_value`, clamped: the most the chain could have released is what the
replay believes was staked. -/
def clampedStake (old delta : Int) : Int :=
  if old + delta < 0 then 0 else old + delta

/-- `1` or `-1` as a condition starts or stops holding, `0` otherwise. -/
def crossing (was is : Bool) : Int :=
  if was != is then (if is then 1 else -1) else 0

/-- The total before its own clamp. -/
def StakeSnapshotState.movedTotal (s : StakeSnapshotState) (address : String)
    (delta : Int) : Int :=
  s.totalStakedRaw +
    (clampedStake (s.stakeOf address) delta - s.stakeOf address)

/-- The state part of `apply_stake_snapshot_stake_delta`, past the address
check. -/
def StakeSnapshotState.moveStake (s : StakeSnapshotState) (address : String)
    (delta : Int) : StakeSnapshotState :=
  let old := s.stakeOf address
  let new := clampedStake old delta
  { s with
    stakersCount := s.stakersCount + crossing (decide (0 < old)) (decide (0 < new))
    mastersCount := s.mastersCount +
      crossing (decide (masterThreshold ≤ old)) (decide (masterThreshold ≤ new))
    totalStakedRaw :=
      if s.movedTotal address delta < 0 then 0 else s.movedTotal address delta
    stakesByAddress :=
      if new = 0 then s.stakesByAddress.erase address
      else s.stakesByAddress.insert address new }

/-- The anomaly part of `apply_stake_snapshot_stake_delta`, past the address
check: the negative stake first, the negative total after it. -/
def stakeDeltaAnomalies (s : StakeSnapshotState)
    (an : StakeSnapshotAnomalies) (row : StakeSnapshotEventRow)
    (address : String) (delta : Int) : StakeSnapshotAnomalies :=
  let an' :=
    if s.stakeOf address + delta < 0 then
      an.record ("negative staked amount for address " ++ address ++
        " at event " ++ toString row.eventId ++ ": " ++
        toString (s.stakeOf address) ++ " + " ++ toString delta ++
        " clamped to 0")
    else an
  if s.movedTotal address delta < 0 then
    an'.record ("negative total staked amount at event " ++
      toString row.eventId ++ " clamped to 0")
  else an'

/-- The address a stake row counts for: present and not blank. -/
def usableStakeAddress (row : StakeSnapshotEventRow) : Option String :=
  row.address.filter fun a => !isBlank a

/-- `apply_stake_snapshot_stake_delta`. -/
def applyStakeSnapshotStakeDelta (s : StakeSnapshotState)
    (an : StakeSnapshotAnomalies) (row : StakeSnapshotEventRow)
    (delta : Int) : StakeSnapshotState × StakeSnapshotAnomalies :=
  match usableStakeAddress row with
  | none =>
      (s, an.record ("empty address in staking event " ++ toString row.eventId))
  | some address =>
      (s.moveStake address delta, stakeDeltaAnomalies s an row address delta)

/-- The four kinds the replay acts on. -/
inductive TokenEventKind where
  | stake
  | claim
  | mint
  | burn
  deriving Repr, DecidableEq

/-- `matches!(row.kind.as_str(), "TokenStake" | ...)`. -/
def tokenEventKind (kind : String) : Option TokenEventKind :=
  if kind = "TokenStake" then some .stake
  else if kind = "TokenClaim" then some .claim
  else if kind = "TokenMint" then some .mint
  else if kind = "TokenBurn" then some .burn
  else none

/-- What is fixed before the row loop of a transaction starts. -/
structure TxContext where
  kind : StakeSnapshotTxKind
  inflation : Option Int
  reverse : Bool

/-- The loop's variables. -/
structure ReplayLoop where
  state : StakeSnapshotState
  anomalies : StakeSnapshotAnomalies
  applied : Bool

/-- `soul_supply_raw += delta`, or `-=` for `sign = -1`: the inflation
result once per transaction, the row's own value when there is none. -/
def ReplayLoop.moveSupply (l : ReplayLoop) (inflation : Option Int)
    (sign value : Int) : ReplayLoop :=
  match inflation with
  | some delta =>
      if l.applied then l
      else
        { l with
          state := { l.state with
            soulSupplyRaw := l.state.soulSupplyRaw + sign * delta }
          applied := true }
  | none =>
      { l with state := { l.state with
          soulSupplyRaw := l.state.soulSupplyRaw + sign * value } }

/-- The check after a subtraction from the supply. The addition branch has
none. -/
def ReplayLoop.clampSupply (l : ReplayLoop) (reverse : Bool)
    (row : StakeSnapshotEventRow) : ReplayLoop :=
  if l.state.soulSupplyRaw < 0 then
    { l with
      anomalies := l.anomalies.record ("negative SOUL supply after " ++
        (if reverse then "reverse" else "forward") ++ " event " ++
        toString row.eventId ++ " clamped to 0")
      state := { l.state with soulSupplyRaw := 0 } }
  else l

/-- A stake delta inside the loop. -/
def ReplayLoop.stakeDelta (l : ReplayLoop) (row : StakeSnapshotEventRow)
    (delta : Int) : ReplayLoop :=
  let r := applyStakeSnapshotStakeDelta l.state l.anomalies row delta
  { l with state := r.1, anomalies := r.2 }

/-- The rows the loop acts on: a token kind, a positive value in SOUL, and
no stake or claim inside a transaction that is not a principal change. -/
def counted (txKind : StakeSnapshotTxKind) (row : StakeSnapshotEventRow) :
    Option (TokenEventKind × Int) :=
  match tokenEventKind row.kind, row.valueRaw with
  | some kind, some value =>
      if !isSoul row.tokenSymbol then none
      else if value ≤ 0 then none
      else if txKind ≠ .normal ∧ (kind = .stake ∨ kind = .claim) then none
      else some (kind, value)
  | _, _ => none

/-- The body of the row loop. -/
def applyRow (ctx : TxContext) (l : ReplayLoop)
    (row : StakeSnapshotEventRow) : ReplayLoop :=
  match counted ctx.kind row with
  | none => l
  | some (kind, value) =>
      match kind, ctx.reverse with
      | .stake, false | .claim, true => l.stakeDelta row value
      | .stake, true | .claim, false => l.stakeDelta row (-value)
      | .mint, false | .burn, true => l.moveSupply ctx.inflation 1 value
      | .mint, true | .burn, false =>
          (l.moveSupply ctx.inflation (-1) value).clampSupply ctx.reverse row

/-- The classification and the inflation result of a transaction. -/
def txContext (rows : List StakeSnapshotEventRow) (reverse : Bool) :
    TxContext where
  kind := classifyStakeSnapshotTransaction rows
  inflation := rows.findSome? (·.txApplyInflationResultSoulDeltaRaw)
  reverse := reverse

/-- A state with the anomalies met on the way to it. -/
abbrev Replay := StakeSnapshotState × StakeSnapshotAnomalies

/-- `apply_stake_snapshot_transaction`. -/
def applyStakeSnapshotTransaction (r : Replay)
    (rows : List StakeSnapshotEventRow) (reverse : Bool) : Replay :=
  let l := rows.foldl (applyRow (txContext rows reverse)) ⟨r.1, r.2, false⟩
  (l.state, l.anomalies)

/-! ## Transactions in order -/

/-- Neighbouring rows of one transaction. -/
def sameTx (a b : StakeSnapshotEventRow) : Bool := a.txId == b.txId

/-- The transaction groups the forward loop meets. -/
def txGroups (rows : List StakeSnapshotEventRow) :
    List (List StakeSnapshotEventRow) := rows.splitBy sameTx

/-- The transaction groups the reverse loop meets: it scans from the end of
the rows, but hands every group on in row order. -/
def txGroupsFromEnd (rows : List StakeSnapshotEventRow) :
    List (List StakeSnapshotEventRow) :=
  (rows.reverse.splitBy sameTx).map List.reverse

/-- One group through the de-duplication and the transaction. -/
def replayGroup (reverse : Bool) (r : Replay)
    (group : List StakeSnapshotEventRow) : Replay :=
  applyStakeSnapshotTransaction r (deduplicateStakeSnapshotTxRows group) reverse

/-- Groups replayed one after the other. -/
def replayGroups (reverse : Bool) (r : Replay)
    (groups : List (List StakeSnapshotEventRow)) : Replay :=
  groups.foldl (replayGroup reverse) r

/-- Rows replayed forwards, transaction group by transaction group. -/
def forwardReplay (r : Replay) (rows : List StakeSnapshotEventRow) : Replay :=
  replayGroups false r (txGroups rows)

/-- `reverse_replay_stake_snapshot_events`. -/
def reverseReplayStakeSnapshotEvents (r : Replay)
    (rows : List StakeSnapshotEventRow) : Replay :=
  replayGroups true r (txGroupsFromEnd rows)

/-! ## Daily points -/

/-- The timestamp of a group is that of its first row. -/
def groupTimestamp (group : List StakeSnapshotEventRow) : Int :=
  (group.head?.map (·.timestampUnixSeconds)).getD 0

/-- The inner loop of the build: groups are taken while they start before
the day ends. -/
def takeDay (dayEnd : Int) : List (List StakeSnapshotEventRow) → Replay →
    Replay × List (List StakeSnapshotEventRow)
  | [], r => (r, [])
  | group :: rest, r =>
      if dayEnd < groupTimestamp group then (r, group :: rest)
      else takeDay dayEnd rest (replayGroup false r group)

/-- The daily point of a state. -/
def dailyPoint (day : Int) (s : StakeSnapshotState) :
    StakeSnapshotDailyPoint where
  dateUnixSeconds := day
  stakedSoulRaw := toString s.totalStakedRaw
  soulSupplyRaw := toString s.soulSupplyRaw
  stakersCount := s.stakersCount
  mastersCount := s.mastersCount
  capturedAtUnixSeconds := stakeSnapshotDayEnd day

/-- The variables of the day loop. -/
structure BuildLoop where
  replay : Replay
  groups : List (List StakeSnapshotEventRow)
  snapshots : List StakeSnapshotDailyPoint
  closed : Option (Int × StakeSnapshotState)

/-- One day of the build. -/
def buildDay (toExclusiveDay : Int) (l : BuildLoop) (day : Int) : BuildLoop :=
  let r := takeDay (stakeSnapshotDayEnd day) l.groups l.replay
  { replay := r.1
    groups := r.2
    snapshots := l.snapshots ++ [dailyPoint day r.1.1]
    closed :=
      if day + 2 * secondsPerDay = toExclusiveDay then some (day, r.1.1)
      else l.closed }

/-- The values `day_cursor` takes: from `fromDay` in steps of a day while
below `toExclusiveDay`. -/
def daysBetween (fromDay toExclusiveDay : Int) : List Int :=
  (List.range ((toExclusiveDay - fromDay + (secondsPerDay - 1)) /
    secondsPerDay).toNat).map fun i : Nat => fromDay + secondsPerDay * i

/-- `build_stake_snapshot_daily_points`: the points, the state at the last
closed day, and the anomalies. -/
def buildStakeSnapshotDailyPoints (state : StakeSnapshotState)
    (rows : List StakeSnapshotEventRow) (fromDay toExclusiveDay : Int)
    (an : StakeSnapshotAnomalies) :
    List StakeSnapshotDailyPoint × Option (Int × StakeSnapshotState) ×
      StakeSnapshotAnomalies :=
  let l := (daysBetween fromDay toExclusiveDay).foldl (buildDay toExclusiveDay)
    ⟨(state, an), txGroups rows, [], none⟩
  (l.snapshots, l.closed, l.replay.2)

end Explorer.Ref
