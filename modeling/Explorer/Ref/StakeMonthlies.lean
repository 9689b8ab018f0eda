import Explorer.Lib.Months
import Explorer.Lib.Tables
import Explorer.Ref.StakeTables

/-!
# The monthly rollup of the curve (`crates/db/src/staking.rs`)

A run that builds the curve rolls it up by months in the same transaction,
from the month after the seed's to the month of the cursor. A month takes the
last daily at or before its end, whatever wrote it, so the month of the cursor
takes the cursor's day. Times are UTC, and within the range of `chrono`.
-/

namespace Explorer.Ref

open Explorer.Lib

/-- `stake_snapshot_next_month_start`. -/
def stakeSnapshotNextMonthStart (unixSeconds : Int) : Int :=
  secondsPerDay * firstDay (monthOf (unixSeconds / secondsPerDay) + 1)

/-- A row of `soul_masters_monthlies`; `(chain_id, month)` is its key. -/
structure MonthlyRow where
  monthUnixSeconds : Int
  mastersCount : Int
  capturedAtUnixSeconds : Int
  source : String
  deriving Repr, DecidableEq

/-- `month_unix_seconds`. -/
def monthUnixSeconds (month : Int) : Int := secondsPerDay * firstDay month

/-- `month_end_day_unix_seconds`. -/
def monthEndDayUnixSeconds (month : Int) : Int :=
  secondsPerDay * (firstDay (month + 1) - 1)

/-- `in_range_months`: the months from `date_trunc('month', from)` to
`date_trunc('month', to - 86400)`. -/
def inRangeMonths (fromDay toExclusiveDay : Int) : List Int :=
  let first := monthOf (fromDay / secondsPerDay)
  let last := monthOf ((toExclusiveDay - 86400) / secondsPerDay)
  ((List.range (last + 1 - first).toNat).map fun i : Nat => first + i).filter
    fun month => decide (monthUnixSeconds month < toExclusiveDay)

/-- The lateral join: the last daily at or before a day. -/
def lastDaily (dailies : List DailyRow) (day : Int) : Option DailyRow :=
  ((dailies.filter fun daily =>
      decide (daily.point.dateUnixSeconds ≤ day)).mergeSort fun a b =>
    decide (b.point.dateUnixSeconds ≤ a.point.dateUnixSeconds)).head?

/-- A row of `snapshot_rows`. -/
def monthlyRow (month : Int) (daily : DailyRow) : MonthlyRow where
  monthUnixSeconds := monthUnixSeconds month
  mastersCount := daily.point.mastersCount
  capturedAtUnixSeconds := daily.point.dateUnixSeconds + 86399
  source := stakeSnapshotProjectorSource

/-- `upsert_stake_snapshot_monthlies_from_daily`. -/
def upsertMonthliesFromDaily (dailies : List DailyRow)
    (monthlies : List MonthlyRow) (fromDay toExclusiveDay : Int) :
    List MonthlyRow :=
  ((inRangeMonths fromDay toExclusiveDay).filterMap fun month =>
      (lastDaily dailies (monthEndDayUnixSeconds month)).map
        (monthlyRow month)).foldl
    (fun rows r => upsertRow
      (fun x => x.monthUnixSeconds == r.monthUnixSeconds) r rows) monthlies

/-- `project_stake_snapshots_forward` with the months. -/
def projectWithMonthlies (parse : String → Option Int) (view : ChainView)
    (s : StakeTables × List MonthlyRow) : StakeTables × List MonthlyRow :=
  match projectStakeSnapshotsForwardInTx parse view s.1,
      loadStakeSnapshotCursorTimestamp view with
  | .ok (report, t'), .ok cursorTimestamp =>
      if report.validated then
        (t', upsertMonthliesFromDaily t'.dailies s.2
          (stakeSnapshotNextMonthStart report.boundaryDayUnixSeconds)
          (stakeSnapshotDayStart cursorTimestamp + secondsPerDay))
      else (t', s.2)
  | .ok (_, t'), .error _ => (t', s.2)
  | .error _, _ => s

end Explorer.Ref
