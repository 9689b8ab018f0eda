import Mathlib.Algebra.Ring.Int.Defs
import Mathlib.Data.List.Dedup
import Mathlib.Data.List.Sort

/-!
# New addresses by day (`crates/db/src/reads/address_stats.rs`)

`new_address_dailies` is one query. It groups the first transactions of a
chain's addresses by day, fills the days between the first of them and the
later of the last and today, sums the counts up along the days, and cuts off
the days before the one that an `OFFSET` subquery names. Integer division
truncates, and a comparison with the `NULL` of an empty subquery does not
hold.
-/

namespace Explorer.Ref

/-- A row of `addresses`, with what the query reads of it. -/
structure FirstTxRow where
  chainId : Int
  address : Option String
  firstTxUnixSeconds : Option Int
  deriving Repr, DecidableEq

/-- `(seconds / 86400) * 86400`. -/
def dayUnixSeconds (seconds : Int) : Int := seconds.tdiv 86400 * 86400

/-- A row of `totals`, as the response has it. -/
structure NewAddressDaily where
  dayUnixSeconds : Int
  newAddressesCount : Int
  cumulativeAddressesCount : Int
  deriving Repr, DecidableEq

/-- The rows that `daily` groups: `address != 'NULL'` leaves out a row without
an address as well. -/
def firstTxTimes (chainId : Int) (rows : List FirstTxRow) : List Int :=
  rows.filterMap fun row =>
    if row.chainId = chainId ∧ row.address.any (fun a => a != "NULL") then
      row.firstTxUnixSeconds
    else none

namespace NewAddressDailies

/-- `daily`: the days, each once, and their counts. -/
def daily (times : List Int) : List (Int × Int) :=
  (times.map dayUnixSeconds).dedup.map fun day =>
    (day, ((times.map dayUnixSeconds).count day : Int))

/-- `generate_series` with a positive step. -/
def generateSeries (start stop step : Int) : List Int :=
  (List.range ((stop - start) / step + 1).toNat).map fun i : Nat =>
    start + i * step

/-- `expanded`, from the bounds; `GREATEST` is taken where there is a first
day. -/
def expanded (daily : List (Int × Int)) (now : Int) : List Int :=
  match (daily.map Prod.fst).min?, (daily.map Prod.fst).max? with
  | some first, some last =>
      generateSeries first (max last (dayUnixSeconds now)) 86400
  | _, _ => []

/-- `COALESCE(daily.new_addresses_count, 0)`, over the left join. -/
def newAddressesCount (daily : List (Int × Int)) (day : Int) : Int :=
  (daily.lookup day).getD 0

/-- `totals`: the window sums the days up to the row's own. -/
def totals (daily : List (Int × Int)) (expanded : List Int) :
    List NewAddressDaily :=
  expanded.map fun day =>
    { dayUnixSeconds := day
      newAddressesCount := newAddressesCount daily day
      cumulativeAddressesCount :=
        ((expanded.filter fun d => d ≤ day).map (newAddressesCount daily)).sum }

/-- The subquery: `ORDER BY … DESC OFFSET … LIMIT 1`. -/
def cutDay (totals : List NewAddressDaily) (dailyLimit : Int) : Option Int :=
  (((totals.insertionSort fun a b => b.dayUnixSeconds ≤ a.dayUnixSeconds).drop
    (max (dailyLimit - 1) 0).toNat).head?).map NewAddressDaily.dayUnixSeconds

end NewAddressDailies

open NewAddressDailies in
/-- `new_address_dailies`, at the time `now`. -/
def newAddressDailies (rows : List FirstTxRow) (now chainId dailyLimit : Int) :
    List NewAddressDaily :=
  let daily := daily (firstTxTimes chainId rows)
  let totals := totals daily (expanded daily now)
  (totals.filter fun t =>
    decide (dailyLimit = 0) ||
      (cutDay totals dailyLimit).any fun day => decide (day ≤ t.dayUnixSeconds)
    ).insertionSort fun a b => a.dayUnixSeconds ≤ b.dayUnixSeconds

end Explorer.Ref
