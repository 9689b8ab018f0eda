import Explorer.Ref.Rust

/-!
# Daily prices (`crates/ingestion/src/{driver,prices}.rs`, `crates/db/src/lib.rs`)

A pass of the price job reads the greatest stored day of the chain and asks the
price service for the days after it, symbol by symbol. The rows of a day are
written in one transaction when its symbols are through, or when the service
limits the rate.

A day is a number of days from the epoch. What a pass meets is its own: how
each of its requests is answered, which tokens there are when it writes a day,
and whether it can. A pass that is cancelled fails where it stands. The rows are
those of one chain, each with the symbol of its token, and a price is anything.
-/

namespace Explorer.Ref

/-- `PRICED_SYMBOLS`. -/
def pricedSymbols : List String :=
  ["SOUL", "KCAL", "ETH", "USDC", "DAI", "USDT", "BNB", "NEO", "GAS"]

/-- `KCAL_COINGECKO_ID`. -/
def kcalCoingeckoId : String := "phantasma-energy"

/-- `coingecko_id`. -/
def coingeckoId (symbol : String) : Option String :=
  match String.ofList (symbol.toList.map Char.toUpper) with
  | "SOUL" => some "phantasma"
  | "KCAL" => some kcalCoingeckoId
  | "ETH" => some "ethereum"
  | "USDC" => some "usd-coin"
  | "DAI" => some "dai"
  | "USDT" => some "tether"
  | "BNB" => some "binancecoin"
  | "NEO" => some "neo"
  | "GAS" => some "gas"
  | _ => none

/-- `TokenDailyPriceUpsert`, and a row of `token_daily_prices`. -/
structure DailyPrice (π : Type) where
  symbol : String
  dateUnixSeconds : Int
  priceUsd : π
  deriving DecidableEq

/-! ## What a pass meets -/

/-- What comes of one request: a `DailyCloseOutcome`, or an error. -/
inductive CloseAnswer (π : Type) where
  | price (usd : π)
  | missing
  | rateLimited
  | failed

/-- What a pass meets: the day it runs on, the answers by day and symbol, and
for each day the tokens there are when its rows are written and whether they can
be. -/
structure PricePass (π : Type) where
  today : Int
  answer : Int → String → CloseAnswer π
  tokens : Int → List String
  write : Int → Bool

section

variable {π : Type}

/-! ## The table -/

def sameDay (a b : DailyPrice π) : Bool :=
  a.symbol == b.symbol && a.dateUnixSeconds == b.dateUnixSeconds

/-- `upsert_token_daily_prices`, over the symbols that have a token: the rows it
leaves and how many it inserted. -/
def upsertTokenDailyPrices (tokens : List String)
    (rows prices : List (DailyPrice π)) : List (DailyPrice π) × Nat :=
  let resolved := prices.filter fun price => price.symbol ∈ tokens
  let updated := rows.map fun row =>
    match resolved.find? (sameDay row) with
    | some price => { row with priceUsd := price.priceUsd }
    | none => row
  let inserted := resolved.filter fun price => !rows.any (sameDay price)
  (updated ++ inserted, inserted.length)

/-- `latest_token_daily_price_date`. -/
def latestTokenDailyPriceDate : List (DailyPrice π) → Option Int
  | [] => none
  | row :: rest =>
      match latestTokenDailyPriceDate rest with
      | none => some row.dateUnixSeconds
      | some latest =>
          some (if latest ≤ row.dateUnixSeconds then row.dateUnixSeconds
            else latest)

/-! ## A pass -/

def daySeconds : Int := 86400

/-- `DateTime::from_timestamp(..)` and its date, over the range of `chrono`. -/
def dateNaive (seconds : Int) : Option Int :=
  if -8334601228800 ≤ seconds ∧ seconds ≤ 8210266876799 then
    some (seconds / daySeconds)
  else none

/-- The coin whose history is asked for: that of `KCAL` needs a paid plan. -/
def historyId (symbol : String) : Option String :=
  (coingeckoId symbol).filter fun coinId => coinId != kcalCoingeckoId

/-- The variables of the loop over the symbols. -/
structure DayLoop (π : Type) where
  dayRows : List (DailyPrice π)
  soulUsd : Option π
  rateLimited : Bool

/-- The loop over the symbols of a day; `none` where a request fails. -/
def fetchDay (pass : PricePass π) (day : Int) :
    List String → DayLoop π → Option (DayLoop π)
  | [], loop => some loop
  | symbol :: rest, loop =>
      match historyId symbol with
      | none => fetchDay pass day rest loop
      | some _ =>
          match pass.answer day symbol with
          | .failed => none
          | .rateLimited => some { loop with rateLimited := true }
          | .missing => fetchDay pass day rest loop
          | .price usd =>
              fetchDay pass day rest { loop with
                dayRows := loop.dayRows ++ [⟨symbol, day * daySeconds, usd⟩]
                soulUsd := if symbol = "SOUL" then some usd
                  else loop.soulUsd }

/-- The rows of a day, with `GOATI` pegged to `SOUL`. -/
def DayLoop.rows (loop : DayLoop π) (day : Int) : List (DailyPrice π) :=
  match loop.soulUsd with
  | some usd => loop.dayRows ++ [⟨"GOATI", day * daySeconds, usd⟩]
  | none => loop.dayRows

/-- What a pass returns: the days it processed, the rows it inserted, and
whether it is caught up; `none` for an error. -/
abbrev PassReport := Option (Nat × Nat × Bool)

/-- The loop over the days, `left` of them at most. -/
def backfillDays (pass : PricePass π) : (left : Nat) → (day : Int) →
    (daysProcessed rowsInserted : Nat) → List (DailyPrice π) →
    PassReport × List (DailyPrice π)
  | 0, day, daysProcessed, rowsInserted, rows =>
      (some (daysProcessed, rowsInserted, decide (pass.today < day)), rows)
  | left + 1, day, daysProcessed, rowsInserted, rows =>
      if pass.today < day then
        (some (daysProcessed, rowsInserted, true), rows)
      else
        match fetchDay pass day pricedSymbols ⟨[], none, false⟩ with
        | none => (none, rows)
        | some loop =>
            let dayRows := loop.rows day
            if !dayRows.isEmpty && !pass.write day then (none, rows)
            else
              let (rows, inserted) :=
                if dayRows.isEmpty then (rows, 0)
                else upsertTokenDailyPrices (pass.tokens day) rows dayRows
              if loop.rateLimited then
                (some (daysProcessed + 1, rowsInserted + inserted, false), rows)
              else
                backfillDays pass left (day + 1) (daysProcessed + 1)
                  (rowsInserted + inserted) rows

def tokenPriceDailyBackfillMaxDaysPerRun : Nat := 40

/-- `backfill_daily_prices`, from the day after the latest that is stored. -/
def backfillDailyPrices (pass : PricePass π) (rows : List (DailyPrice π)) :
    PassReport × List (DailyPrice π) :=
  match (latestTokenDailyPriceDate rows).bind dateNaive with
  | none => (some (0, 0, true), rows)
  | some latest =>
      backfillDays pass tokenPriceDailyBackfillMaxDaysPerRun (latest + 1) 0 0
        rows

end

end Explorer.Ref
