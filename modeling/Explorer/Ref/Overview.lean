import Explorer.Lib.Threads
import Explorer.Ref.OffsetLists

/-!
# The overview counters (`overview_stats` in `crates/http-api/src/handlers.rs`)

Requests share a cache under a mutex and one lock, `overview_flight`, that
is held across the count. Between any two of its awaits and critical sections
a request can be overtaken by others, and at an await its handler can be
dropped, which is what a client that goes away does; the guard of the lock goes
with it.

What the queries of `overview_counts` return is the action's, and so is what
the lookup of the chain does: its errors are dropped. `Instant` is a count of
nanoseconds, and `elapsed` saturates. `stored` is the history of the cache,
which the code does not keep.
-/

namespace Explorer.Ref

open Explorer.Lib

structure OverviewStatsQuery where
  chain : Option String
  includeBurned : Option Int32
  includeLegacyTransactions : Option Int32
  deriving DecidableEq

structure OverviewCounts where
  transactionsTotal : Int64
  tokensTotal : Int64
  contractsTotal : Int64
  addressesTotal : Int64
  nftsBurnedTotal : Int64
  nftsUnburnedTotal : Int64
  nftOwnersTotal : Int64
  soulMastersTotal : Int64
  deriving DecidableEq

structure OverviewStatsResponse where
  chain : String
  includeBurned : Int32
  includeLegacyTransactions : Int32
  transactionsTotal : Int64
  tokensTotal : Int64
  nftsTotal : Int64
  nftsUnburnedTotal : Int64
  nftsBurnedTotal : Int64
  contractsTotal : Int64
  addressesTotal : Int64
  nftOwnersTotal : Int64
  soulMastersTotal : Int64
  deriving DecidableEq

/-- The chain and the legacy flag: the id of the chain is no part of it. -/
abbrev OverviewCacheKey := String × Int32

/-- `OVERVIEW_CACHE_TTL`, in nanoseconds. -/
def overviewCacheTtl : Nat := 60 * 10 ^ 9

/-- The parameters, with their defaults. -/
structure OverviewRequest where
  chain : String
  includeBurned : Int32
  includeLegacyTransactions : Int32
  deriving DecidableEq

def overviewRequest (defaultChain : String) (query : OverviewStatsQuery) :
    OverviewRequest where
  chain := queryChain query.chain defaultChain
  includeBurned := query.includeBurned.getD 0
  includeLegacyTransactions := query.includeLegacyTransactions.getD 1

/-- The checks before the first await. -/
def OverviewRequest.refusal (r : OverviewRequest) : Option ApiError :=
  if ¬(r.includeBurned = 0 ∨ r.includeBurned = 1) then
    some (.badRequest "include_burned must be 0 or 1")
  else if ¬(r.includeLegacyTransactions = 0 ∨
      r.includeLegacyTransactions = 1) then
    some (.badRequest "include_legacy_transactions must be 0 or 1")
  else none

def OverviewRequest.cacheKey (r : OverviewRequest) : OverviewCacheKey :=
  (r.chain, r.includeLegacyTransactions)

/-- The answer from the counts. -/
def overviewResponse (r : OverviewRequest) (counts : OverviewCounts) :
    OverviewStatsResponse where
  chain := r.chain
  includeBurned := r.includeBurned
  includeLegacyTransactions := r.includeLegacyTransactions
  transactionsTotal := counts.transactionsTotal
  tokensTotal := counts.tokensTotal
  nftsTotal :=
    if r.includeBurned = 1 then
      counts.nftsBurnedTotal + counts.nftsUnburnedTotal
    else counts.nftsUnburnedTotal
  nftsUnburnedTotal := counts.nftsUnburnedTotal
  nftsBurnedTotal := counts.nftsBurnedTotal
  contractsTotal := counts.contractsTotal
  addressesTotal := counts.addressesTotal
  nftOwnersTotal := counts.nftOwnersTotal
  soulMastersTotal := counts.soulMastersTotal

/-- A count that went into the cache: the arguments of `overview_counts`, when
it was begun, and when it was put in. -/
structure OverviewStored where
  key : OverviewCacheKey
  chainId : Option Int32
  started : Nat
  storedAt : Nat
  counts : OverviewCounts

/-- What the requests share. -/
structure OverviewState where
  now : Nat
  cache : OverviewCacheKey → Option (Nat × OverviewCounts)
  flight : Bool
  stored : List OverviewStored

/-- `guard.get(&cache_key)`, filtered by its age. -/
def OverviewState.fresh (s : OverviewState) (key : OverviewCacheKey) :
    Option OverviewCounts :=
  ((s.cache key).filter fun e => decide (s.now - e.1 < overviewCacheTtl)).map
    fun e => e.2

/-- How a request ends. -/
inductive OverviewEnd where
  | answered (counts : OverviewCounts)
  | refused (error : ApiError)
  | failed
  | dropped
  deriving DecidableEq

/-- Where a request stands. From `rechecking` to `leaving` it has the flight
lock. -/
inductive OverviewPhase where
  | resolving
  | looking (chainId : Option Int32)
  | waiting (chainId : Option Int32)
  | rechecking (chainId : Option Int32)
  | counting (chainId : Option Int32) (started : Nat)
  | storing (chainId : Option Int32) (started : Nat) (counts : OverviewCounts)
  | leaving (result : OverviewEnd)
  | ended (result : OverviewEnd)
  deriving DecidableEq

structure OverviewThread where
  request : OverviewRequest
  phase : OverviewPhase
  deriving DecidableEq

/-- The body of a 200. -/
def OverviewThread.response (t : OverviewThread) :
    Option OverviewStatsResponse :=
  match t.phase with
  | .ended (.answered counts) => some (overviewResponse t.request counts)
  | _ => none

inductive OverviewAct where
  | resolved (chainId : Option Int32)
  | look
  | acquire
  | counted (result : Except Unit OverviewCounts)
  | store
  | release
  | drop
  deriving DecidableEq

/-- A request that the checks refuse has ended when it comes. -/
def OverviewThread.arrive (defaultChain : String) (query : OverviewStatsQuery) :
    OverviewThread :=
  let request := overviewRequest defaultChain query
  match request.refusal with
  | some error => ⟨request, .ended (.refused error)⟩
  | none => ⟨request, .resolving⟩

/-- The insert, with `Instant::now()` taken under the lock of the cache. -/
def OverviewState.store (s : OverviewState) (key : OverviewCacheKey)
    (chainId : Option Int32) (started : Nat) (counts : OverviewCounts) :
    OverviewState :=
  { s with
    cache := fun k => if k = key then some (s.now, counts) else s.cache k
    stored := s.stored ++ [⟨key, chainId, started, s.now, counts⟩] }

/-- One step of `overview_stats`. -/
def overviewStep (s : OverviewState) (t : OverviewThread) :
    OverviewAct → Option (OverviewState × OverviewThread)
  | .resolved chainId =>
      match t.phase with
      | .resolving => some (s, { t with phase := .looking chainId })
      | _ => none
  | .look =>
      match t.phase with
      | .looking chainId =>
          match s.fresh t.request.cacheKey with
          | some counts => some (s, { t with phase := .ended (.answered counts) })
          | none => some (s, { t with phase := .waiting chainId })
      | .rechecking chainId =>
          match s.fresh t.request.cacheKey with
          | some counts =>
              some (s, { t with phase := .leaving (.answered counts) })
          | none => some (s, { t with phase := .counting chainId s.now })
      | _ => none
  | .acquire =>
      match t.phase with
      | .waiting chainId =>
          if s.flight then none
          else some ({ s with flight := true },
            { t with phase := .rechecking chainId })
      | _ => none
  | .counted result =>
      match t.phase with
      | .counting chainId started =>
          match result with
          | .ok counts =>
              some (s, { t with phase := .storing chainId started counts })
          | .error _ => some (s, { t with phase := .leaving .failed })
      | _ => none
  | .store =>
      match t.phase with
      | .storing chainId started counts =>
          some (s.store t.request.cacheKey chainId started counts,
            { t with phase := .leaving (.answered counts) })
      | _ => none
  | .release =>
      match t.phase with
      | .leaving result =>
          some ({ s with flight := false }, { t with phase := .ended result })
      | _ => none
  | .drop =>
      -- the awaits: the lookup, the lock and the count
      match t.phase with
      | .resolving => some (s, { t with phase := .ended .dropped })
      | .waiting _ => some (s, { t with phase := .ended .dropped })
      | .counting _ _ => some (s, { t with phase := .leaving .dropped })
      | _ => none

/-- The requests and the clock. -/
def overviewSystem (defaultChain : String) :
    ThreadSystem OverviewState OverviewThread OverviewStatsQuery OverviewAct
      Nat where
  spawn _ query := .arrive defaultChain query
  step := overviewStep
  env s elapsed := some { s with now := s.now + elapsed }

/-- No request has come yet. -/
def overviewStart : Threads OverviewState OverviewThread :=
  ⟨⟨0, fun _ => none, false, []⟩, []⟩

end Explorer.Ref
