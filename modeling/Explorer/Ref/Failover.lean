import Explorer.Lib.Json
import Explorer.Ref.Rust

/-!
# Failover and the metadata it feeds (`crates/rpc/src/lib.rs`, the driver)

A call goes round the endpoints, from a slot that a counter shared by every
caller hands out, and takes the first answer. A round that fails is judged by
the last error it met: a transport error is worth another round, any other is
final. The metadata jobs write an error object over a token or a series that
the node cannot resolve, and such a row is not asked for again.

What the endpoints answer is a function of the round and of the endpoint, so
timeouts and backoff, which only shape the answers, are passed over. So is what
the counter gives in each round, since other callers advance it in between.
-/

namespace Explorer.Ref

open Explorer.Lib

/-- `PhantasmaError` of the SDK, by its text: a failure of the transport, or
anything else. -/
inductive PhantasmaError where
  | http (text : String)
  | other (text : String)
deriving DecidableEq

inductive RpcError where
  | missingRpcEndpoints
  | sdk (error : PhantasmaError)
  | json (target : String)
  | unterminatedPagination (endpoint address : String) (pages : Nat)
deriving DecidableEq

def PhantasmaError.toText : PhantasmaError → String
  | .http text => text
  | .other text => text

/-- The `Display` of the errors. -/
def RpcError.toText : RpcError → String
  | .missingRpcEndpoints =>
      "at least one Phantasma JSON-RPC endpoint must be configured"
  | .sdk error => "Phantasma SDK RPC call failed: " ++ error.toText
  | .json target => "SDK JSON-RPC result could not be decoded as " ++ target
  | .unterminatedPagination endpoint address pages =>
      endpoint ++ " did not end its cursor pagination for " ++ address ++
        " after " ++ toString pages ++ " pages"

def isTransientRpcError : RpcError → Bool
  | .sdk (.http _) => true
  | _ => false

section Failover

variable {α : Type}

/-- The loop of `try_endpoints_once` over the endpoints that are left. -/
def tryEndpoints (call : Nat → Except RpcError α) :
    Option RpcError → List Nat → Except RpcError α
  | lastError, [] => .error (lastError.getD .missingRpcEndpoints)
  | _, endpoint :: rest =>
      match call endpoint with
      | .ok value => .ok value
      | .error error => tryEndpoints call (some error) rest

/-- `endpoints[(start + offset) % endpoints.len()]` for each offset. -/
def endpointOrder (endpoints start : Nat) : List Nat :=
  (List.range endpoints).map fun offset => (start + offset) % endpoints

def tryEndpointsOnce (endpoints start : Nat)
    (call : Nat → Except RpcError α) : Except RpcError α :=
  tryEndpoints call none (endpointOrder endpoints start)

/-- What a call came to, and the rounds it took. -/
structure Failover (α : Type) where
  result : Except RpcError α
  rounds : Nat

/-- The loop of `run_failover` with `left` attempts to go: round `attempt`
starts where `starts` says and is answered by `call`. -/
def failoverRounds (endpoints : Nat) (starts : Nat → Nat)
    (call : Nat → Nat → Except RpcError α) :
    Option RpcError → Nat → Nat → Failover α
  | lastError, attempt, 0 =>
      ⟨.error (lastError.getD .missingRpcEndpoints), attempt⟩
  | _, attempt, left + 1 =>
      match tryEndpointsOnce endpoints (starts attempt) (call attempt) with
      | .ok value => ⟨.ok value, attempt + 1⟩
      | .error error =>
          if isTransientRpcError error then
            failoverRounds endpoints starts call (some error) (attempt + 1) left
          else ⟨.error error, attempt + 1⟩

/-- `run_failover`, with `MAX_RPC_ATTEMPTS` rounds for the metadata calls and
`BLOCK_FETCH_MAX_ATTEMPTS` for blocks. -/
def runFailover (endpoints attempts : Nat) (starts : Nat → Nat)
    (call : Nat → Nat → Except RpcError α) : Failover α :=
  failoverRounds endpoints starts call none 0 attempts

def maxRpcAttempts : Nat := 4

end Failover

/-! ## The metadata of NFTs -/

structure NftRpcMetadataUpsert where
  symbol : String
  tokenId : String
  seriesId : Option String
  creatorAddress : Option String
  mintNumber : Option Int
  mintDateUnixSeconds : Option Int
  rom : Option String
  ram : Option String
  name : Option String
  description : Option String
  image : Option String
  infoUrl : Option String
  metadata : Json
  chainApiResponse : Json

def nftErrorToMetadataUpsert (symbol tokenId : String) (error : RpcError) :
    NftRpcMetadataUpsert where
  symbol := symbol
  tokenId := tokenId
  seriesId := none
  creatorAddress := none
  mintNumber := none
  mintDateUnixSeconds := none
  rom := none
  ram := none
  name := none
  description := none
  image := none
  infoUrl := none
  metadata := .object []
  chainApiResponse := .object
    [("error", .str error.toText), ("method", .str "getNFT"),
      ("symbol", .str symbol), ("tokenId", .str tokenId)]

def recordNftMetadataFetchFailure (upserts : List NftRpcMetadataUpsert)
    (symbol tokenId : String) (error : RpcError) : List NftRpcMetadataUpsert :=
  if isTransientRpcError error then upserts
  else upserts ++ [nftErrorToMetadataUpsert symbol tokenId error]

/-! ## The metadata of series -/

structure SeriesRpcMetadataCandidate where
  symbol : String
  seriesId : String

structure SeriesRpcMetadataUpsert where
  symbol : String
  seriesId : String
  currentSupply : Option Int
  maxSupply : Option Int
  mode : Option String
  creatorAddress : Option String
  name : Option String
  description : Option String
  image : Option String
  royalties : Option Int
  seriesType : Option Int
  hasLocked : Option Bool
  metadata : Json
  chainApiResponse : Json

def seriesErrorToMetadataUpsert (candidate : SeriesRpcMetadataCandidate)
    (error : RpcError) : SeriesRpcMetadataUpsert where
  symbol := candidate.symbol
  seriesId := candidate.seriesId
  currentSupply := none
  maxSupply := none
  mode := none
  creatorAddress := none
  name := none
  description := none
  image := none
  royalties := none
  seriesType := none
  hasLocked := none
  metadata := .object []
  chainApiResponse := .object
    [("error", .str error.toText), ("method", .str "getTokenSeriesById"),
      ("symbol", .str candidate.symbol), ("seriesId", .str candidate.seriesId)]

/-- The loop body of `fetch_series_rpc_metadata`, on what
`get_token_series_by_id` gave for the candidate. The row of a series that
resolves is `series_result_to_metadata_upsert`, a parameter here. -/
def fetchSeriesStep {σ : Type}
    (seriesResultToMetadataUpsert : String → σ → Option SeriesRpcMetadataUpsert)
    (upserts : List SeriesRpcMetadataUpsert)
    (answer : SeriesRpcMetadataCandidate × Except RpcError σ) :
    List SeriesRpcMetadataUpsert :=
  match answer.2 with
  | .ok series =>
      upserts ++ (seriesResultToMetadataUpsert answer.1.symbol series).toList
  | .error error => upserts ++ [seriesErrorToMetadataUpsert answer.1 error]

def fetchSeriesRpcMetadata {σ : Type}
    (seriesResultToMetadataUpsert : String → σ → Option SeriesRpcMetadataUpsert)
    (answers : List (SeriesRpcMetadataCandidate × Except RpcError σ)) :
    List SeriesRpcMetadataUpsert :=
  answers.foldl (fetchSeriesStep seriesResultToMetadataUpsert) []

end Explorer.Ref
