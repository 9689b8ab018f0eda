import Explorer.Lib.Tables
import Explorer.Lib.Threads
import Explorer.Ref.OffsetLists

/-!
# Rejected candidates (`crates/http-api/src/handlers.rs`)

`rejected_transactions`, with the statements of `crates/db/src/rejected.rs`. A
request looks whether the hash is canonical, then for a stored candidate, and
then asks the node, once for the transaction and once for its block, and
stores what it said. No two of these are in one transaction, and no lock keeps
two requests for one hash apart: the worker indexes blocks in between, other
requests store the same candidate, and the clock is read before the upsert
waits for a connection, so the later write may carry the earlier time.

What the node says is the action's. `rejected_transaction_candidates` has no
other writer. `transactions`, `blocks` and `captures` are histories, which the
code does not keep: what the node has said so far, and what was stored.
-/

namespace Explorer.Ref

open Explorer.Lib

/-! ## Parameters -/

/-- `RejectedTransactionListQuery`. -/
structure RejectedTransactionListQuery where
  hash : Option String
  chain : Option String
  capture : Option Int32

/-- What a request of this service reads of `ApiState`: `captures` says whether
`rejected_capture` has a client. -/
structure RejectedApi where
  chain : String
  nexus : String
  captures : Bool

/-- `is_valid_rejected_hash`. The length is of the bytes, but a text with a
character of more than one fails the second test. -/
def isValidRejectedHash (hash : String) : Bool :=
  byteLen hash.toList == 64 &&
    hash.toList.all fun byte => (hexDigit byte).isSome

/-- `is_ascii_lowercase() || is_ascii_digit()`. -/
def isLowerOrDigit (c : Char) : Bool :=
  (97 ≤ c.toNat && c.toNat ≤ 122) || (48 ≤ c.toNat && c.toNat ≤ 57)

/-- `is_valid_rejected_chain`. -/
def isValidRejectedChain (chain : String) : Bool :=
  match chain.toList with
  | [] => false
  | first :: chars =>
      isLowerOrDigit first && decide (byteLen chain.toList ≤ 64) &&
        chars.all fun c => isLowerOrDigit c || c == '-'

/-- The hash, the chain, and whether the node may be asked. -/
structure RejectedRequest where
  hash : String
  chain : String
  capture : Bool
  deriving DecidableEq

/-- The checks before the first await. -/
def rejectedRequest (toUppercase toLowercase : String → String)
    (api : RejectedApi) (query : RejectedTransactionListQuery) :
    Except ApiError RejectedRequest := do
  let hash := (emptyToNone query.hash).map fun value =>
    toUppercase (String.ofList (trim value.toList))
  let some hash := hash.filter isValidRejectedHash
    | .error (.badRequest "Unsupported value for 'hash' parameter.")
  let capture := decide (query.capture.getD 1 = 1) && api.captures
  match emptyToNone query.chain with
  | some value =>
      let normalized := toLowercase (String.ofList (trim value.toList))
      if isValidRejectedChain normalized then
        .ok ⟨hash, normalized, capture⟩
      else
        .error (.badRequest "Unsupported value for 'chain' parameter.")
  | none => .ok ⟨hash, toLowercase api.chain, capture⟩

/-! ## What the node says -/

/-- The fields of `SdkTransactionResult` that are read. -/
structure CapturedTransaction where
  hash : String
  blockHash : String
  blockHeight : UInt64
  timestamp : UInt64
  state : String
  result : String
  debugComment : Option String
  payload : String
  script : String
  fee : String
  expiration : UInt64
  gasPrice : String
  gasLimit : String
  sender : String
  gasPayer : String
  gasTarget : String
  deriving DecidableEq

/-- Of `SdkBlockResult`: its hash, and the hashes of its transactions. -/
structure CapturedBlock where
  hash : String
  txs : List String
  deriving DecidableEq

/-- `SdkPayload`, with the text of the untouched answer. -/
structure SdkPayload (α : Type) where
  value : α
  rawValue : String
  deriving DecidableEq

/-! ## The table -/

structure RejectedCandidateUpsert where
  hash : String
  nexus : String
  chain : String
  blockHeight : Option Int64
  blockHash : Option String
  timestampUnixSeconds : Option Int64
  state : Option String
  result : Option String
  debugComment : Option String
  payload : Option String
  scriptRaw : Option String
  feeRaw : Option String
  expiration : Option Int64
  gasPriceRaw : Option String
  gasLimitRaw : Option String
  sender : Option String
  gasPayer : Option String
  gasTarget : Option String
  canonicalStatus : Option String
  rpcResponseJson : Option String
  blockResponseJson : Option String
  deriving DecidableEq

structure RejectedCandidateRecord extends RejectedCandidateUpsert where
  capturedAtUnixSeconds : Int64
  updatedAtUnixSeconds : Int64
  lastSeenAtUnixSeconds : Int64
  deriving DecidableEq

/-- The unique index on `(nexus, chain, hash)`. -/
def RejectedCandidateUpsert.key (c : RejectedCandidateUpsert) :
    String × String × String :=
  (c.nexus, c.chain, c.hash)

/-- The rows of `rejected_transaction_candidates`. -/
abbrev RejectedRows := List RejectedCandidateRecord

/-- `list_rejected_candidates`. -/
def listRejectedCandidates (rows : RejectedRows) (hash nexus chain : String) :
    List RejectedCandidateRecord :=
  (rows.filter fun r =>
    r.hash == hash && r.nexus == nexus && r.chain == chain).insertionSort
    fun a b => b.lastSeenAtUnixSeconds ≤ a.lastSeenAtUnixSeconds

/-- The row that `upsert_rejected_candidate` returns: the captured snapshot, at
the time it was first captured. -/
def candidateRow (rows : RejectedRows) (candidate : RejectedCandidateUpsert)
    (now : Int64) : RejectedCandidateRecord :=
  match rows.find? fun r => r.key == candidate.key with
  | some row => ⟨candidate, row.capturedAtUnixSeconds, now, now⟩
  | none => ⟨candidate, now, now, now⟩

/-- `upsert_rejected_candidate`. -/
def upsertRejectedCandidate (rows : RejectedRows)
    (candidate : RejectedCandidateUpsert) (now : Int64) :
    RejectedRows × RejectedCandidateRecord :=
  let row := candidateRow rows candidate now
  (upsertRow (fun r => r.key == candidate.key) row rows, row)

/-! ## The capture -/

/-- `non_empty_owned`. -/
def nonEmptyOwned (value : String) : Option String :=
  nonEmptyString value

/-- `(value > 0).then_some(value as i64)`. -/
def positiveI64 (value : UInt64) : Option Int64 :=
  if 0 < value then some value.toInt64 else none

/-- `rejected_status_for_block_txs`. -/
def rejectedStatusForBlockTxs (blockTxHashes : List String) (hash : String) :
    Option String :=
  if blockTxHashes.any fun blockHash => eqIgnoreAsciiCase blockHash hash then
    none
  else some "not_in_block_txs"

/-- The candidate at the end of `capture_rejected_candidate`. -/
def rejectedCandidate (hash nexus chain : String)
    (tx : SdkPayload CapturedTransaction) (blockHash : Option String)
    (canonicalStatus : String) (blockResponseJson : Option String) :
    RejectedCandidateUpsert where
  hash := hash
  nexus := nexus
  chain := chain
  blockHeight := positiveI64 tx.value.blockHeight
  blockHash := blockHash
  timestampUnixSeconds := positiveI64 tx.value.timestamp
  state := nonEmptyOwned tx.value.state
  result := nonEmptyOwned tx.value.result
  debugComment := tx.value.debugComment.bind nonEmptyOwned
  payload := nonEmptyOwned tx.value.payload
  scriptRaw := nonEmptyOwned tx.value.script
  feeRaw := nonEmptyOwned tx.value.fee
  expiration := positiveI64 tx.value.expiration
  gasPriceRaw := nonEmptyOwned tx.value.gasPrice
  gasLimitRaw := nonEmptyOwned tx.value.gasLimit
  sender := nonEmptyOwned tx.value.sender
  gasPayer := nonEmptyOwned tx.value.gasPayer
  gasTarget := nonEmptyOwned tx.value.gasTarget
  canonicalStatus := some canonicalStatus
  rpcResponseJson := some tx.rawValue
  blockResponseJson := blockResponseJson

/-- What is stored of the node's answers; `none` where the block lists the
hash. -/
def capturedCandidate (hash nexus chain : String)
    (tx : SdkPayload CapturedTransaction)
    (block : Option (SdkPayload CapturedBlock)) :
    Option RejectedCandidateUpsert :=
  let blockHash := nonEmptyOwned tx.value.blockHash
  match block with
  | none =>
      some (rejectedCandidate hash nexus chain tx blockHash
        "block_unavailable" none)
  | some block =>
      (rejectedStatusForBlockTxs block.value.txs hash).map fun status =>
        rejectedCandidate hash nexus chain tx
          ((nonEmptyOwned block.value.hash).or blockHash) status
          (some block.rawValue)

/-! ## The requests -/

/-- A capture: what the node said, what comes of it, and the time it is stored
under. -/
structure RejectedCapture where
  transaction : SdkPayload CapturedTransaction
  block : Option (SdkPayload CapturedBlock)
  candidate : RejectedCandidateUpsert
  now : Int64
  deriving DecidableEq

/-- What the requests share: the clock, the canonical transactions by hash and
name of their chain, and the table. -/
structure RejectedState where
  now : Int64
  canonical : List (String × String)
  rows : RejectedRows
  transactions : List (String × SdkPayload CapturedTransaction)
  blocks : List (String × UInt64 × SdkPayload CapturedBlock)
  captures : List RejectedCapture

/-- How a request ends. -/
inductive RejectedEnd where
  | answered (records : List RejectedCandidateRecord)
  | refused (error : ApiError)
  | failed
  | dropped
  deriving DecidableEq

/-- Where a request stands; each of these but the last is an await. -/
inductive RejectedPhase where
  | checking
  | listing
  | fetching
  | fetchingBlock (tx : SdkPayload CapturedTransaction)
  | storing (capture : RejectedCapture)
  | returning (record : RejectedCandidateRecord)
  | ended (result : RejectedEnd)
  deriving DecidableEq

structure RejectedThread where
  hash : String
  chain : String
  capture : Bool
  phase : RejectedPhase
  deriving DecidableEq

def RejectedThread.key (api : RejectedApi) (t : RejectedThread) :
    String × String × String :=
  (api.nexus, t.chain, t.hash)

/-- `queryFailed` is a database error, and `drop` a client that goes away. -/
inductive RejectedAct where
  | query
  | queryFailed
  | transaction (reply : Option (SdkPayload CapturedTransaction))
  | block (reply : Option (SdkPayload CapturedBlock))
  | drop
  deriving DecidableEq

/-- What the environment does: the clock is set, and the worker commits. -/
inductive RejectedEnv where
  | clock (now : Int64)
  | index (canonical : List (String × String))

section

variable (toUppercase toLowercase : String → String) (api : RejectedApi)

/-- A request that the checks refuse has ended when it comes. -/
def RejectedThread.arrive (query : RejectedTransactionListQuery) :
    RejectedThread :=
  match rejectedRequest toUppercase toLowercase api query with
  | .ok r => ⟨r.hash, r.chain, r.capture, .checking⟩
  | .error error => ⟨"", "", false, .ended (.refused error)⟩

/-- After the node's last answer: what there is to store is stored under the
time that the clock shows now. -/
def RejectedThread.captured (t : RejectedThread) (now : Int64)
    (tx : SdkPayload CapturedTransaction)
    (block : Option (SdkPayload CapturedBlock)) : RejectedThread :=
  match capturedCandidate t.hash api.nexus t.chain tx block with
  | some candidate => { t with phase := .storing ⟨tx, block, candidate, now⟩ }
  | none => { t with phase := .ended (.answered []) }

/-- One step of `rejected_transactions` and, in it, of
`capture_rejected_candidate`. -/
def rejectedStep (s : RejectedState) (t : RejectedThread) :
    RejectedAct → Option (RejectedState × RejectedThread)
  | .query =>
      match t.phase with
      | .checking =>
          if (t.hash, t.chain) ∈ s.canonical then
            some (s, { t with phase := .ended (.answered []) })
          else some (s, { t with phase := .listing })
      | .listing =>
          match listRejectedCandidates s.rows t.hash api.nexus t.chain with
          | [] =>
              if t.capture then some (s, { t with phase := .fetching })
              else some (s, { t with phase := .ended (.answered []) })
          | existing =>
              some (s, { t with phase := .ended (.answered existing) })
      | .storing capture =>
          let r := upsertRejectedCandidate s.rows capture.candidate capture.now
          some ({ s with rows := r.1, captures := s.captures ++ [capture] },
            { t with phase := .returning r.2 })
      | .returning record =>
          some (s, { t with phase := .ended (.answered [record]) })
      | _ => none
  | .queryFailed =>
      match t.phase with
      | .checking | .listing | .storing _ | .returning _ =>
          some (s, { t with phase := .ended .failed })
      | _ => none
  | .transaction reply =>
      match t.phase with
      | .fetching =>
          match reply with
          | none => some (s, { t with phase := .ended (.answered []) })
          | some tx =>
              let s := { s with
                transactions := s.transactions ++ [(t.hash, tx)] }
              if !eqIgnoreAsciiCase tx.value.hash t.hash then
                some (s, { t with phase := .ended (.answered []) })
              else if 0 < tx.value.blockHeight then
                if isBlank t.chain then
                  let error := ApiError.badRequest "chain cannot be empty"
                  some (s, { t with phase := .ended (.refused error) })
                else some (s, { t with phase := .fetchingBlock tx })
              else some (s, t.captured api s.now tx none)
      | _ => none
  | .block reply =>
      match t.phase with
      | .fetchingBlock tx =>
          match reply with
          | none => some (s, t.captured api s.now tx none)
          | some block =>
              some ({ s with
                  blocks :=
                    s.blocks ++ [(t.chain, tx.value.blockHeight, block)] },
                t.captured api s.now tx (some block))
      | _ => none
  | .drop =>
      match t.phase with
      | .ended _ => none
      | _ => some (s, { t with phase := .ended .dropped })

/-- Requests for rejected candidates, over the worker's commits. -/
def rejectedSystem : ThreadSystem RejectedState RejectedThread
    RejectedTransactionListQuery RejectedAct RejectedEnv where
  spawn _ query := RejectedThread.arrive toUppercase toLowercase api query
  step := rejectedStep api
  env s
    | .clock now => some { s with now := now }
    | .index canonical => some { s with canonical := canonical }

end

/-- An empty table, and no request. -/
def rejectedStart : Threads RejectedState RejectedThread :=
  ⟨⟨0, [], [], [], [], []⟩, []⟩

/-! ## The answer -/

structure RejectedTransactionCandidateResponse where
  hash : String
  nexus : String
  chain : String
  blockHeight : Option String
  blockHash : Option String
  date : Option String
  state : Option String
  result : Option String
  debugComment : Option String
  payload : Option String
  scriptRaw : Option String
  feeRaw : Option String
  expiration : Option String
  gasPriceRaw : Option String
  gasLimitRaw : Option String
  sender : Option String
  gasPayer : Option String
  gasTarget : Option String
  canonicalStatus : Option String
  capturedAt : String
  updatedAt : String
  rpcResponseJson : Option String
  blockResponseJson : Option String

/-- `rejected_candidate_response`. -/
def rejectedCandidateResponse (record : RejectedCandidateRecord) :
    RejectedTransactionCandidateResponse where
  hash := record.hash
  nexus := record.nexus
  chain := record.chain
  blockHeight := record.blockHeight.map toString
  blockHash := record.blockHash.filter fun hash => !hash.isEmpty
  date := record.timestampUnixSeconds.map toString
  state := record.state
  result := record.result
  debugComment := record.debugComment
  payload := record.payload
  scriptRaw := record.scriptRaw
  feeRaw := record.feeRaw
  expiration := record.expiration.map toString
  gasPriceRaw := record.gasPriceRaw
  gasLimitRaw := record.gasLimitRaw
  sender := record.sender
  gasPayer := record.gasPayer
  gasTarget := record.gasTarget
  canonicalStatus := record.canonicalStatus
  capturedAt := toString record.capturedAtUnixSeconds
  updatedAt := toString record.updatedAtUnixSeconds
  rpcResponseJson := record.rpcResponseJson
  blockResponseJson := record.blockResponseJson

/-- The body of a 200. -/
def RejectedThread.response (t : RejectedThread) :
    Option (List RejectedTransactionCandidateResponse) :=
  match t.phase with
  | .ended (.answered records) => some (records.map rejectedCandidateResponse)
  | _ => none

end Explorer.Ref
