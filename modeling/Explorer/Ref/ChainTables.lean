import Explorer.Lib.Tables
import Explorer.Ref.Rust

/-!
# Writing a block (`crates/db/src/lib.rs`, `crates/db/src/events.rs`)

`project_decoded_block` on the three tables of a chain that hold what the
chain said: blocks, transactions and events, and the cursor of the chain's own
row. A table is the list of its rows and a statement a function on it. Rows
are named by their coordinates, the height, the transaction's index and the
event's, where the source has surrogate ids that it looks up under the same
coordinates first. Columns that hold the id of an address, an event kind or a
contract hold its text here, and the `jsonb` and hex columns are text too.

The remaining tables (tokens, NFTs, series, address activity, signatures) are
not part of the model. What the event statements read of them is `Registry`,
which is free at every transaction: other statements of the same transaction
write those tables too.
-/

namespace Explorer.Ref

open Explorer.Lib

/-! ## What a block projects to -/

structure BlockUpsert where
  hash : String
  protocol : Option Int
  chainAddress : Option String
  validatorAddress : Option String
  producerAddress : Option String
  timestampUnixSeconds : Int
  reward : Option String
  deriving Repr, DecidableEq

structure TransactionUpsert where
  hash : String
  timestampUnixSeconds : Int
  state : String
  result : Option String
  debugComment : Option String
  payload : Option String
  scriptRaw : Option String
  feeRaw : Option String
  gasPriceRaw : Option String
  gasLimitRaw : Option String
  sender : Option String
  gasPayer : Option String
  gasTarget : Option String
  carbonTxType : Option Int
  carbonTxData : Option String
  expirationUnixSeconds : Int
  deriving Repr, DecidableEq

structure EventUpsert where
  eventIndex : Nat
  eventKind : String
  eventName : Option String
  address : Option String
  targetAddress : Option String
  contract : Option String
  tokenId : Option String
  rawData : Option String
  payloadFormat : Option String
  payloadJson : Option String
  timestampUnixSeconds : Int
  burned : Option Bool
  deriving Repr, DecidableEq

/-- A block as `project_decoded_block` writes it: the header, and each
transaction with its events, in transaction order. -/
structure DecodedBlock where
  header : BlockUpsert
  transactions : List (TransactionUpsert × List EventUpsert)
  deriving Repr, DecidableEq

/-! ## Rows -/

structure BlockRow where
  height : Nat
  hash : String
  protocol : Int
  chainAddress : String
  validatorAddress : String
  producerAddress : Option String
  timestampUnixSeconds : Int
  reward : Option String
  deriving Repr, DecidableEq

structure TransactionRow where
  height : Nat
  txIndex : Nat
  hash : String
  timestampUnixSeconds : Int
  state : String
  result : Option String
  debugComment : Option String
  payload : Option String
  scriptRaw : Option String
  feeRaw : Option String
  gasPriceRaw : Option String
  gasLimitRaw : Option String
  sender : String
  gasPayer : String
  gasTarget : String
  carbonTxType : Option Int
  carbonTxData : Option String
  expirationUnixSeconds : Int
  deriving Repr, DecidableEq

structure EventRow where
  height : Nat
  txIndex : Nat
  eventIndex : Nat
  eventKind : String
  eventName : Option String
  address : String
  targetAddress : Option String
  contract : String
  tokenId : Option String
  rawData : Option String
  payloadFormat : Option String
  payloadJson : Option String
  timestampUnixSeconds : Int
  burned : Option Bool
  nftId : Option Nat
  deriving Repr, DecidableEq

/-- `NULLIF(value, '')`. -/
def nullIfEmpty (value : Option String) : Option String :=
  value.filter fun s => !s.isEmpty

/-- `usable_address`. -/
def usableAddress (value : String) : Option String :=
  let trimmed := String.ofList (trim value.toList)
  if trimmed.isEmpty || eqIgnoreAsciiCase trimmed "NULL" then none
  else some trimmed

def BlockUpsert.row (height : Nat) (b : BlockUpsert) : BlockRow where
  height := height
  hash := b.hash
  protocol := b.protocol.getD 0
  chainAddress := b.chainAddress.getD "NULL"
  validatorAddress := b.validatorAddress.getD "NULL"
  producerAddress := b.producerAddress
  timestampUnixSeconds := b.timestampUnixSeconds
  reward := nullIfEmpty b.reward

def TransactionUpsert.row (height txIndex : Nat) (x : TransactionUpsert) :
    TransactionRow where
  height := height
  txIndex := txIndex
  hash := x.hash
  timestampUnixSeconds := x.timestampUnixSeconds
  state := x.state
  result := nullIfEmpty x.result
  debugComment := x.debugComment
  payload := x.payload
  scriptRaw := x.scriptRaw
  feeRaw := nullIfEmpty x.feeRaw
  gasPriceRaw := nullIfEmpty x.gasPriceRaw
  gasLimitRaw := nullIfEmpty x.gasLimitRaw
  sender := x.sender.getD "NULL"
  gasPayer := x.gasPayer.getD "NULL"
  gasTarget := x.gasTarget.getD "NULL"
  -- `i16::try_from(value).ok()`
  carbonTxType := x.carbonTxType.filter fun v => -32768 ≤ v && v ≤ 32767
  carbonTxData := x.carbonTxData
  expirationUnixSeconds := x.expirationUnixSeconds

def EventUpsert.row (height txIndex : Nat) (e : EventUpsert) : EventRow where
  height := height
  txIndex := txIndex
  eventIndex := e.eventIndex
  eventKind := e.eventKind
  eventName := e.eventName
  address := e.address.getD "NULL"
  targetAddress := e.targetAddress.bind usableAddress
  contract := e.contract.getD "unknown"
  tokenId := e.tokenId
  rawData := e.rawData
  payloadFormat := e.payloadFormat
  payloadJson := e.payloadJson
  timestampUnixSeconds := e.timestampUnixSeconds
  burned := e.burned
  nftId := none

/-- The rows of one chain. -/
structure ChainTables where
  currentHeight : Nat
  blocks : List BlockRow
  transactions : List TransactionRow
  events : List EventRow
  deriving Repr, DecidableEq

/-! ## Blocks and transactions -/

/-- `upsert_block`. -/
def upsertBlock (height : Nat) (b : BlockUpsert) (rows : List BlockRow) :
    List BlockRow :=
  upsertRow (fun r => r.height == height) (b.row height) rows

/-- `batch_upsert_transactions`. With no row of the block yet the loop is the
set-based insert. -/
def batchUpsertTransactions (height : Nat)
    (transactions : List TransactionUpsert) (rows : List TransactionRow) :
    List TransactionRow :=
  transactions.zipIdx.foldl (fun rows x =>
    upsertRow (fun r => r.height == height && r.txIndex == x.2)
      (x.1.row height x.2) rows) rows

/-! ## Events -/

/-- The row belongs to the transaction. -/
def EventRow.inTransaction (r : EventRow) (height txIndex : Nat) : Bool :=
  r.height == height && r.txIndex == txIndex

/-- `insert_block_events`. What existed is read before anything is written;
an event that had a row gets its columns, and loses its NFT link. -/
def insertBlockEvents (height : Nat)
    (batches : List (List EventUpsert × Nat)) (rows : List EventRow) :
    List EventRow :=
  let existing := fun (txIndex eventIndex : Nat) => rows.any fun r =>
    r.inTransaction height txIndex && r.eventIndex == eventIndex
  let kept := rows.filter fun r =>
    batches.all fun b => !r.inTransaction height b.2 ||
      b.1.any fun e => e.eventIndex == r.eventIndex
  batches.foldl (fun rows b => b.1.foldl (fun rows e =>
    if existing b.2 e.eventIndex then
      rows.map fun r =>
        if r.inTransaction height b.2 && r.eventIndex == e.eventIndex then
          e.row height b.2
        else r
    else rows ++ [e.row height b.2]) rows) kept

/-- `is_nft_side_effect_event_kind`. -/
def isNftSideEffectEventKind (kind : String) : Bool :=
  ["TokenMint", "TokenClaim", "TokenBurn", "TokenSend", "TokenReceive",
    "TokenStake", "CrownRewards", "Inflation", "Infusion", "OrderCancelled",
    "OrderClosed", "OrderCreated", "OrderFilled", "OrderBid"].contains kind

/-- What the other tables say while a transaction's side effects run: the
symbol of a contract, whether its token is an NFT one, and the NFT's id. -/
structure Registry where
  symbol : String → Option String
  nonFungible : String → Bool
  nft : String → String → Option Nat

/-- A row of `nft_event_candidates`. -/
def Registry.candidate (reg : Registry) (height txIndex : Nat)
    (r : EventRow) : Bool :=
  r.inTransaction height txIndex && r.tokenId.isSome &&
    reg.nonFungible r.contract && isNftSideEffectEventKind r.eventKind

/-- The link of events to NFTs in `apply_nft_side_effects_for_transaction`. -/
def applyNftLinks (reg : Registry) (height txIndex : Nat)
    (rows : List EventRow) : List EventRow :=
  rows.map fun r =>
    if reg.candidate height txIndex r then
      match r.tokenId.bind (reg.nft r.contract) with
      | some id => { r with nftId := some id }
      | none => r
    else r

/-- The `burn_tokens` of a transaction: contract and token of its own rows
that burn, or whose token some row of the chain burns. KCAL is left out. -/
def burnTokens (reg : Registry) (height txIndex : Nat)
    (rows : List EventRow) : List (String × String) :=
  (rows.filterMap fun r =>
    if r.inTransaction height txIndex && reg.symbol r.contract != some "KCAL"
    then r.tokenId.bind fun token =>
      if r.eventKind == "TokenBurn" || rows.any (fun b =>
          b.eventKind == "TokenBurn" && b.contract == r.contract &&
            b.tokenId == some token)
      then some (r.contract, token) else none
    else none).dedup

/-- `UPDATE events SET burned = TRUE` for one contract and token. The
statement has no height in it. -/
def markBurned (rows : List EventRow) (pair : String × String) :
    List EventRow :=
  rows.map fun r =>
    if r.contract == pair.1 && r.tokenId == some pair.2 then
      { r with burned := some true }
    else r

/-- `apply_burn_markers_for_transaction`. -/
def applyBurnMarkers (reg : Registry) (height txIndex : Nat)
    (rows : List EventRow) : List EventRow :=
  (burnTokens reg height txIndex rows).foldl markBurned rows

/-- `apply_block_event_side_effects`, on the events. -/
def applyEventSideEffects (reg : Registry) (height txIndex : Nat)
    (events : List EventUpsert) (rows : List EventRow) : List EventRow :=
  let hasNftSideEffects := events.any fun e =>
    e.tokenId.isSome && isNftSideEffectEventKind e.eventKind
  let linked :=
    if hasNftSideEffects && rows.any (reg.candidate height txIndex) then
      applyNftLinks reg height txIndex rows
    else rows
  if events.any fun e => e.tokenId.isSome then
    applyBurnMarkers reg height txIndex linked
  else linked

/-- `project_block_events`. -/
def projectBlockEvents (reg : Nat → Registry) (height : Nat)
    (batches : List (List EventUpsert × Nat)) (rows : List EventRow) :
    List EventRow :=
  batches.foldl (fun rows b =>
      applyEventSideEffects (reg b.2) height b.2 b.1 rows)
    (insertBlockEvents height batches rows)

/-! ## The block -/

/-- `project_decoded_block`. -/
def projectDecodedBlock (reg : Nat → Registry) (height : Nat)
    (block : DecodedBlock) (t : ChainTables) : ChainTables :=
  { t with
    blocks := upsertBlock height block.header t.blocks
    transactions := batchUpsertTransactions height
      (block.transactions.map Prod.fst) t.transactions
    events := projectBlockEvents reg height
      (block.transactions.map Prod.snd).zipIdx t.events }

/-- `advance_cursor`. -/
def advanceCursor (height : Nat) (t : ChainTables) : ChainTables :=
  { t with currentHeight := max t.currentHeight height }

/-- `block_hash_at_height`. -/
def blockHashAtHeight (height : Nat) (t : ChainTables) : Option String :=
  (t.blocks.find? fun r => r.height == height).map BlockRow.hash

end Explorer.Ref
