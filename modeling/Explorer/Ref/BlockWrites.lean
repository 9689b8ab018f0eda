import Explorer.Lib.Surrogate
import Explorer.Ref.Dimensions
import Explorer.Ref.LegacyDecode
import Mathlib.Data.Prod.Lex

/-!
# The rows of a block (`crates/db/src/{lib,events}.rs`)

Transactions and events are written in one of two ways. Where the block has no
rows yet, the columns are collected into arrays and one `INSERT … SELECT FROM
unnest` writes all rows; else they are written row by row, under the ids they
have. A statement that fails fails the write, and the caller rolls back.

The arrays, the names that `unnest` gives their elements, and the columns of
the `INSERT` are three lists that match by position, so they are three types
here, and values go from one to the next by position. What PostgreSQL makes of
hex and numeric text is a parameter.
-/

namespace Explorer.Ref

open Explorer.Lib

/-- The casts of the statements. -/
structure Postgres where
  Numeric : Type
  /-- `decode(_, 'hex')`. -/
  decodeHex : String → Option (List UInt8)
  /-- `_::numeric`. -/
  toNumeric : String → Option Numeric

inductive DbError where
  | unknownPayloadFormat (format : String)
  | sqlx
  | rowNotFound
  deriving Repr, DecidableEq

/-- A cast: `NULL` stays, and text that it does not accept is an error. -/
def castColumn {α : Type} (cast : String → Option α) :
    Option String → Except DbError (Option α)
  | none => .ok none
  | some text =>
      match cast text with
      | some value => .ok (some value)
      | none => .error .sqlx

/-! ## The tables -/

structure TransactionSignatureUpsert where
  signatureIndex : Int
  kind : String
  data : String

/-- `TransactionUpsert`, with the fields that place the row. -/
structure TransactionProjection extends TransactionUpsert where
  blockId : Int
  chainId : Nat
  txIndex : Int
  signatures : List TransactionSignatureUpsert

/-- The columns of `transactions`, in the order of the `INSERT`. -/
structure TransactionCells (pg : Postgres) where
  hash : String
  txIndex : Int
  blockId : Int
  timestampUnixSeconds : Int
  payload : Option String
  scriptRaw : Option (List UInt8)
  result : Option String
  expiration : Int
  stateId : Nat
  senderId : Nat
  gasPayerId : Nat
  gasTargetId : Nat
  feeRaw : Option pg.Numeric
  gasLimitRaw : Option pg.Numeric
  gasPriceRaw : Option pg.Numeric
  carbonTxData : Option (List UInt8)
  carbonTxType : Option Int
  debugComment : Option String

/-- `ux_transactions_block_tx_index`. -/
def TransactionCells.key {pg : Postgres} (c : TransactionCells pg) :
    Int × Int :=
  (c.blockId, c.txIndex)

structure SignatureCells where
  signatureKindId : Int
  data : List UInt8
  transactionId : Int

/-- The columns of `events`, in the order of the `INSERT`, then `nft_id`. -/
structure EventCells where
  timestampUnixSeconds : Int
  eventIndex : Int
  tokenId : Option String
  burned : Option Bool
  addressId : Nat
  chainId : Nat
  contractId : Nat
  transactionId : Int
  eventKindId : Nat
  targetAddressId : Option Nat
  payloadFormat : Option Nat
  payloadJson : Option Json
  rawData : Option String
  eventName : Option String
  nftId : Option Int

/-- `ux_events_transaction_event_index`. -/
def EventCells.key (c : EventCells) : Int × Int := (c.transactionId, c.eventIndex)

structure BlockDb (pg : Postgres) where
  transactions : SerialTable (TransactionCells pg)
  signatures : SerialTable SignatureCells
  signatureKinds : SerialTable String
  events : SerialTable EventCells
  dims : BlockTx Unit

variable {pg : Postgres}

/-! ## Events -/

/-- `payload_format_code`. -/
def payloadFormatCode : Option String → Except DbError (Option Nat)
  | none => .ok none
  | some "legacy.backfill.v1" => .ok (some 1)
  | some "live.v1" => .ok (some 2)
  | some "legacy.raw.v1" => .ok (some 3)
  | some "legacy.decoded.v1" => .ok (some 4)
  | some other => .error (.unknownPayloadFormat other)

structure EventRefs where
  eventKindId : Nat
  addressId : Nat
  targetAddressId : Option Nat
  contractId : Nat

/-- The ids of an event, asked for in this order. -/
def resolveEvent (dims : BlockTx Unit) (event : EventProjection) :
    EventRefs × BlockTx Unit :=
  let (eventKindId, dims) := dims.eventKindId event.eventKind false
  let (addressId, dims) :=
    dims.addressId event.chainId (event.address.getD "NULL") false
  let (targetAddressId, dims) :=
    match event.targetAddress.bind usableAddress with
    | some address =>
        let (id, dims) := dims.addressId event.chainId address false
        (some id, dims)
    | none => (none, dims)
  let (contractId, dims) :=
    dims.contractId event.chainId (event.contract.getD "unknown") none
  (⟨eventKindId, addressId, targetAddressId, contractId⟩, dims)

/-- `upsert_event_cached`. A conflict sets `nft_id` to `NULL`, as a new row
has it. -/
def BlockDb.upsertEventCached (db : BlockDb pg) (event : EventProjection)
    (id : Option Int) : Except DbError (BlockDb pg) := do
  let (refs, dims) := resolveEvent db.dims event
  let payloadFormat ← payloadFormatCode event.payloadFormat
  return { db with
    events := db.events.upsert id
      ⟨event.timestampUnixSeconds, event.eventIndex, event.tokenId,
        event.burned, refs.addressId, event.chainId, refs.contractId,
        event.transactionId, refs.eventKindId, refs.targetAddressId,
        payloadFormat, event.payloadJson, event.rawData, event.eventName,
        none⟩
    dims := dims }

/-- The arrays of the set-based insert, in the order they are bound. -/
structure EventColumns where
  timestamp : List Int := []
  eventIndex : List Int := []
  tokenId : List (Option String) := []
  burned : List (Option Bool) := []
  addressId : List Nat := []
  chainId : List Nat := []
  contractId : List Nat := []
  eventTransactionId : List Int := []
  eventKindId : List Nat := []
  targetAddressId : List (Option Nat) := []
  payloadFormat : List (Option Nat) := []
  payloadJson : List (Option Json) := []
  rawData : List (Option String) := []
  eventName : List (Option String) := []

/-- The pushes of one event. -/
def EventColumns.push (columns : EventColumns) (event : EventProjection)
    (refs : EventRefs) (payloadFormat : Option Nat) : EventColumns where
  timestamp := columns.timestamp ++ [event.timestampUnixSeconds]
  eventIndex := columns.eventIndex ++ [event.eventIndex]
  tokenId := columns.tokenId ++ [event.tokenId]
  burned := columns.burned ++ [event.burned]
  addressId := columns.addressId ++ [refs.addressId]
  chainId := columns.chainId ++ [event.chainId]
  contractId := columns.contractId ++ [refs.contractId]
  eventTransactionId := columns.eventTransactionId ++ [event.transactionId]
  eventKindId := columns.eventKindId ++ [refs.eventKindId]
  targetAddressId := columns.targetAddressId ++ [refs.targetAddressId]
  payloadFormat := columns.payloadFormat ++ [payloadFormat]
  payloadJson := columns.payloadJson ++ [event.payloadJson]
  rawData := columns.rawData ++ [event.rawData]
  eventName := columns.eventName ++ [event.eventName]

/-- `AS t(…)`. -/
structure UnnestedEvent where
  timestamp : Int
  eventIndex : Int
  tokenId : Option String
  burned : Option Bool
  addressId : Nat
  chainId : Nat
  contractId : Nat
  transactionId : Int
  eventKindId : Nat
  targetAddressId : Option Nat
  payloadFormat : Option Nat
  payloadJson : Option Json
  rawData : Option String
  eventName : Option String

/-- The elements at one index, by position. -/
def EventColumns.at (columns : EventColumns) (i : Nat) :
    Option UnnestedEvent := do
  return ⟨← columns.timestamp[i]?, ← columns.eventIndex[i]?,
    ← columns.tokenId[i]?, ← columns.burned[i]?, ← columns.addressId[i]?,
    ← columns.chainId[i]?, ← columns.contractId[i]?,
    ← columns.eventTransactionId[i]?, ← columns.eventKindId[i]?,
    ← columns.targetAddressId[i]?, ← columns.payloadFormat[i]?,
    ← columns.payloadJson[i]?, ← columns.rawData[i]?, ← columns.eventName[i]?⟩

/-- `unnest`. -/
def EventColumns.unnest (columns : EventColumns) : List UnnestedEvent :=
  (List.range columns.timestamp.length).filterMap columns.at

/-- The `SELECT`, into the columns of the `INSERT`. -/
def UnnestedEvent.select (t : UnnestedEvent) : EventCells :=
  ⟨t.timestamp, t.eventIndex, t.tokenId, t.burned, t.addressId, t.chainId,
    t.contractId, t.transactionId, t.eventKindId, t.targetAddressId,
    t.payloadFormat, t.payloadJson, t.rawData, t.eventName, none⟩

/-- `ORDER BY t.transaction_id, t.event_index`. -/
def UnnestedEvent.order (t : UnnestedEvent) : Int ×ₗ Int :=
  toLex (t.transactionId, t.eventIndex)

/-- The loop that fills the arrays. -/
def collectEvents : EventColumns → BlockTx Unit → List EventProjection →
    Except DbError (EventColumns × BlockTx Unit)
  | columns, dims, [] => .ok (columns, dims)
  | columns, dims, event :: events => do
      let (refs, dims) := resolveEvent dims event
      let payloadFormat ← payloadFormatCode event.payloadFormat
      collectEvents (columns.push event refs payloadFormat) dims events

/-- The branch for a block without event rows. -/
def BlockDb.insertEventsSetBased (db : BlockDb pg) (events : List EventProjection) :
    Except DbError (BlockDb pg) := do
  let (columns, dims) ← collectEvents {} db.dims events
  if columns.eventIndex.isEmpty then return { db with dims := dims }
  let rows := columns.unnest.insertionSort fun a b => a.order ≤ b.order
  return { db with
    events := db.events.insertAll (rows.map UnnestedEvent.select)
    dims := dims }

/-- The branch for a block that has some: an upsert for each event, under the
id that its row had. -/
def upsertEventsRowByRow (existing : Int × Int → Option Int) :
    BlockDb pg → List (Int × EventProjection) → Except DbError (BlockDb pg)
  | db, [] => .ok db
  | db, (transactionId, event) :: events => do
      let db ← db.upsertEventCached event
        (existing (transactionId, event.eventIndex))
      upsertEventsRowByRow existing db events

/-- The ids of the rows of some transactions, under their natural key. -/
def BlockDb.existingEventIds (db : BlockDb pg) (transactionIds : List Int) :
    List ((Int × Int) × Int) :=
  (db.events.rows.filter fun r => decide
    (r.cells.transactionId ∈ transactionIds)).map fun r => (r.cells.key, r.id)

/-- The `DELETE`: the rows of the transactions that are not asked for. -/
def BlockDb.deleteUndesired (db : BlockDb pg) (transactionIds : List Int)
    (desired : List (Int × Int)) : BlockDb pg :=
  { db with
    events := db.events.delete fun c =>
      decide (c.transactionId ∈ transactionIds) && !decide (c.key ∈ desired) }

/-- The events of the batches, each with the transaction of its batch. -/
def batchEvents (batches : List (Int × List EventProjection)) :
    List (Int × EventProjection) :=
  batches.flatMap fun b => b.2.map fun event => (b.1, event)

/-- `insert_block_events`. -/
def BlockDb.insertBlockEvents (db : BlockDb pg)
    (batches : List (Int × List EventProjection)) :
    Except DbError (BlockDb pg) :=
  let transactionIds := batches.map Prod.fst
  if transactionIds.isEmpty then .ok db
  else
    let existing := db.existingEventIds transactionIds
    let events := batchEvents batches
    let cleared := db.deleteUndesired transactionIds
      (events.map fun x => (x.1, x.2.eventIndex))
    if !existing.isEmpty then
      upsertEventsRowByRow (fun key => existing.lookup key) cleared events
    else cleared.insertEventsSetBased (events.map Prod.snd)

structure TransactionRefs where
  stateId : Nat
  senderId : Nat
  gasPayerId : Nat
  gasTargetId : Nat

/-- The ids of a transaction, asked for in this order. -/
def resolveTransaction (dims : BlockTx Unit) (x : TransactionProjection) :
    TransactionRefs × BlockTx Unit :=
  let (stateId, dims) := dims.transactionStateId x.state
  let (senderId, dims) :=
    dims.addressId x.chainId (x.sender.getD "NULL") false
  let (gasPayerId, dims) :=
    dims.addressId x.chainId (x.gasPayer.getD "NULL") false
  let (gasTargetId, dims) :=
    dims.addressId x.chainId (x.gasTarget.getD "NULL") false
  (⟨stateId, senderId, gasPayerId, gasTargetId⟩, dims)

/-- `i16::try_from(value).ok()`. -/
def smallInt (value : Int) : Option Int :=
  if -2 ^ 15 ≤ value ∧ value < 2 ^ 15 then some value else none

/-- The `VALUES` of the insert of one transaction. -/
def transactionValues (pg : Postgres) (x : TransactionProjection)
    (refs : TransactionRefs) : Except DbError (TransactionCells pg) := do
  let scriptRaw ← castColumn pg.decodeHex x.scriptRaw
  let feeRaw ← castColumn pg.toNumeric (nullIfEmpty x.feeRaw)
  let gasLimitRaw ← castColumn pg.toNumeric (nullIfEmpty x.gasLimitRaw)
  let gasPriceRaw ← castColumn pg.toNumeric (nullIfEmpty x.gasPriceRaw)
  let carbonTxData ← castColumn pg.decodeHex x.carbonTxData
  return ⟨x.hash, x.txIndex, x.blockId, x.timestampUnixSeconds, x.payload,
    scriptRaw, nullIfEmpty x.result, x.expirationUnixSeconds, refs.stateId,
    refs.senderId, refs.gasPayerId, refs.gasTargetId, feeRaw, gasLimitRaw,
    gasPriceRaw, carbonTxData, x.carbonTxType.bind smallInt, x.debugComment⟩

/-- The `SET` of the update: block and index stay. -/
def TransactionCells.assign (c : TransactionCells pg)
    (x : TransactionProjection) (refs : TransactionRefs) :
    Except DbError (TransactionCells pg) := do
  let scriptRaw ← castColumn pg.decodeHex x.scriptRaw
  let feeRaw ← castColumn pg.toNumeric (nullIfEmpty x.feeRaw)
  let gasLimitRaw ← castColumn pg.toNumeric (nullIfEmpty x.gasLimitRaw)
  let gasPriceRaw ← castColumn pg.toNumeric (nullIfEmpty x.gasPriceRaw)
  let carbonTxData ← castColumn pg.decodeHex x.carbonTxData
  return { c with
    hash := x.hash
    timestampUnixSeconds := x.timestampUnixSeconds
    payload := x.payload
    scriptRaw := scriptRaw
    result := nullIfEmpty x.result
    expiration := x.expirationUnixSeconds
    stateId := refs.stateId
    senderId := refs.senderId
    gasPayerId := refs.gasPayerId
    gasTargetId := refs.gasTargetId
    feeRaw := feeRaw
    gasLimitRaw := gasLimitRaw
    gasPriceRaw := gasPriceRaw
    carbonTxData := carbonTxData
    carbonTxType := x.carbonTxType.bind smallInt
    debugComment := x.debugComment }

/-- `upsert_signature_kind_id`. -/
def BlockDb.upsertSignatureKindId (db : BlockDb pg) (name : String) :
    Int × BlockDb pg :=
  match db.signatureKinds.rows.find? fun r => r.cells == name with
  | some r => (r.id, db)
  | none =>
      (db.signatureKinds.next,
        { db with signatureKinds := db.signatureKinds.insert name })

def BlockDb.insertSignature (transactionId : Int) (db : BlockDb pg)
    (signature : TransactionSignatureUpsert) : Except DbError (BlockDb pg) :=
  let (kindId, db) := db.upsertSignatureKindId signature.kind
  match pg.decodeHex signature.data with
  | none => .error .sqlx
  | some data =>
      .ok { db with
        signatures := db.signatures.insert ⟨kindId, data, transactionId⟩ }

/-- `replace_transaction_signatures`. -/
def BlockDb.replaceTransactionSignatures (db : BlockDb pg)
    (transactionId : Int) (signatures : List TransactionSignatureUpsert) :
    Except DbError (BlockDb pg) :=
  signatures.foldlM (BlockDb.insertSignature transactionId)
    { db with
      signatures := db.signatures.delete fun c =>
        c.transactionId == transactionId }

/-- `transaction_record_from_upsert`. -/
def TransactionProjection.record (x : TransactionProjection) (id : Int)
    (refs : TransactionRefs) : TransactionRecord where
  id := id
  blockId := x.blockId
  chainId := x.chainId
  txIndex := x.txIndex
  hash := x.hash
  timestampUnixSeconds := x.timestampUnixSeconds
  state := x.state
  result := x.result
  debugComment := x.debugComment
  payload := x.payload
  scriptRaw := x.scriptRaw
  feeRaw := x.feeRaw
  gasPriceRaw := x.gasPriceRaw
  gasLimitRaw := x.gasLimitRaw
  senderId := refs.senderId
  gasPayerId := refs.gasPayerId
  gasTargetId := refs.gasTargetId
  carbonTxType := x.carbonTxType
  carbonTxData := x.carbonTxData
  expirationUnixSeconds := x.expirationUnixSeconds

/-- The row of `upsert_transaction_cached`: its id, and the table. -/
def writeTransaction (t : SerialTable (TransactionCells pg))
    (x : TransactionProjection) (refs : TransactionRefs) :
    Except DbError (Int × SerialTable (TransactionCells pg)) :=
  match t.find TransactionCells.key (x.blockId, x.txIndex) with
  | some r => do
      let cells ← r.cells.assign x refs
      return (r.id, t.update r.id cells)
  | none => do
      let cells ← transactionValues pg x refs
      return (t.next, t.insert cells)

/-- `upsert_transaction_cached`. -/
def BlockDb.upsertTransactionCached (db : BlockDb pg)
    (x : TransactionProjection) :
    Except DbError (TransactionRecord × BlockDb pg) := do
  let (refs, dims) := resolveTransaction db.dims x
  let (id, transactions) ← writeTransaction db.transactions x refs
  let db : BlockDb pg := { db with dims := dims, transactions := transactions }
  let db ← db.replaceTransactionSignatures id x.signatures
  return (x.record id refs, db)

/-- One upsert after the other, with the records in order. -/
def BlockDb.upsertTransactions : BlockDb pg → List TransactionProjection →
    Except DbError (List TransactionRecord × BlockDb pg)
  | db, [] => .ok ([], db)
  | db, x :: xs => do
      let (record, db) ← db.upsertTransactionCached x
      let (records, db) ← db.upsertTransactions xs
      return (record :: records, db)

/-- The arrays of the set-based insert, in the order they are bound. -/
structure TransactionColumns where
  hash : List String := []
  txIndex : List Int := []
  block : List Int := []
  timestamp : List Int := []
  payload : List (Option String) := []
  scriptRaw : List (Option String) := []
  result : List (Option String) := []
  expiration : List Int := []
  stateId : List Nat := []
  senderId : List Nat := []
  gasPayerId : List Nat := []
  gasTargetId : List Nat := []
  feeRaw : List (Option String) := []
  gasLimitRaw : List (Option String) := []
  gasPriceRaw : List (Option String) := []
  carbonTxData : List (Option String) := []
  carbonTxType : List (Option Int) := []
  debugComment : List (Option String) := []

/-- The pushes of one transaction. -/
def TransactionColumns.push (columns : TransactionColumns)
    (row : TransactionProjection × TransactionRefs) : TransactionColumns where
  hash := columns.hash ++ [row.1.hash]
  txIndex := columns.txIndex ++ [row.1.txIndex]
  block := columns.block ++ [row.1.blockId]
  timestamp := columns.timestamp ++ [row.1.timestampUnixSeconds]
  payload := columns.payload ++ [row.1.payload]
  scriptRaw := columns.scriptRaw ++ [row.1.scriptRaw]
  result := columns.result ++ [row.1.result]
  expiration := columns.expiration ++ [row.1.expirationUnixSeconds]
  stateId := columns.stateId ++ [row.2.stateId]
  senderId := columns.senderId ++ [row.2.senderId]
  gasPayerId := columns.gasPayerId ++ [row.2.gasPayerId]
  gasTargetId := columns.gasTargetId ++ [row.2.gasTargetId]
  feeRaw := columns.feeRaw ++ [row.1.feeRaw]
  gasLimitRaw := columns.gasLimitRaw ++ [row.1.gasLimitRaw]
  gasPriceRaw := columns.gasPriceRaw ++ [row.1.gasPriceRaw]
  carbonTxData := columns.carbonTxData ++ [row.1.carbonTxData]
  carbonTxType := columns.carbonTxType ++ [row.1.carbonTxType.bind smallInt]
  debugComment := columns.debugComment ++ [row.1.debugComment]

/-- `AS t(…)`. -/
structure UnnestedTransaction where
  hash : String
  txIndex : Int
  blockId : Int
  timestamp : Int
  payload : Option String
  scriptRaw : Option String
  result : Option String
  expiration : Int
  stateId : Nat
  senderId : Nat
  gasPayerId : Nat
  gasTargetId : Nat
  feeRaw : Option String
  gasLimitRaw : Option String
  gasPriceRaw : Option String
  carbonTxData : Option String
  carbonTxType : Option Int
  debugComment : Option String

/-- The elements at one index, by position. -/
def TransactionColumns.at (columns : TransactionColumns) (i : Nat) :
    Option UnnestedTransaction := do
  return ⟨← columns.hash[i]?, ← columns.txIndex[i]?, ← columns.block[i]?,
    ← columns.timestamp[i]?, ← columns.payload[i]?, ← columns.scriptRaw[i]?,
    ← columns.result[i]?, ← columns.expiration[i]?, ← columns.stateId[i]?,
    ← columns.senderId[i]?, ← columns.gasPayerId[i]?,
    ← columns.gasTargetId[i]?, ← columns.feeRaw[i]?,
    ← columns.gasLimitRaw[i]?, ← columns.gasPriceRaw[i]?,
    ← columns.carbonTxData[i]?, ← columns.carbonTxType[i]?,
    ← columns.debugComment[i]?⟩

/-- `unnest`. -/
def TransactionColumns.unnest (columns : TransactionColumns) :
    List UnnestedTransaction :=
  (List.range columns.hash.length).filterMap columns.at

/-- The `SELECT`, into the columns of the `INSERT`. -/
def UnnestedTransaction.select (pg : Postgres) (t : UnnestedTransaction) :
    Except DbError (TransactionCells pg) := do
  let scriptRaw ← castColumn pg.decodeHex t.scriptRaw
  let feeRaw ← castColumn pg.toNumeric (nullIfEmpty t.feeRaw)
  let gasLimitRaw ← castColumn pg.toNumeric (nullIfEmpty t.gasLimitRaw)
  let gasPriceRaw ← castColumn pg.toNumeric (nullIfEmpty t.gasPriceRaw)
  let carbonTxData ← castColumn pg.decodeHex t.carbonTxData
  return ⟨t.hash, t.txIndex, t.blockId, t.timestamp, t.payload, scriptRaw,
    nullIfEmpty t.result, t.expiration, t.stateId, t.senderId, t.gasPayerId,
    t.gasTargetId, feeRaw, gasLimitRaw, gasPriceRaw, carbonTxData,
    t.carbonTxType, t.debugComment⟩

/-- The ids of all transactions, before any row is written. -/
def resolveTransactions : BlockTx Unit → List TransactionProjection →
    List TransactionRefs × BlockTx Unit
  | dims, [] => ([], dims)
  | dims, x :: xs =>
      let (refs, dims) := resolveTransaction dims x
      let (rest, dims) := resolveTransactions dims xs
      (refs :: rest, dims)

/-- The loop over the inserted rows: signatures and records, in the order of
the input. -/
def BlockDb.finishTransactions (idByTxIndex : Int → Option Int) :
    BlockDb pg → List (TransactionProjection × TransactionRefs) →
    Except DbError (List TransactionRecord × BlockDb pg)
  | db, [] => .ok ([], db)
  | db, (x, refs) :: rows =>
      match idByTxIndex x.txIndex with
      | none => .error .rowNotFound
      | some id => do
          let db ← db.replaceTransactionSignatures id x.signatures
          let (records, db) ← finishTransactions idByTxIndex db rows
          return (x.record id refs :: records, db)

/-- The branch for a block without transaction rows. -/
def BlockDb.insertTransactionsSetBased (db : BlockDb pg)
    (rows : List (TransactionProjection × TransactionRefs)) :
    Except DbError (List TransactionRecord × BlockDb pg) := do
  let columns := rows.foldl TransactionColumns.push {}
  let ordered := columns.unnest.insertionSort fun a b => a.txIndex ≤ b.txIndex
  let cells ← ordered.mapM (UnnestedTransaction.select pg)
  let transactions := db.transactions.insertAll cells
  let inserted := transactions.rows.drop db.transactions.rows.length
  let idByTxIndex := inserted.map fun r => (r.cells.txIndex, r.id)
  finishTransactions (fun i => idByTxIndex.lookup i)
    { db with transactions := transactions } rows

/-- `batch_upsert_transactions`. -/
def BlockDb.batchUpsertTransactions (db : BlockDb pg) :
    List TransactionProjection →
    Except DbError (List TransactionRecord × BlockDb pg)
  | [] => .ok ([], db)
  | x :: xs =>
      let (refs, dims) := resolveTransactions db.dims (x :: xs)
      let db := { db with dims := dims }
      let existing := db.transactions.rows.filter fun r =>
        r.cells.blockId == x.blockId
      if !existing.isEmpty then db.upsertTransactions (x :: xs)
      else db.insertTransactionsSetBased ((x :: xs).zip refs)

end Explorer.Ref
