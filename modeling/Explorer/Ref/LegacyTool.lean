import Explorer.Lib.Keyset
import Explorer.Ref.Dimensions
import Explorer.Ref.LegacyDecode

/-!
# Decoding the stored raw events (`crates/ingestion/src/driver.rs`)

`decode_legacy_raw_events_once` walks the rows of `events` that carry payload
format 3, in the order of their ids and a batch at a time. It resolves the
contract and the target address of each row of a batch, then updates the rows
of the batch in one statement. Nothing opens a transaction: every statement
stays once it has run.

A run may stop short at any call to the database, because the call fails or
because the process is killed before it: `calls` is how many of them still
return. A call that ran and whose answer was lost is one that the run did not
get past.
-/

namespace Explorer.Ref

open Explorer.Lib

/-! ## The table -/

/-- A row of `events`, with what the tool joins to it. The references are ids
in the table, and keys where the ids do not matter. -/
structure LegacyEvent (ρ : Type) where
  id : Int
  chainId : Nat
  chainName : String
  eventKind : String
  rawData : Option String
  payloadFormat : Option Nat
  payloadJson : Option Json
  tokenId : Option String
  contract : Option ρ
  targetAddress : Option ρ
  blockHeight : Int
  txIndex : Int
  eventIndex : Int

def LegacyEvent.isRaw {ρ : Type} (e : LegacyEvent ρ) : Bool :=
  e.payloadFormat == some 3

/-- `u64::try_from` and `usize::try_from`, with 0 for what does not fit. -/
def LegacyEvent.place {ρ : Type} (e : LegacyEvent ρ) : EventPlace :=
  ⟨e.blockHeight.toNat, e.txIndex.toNat, e.eventIndex.toNat⟩

/-- `list_legacy_raw_events`. -/
def listLegacyRawEvents (events : List (LegacyEvent Nat)) (afterId : Int)
    (limit : Nat) : List (LegacyEvent Nat) :=
  (remaining LegacyEvent.id (some afterId)
    (events.filter LegacyEvent.isRaw)).take limit

structure LegacyDecodedRowUpdate where
  id : Int
  payloadJson : Json
  tokenId : Option String
  contractId : Option Nat
  targetAddressId : Option Nat

/-- The `SET` of `apply_legacy_decoded_events`. -/
def LegacyDecodedRowUpdate.apply (u : LegacyDecodedRowUpdate)
    (e : LegacyEvent Nat) : LegacyEvent Nat :=
  { e with
    payloadJson := some u.payloadJson
    payloadFormat := some 4
    tokenId := u.tokenId
    contract := u.contractId.or e.contract
    targetAddress := u.targetAddressId.or e.targetAddress }

/-- The update that the join finds for a row. -/
def updateFor (updates : List LegacyDecodedRowUpdate) (e : LegacyEvent Nat) :
    Option LegacyDecodedRowUpdate :=
  if e.isRaw then updates.find? fun u => u.id == e.id else none

/-- `apply_legacy_decoded_events`, with the ids of the rows it affected. -/
def applyLegacyDecodedEvents (events : List (LegacyEvent Nat))
    (updates : List LegacyDecodedRowUpdate) :
    List (LegacyEvent Nat) × List Int :=
  (events.map fun e =>
    match updateFor updates e with
    | some u => u.apply e
    | none => e,
  (events.filter fun e => (updateFor updates e).isSome).map LegacyEvent.id)

/-! ## One row -/

inductive LegacyRawError where
  | missingData (eventId : Int)
  | decode (error : IngestionError)
  | tokenIdConflict (eventId : Int) (stored computed : String)
  | database

/-- The stored token id stands, and must be the computed one. -/
def mergeTokenId (eventId : Int) : Option String → Option String →
    Except LegacyRawError (Option String)
  | some stored, some computed =>
      if stored ≠ computed then
        .error (.tokenIdConflict eventId stored computed)
      else .ok (some stored)
  | some stored, none => .ok (some stored)
  | none, some computed => .ok (some computed)
  | none, none => .ok none

/-- The stored keys but `raw_data`, then the decoded ones. -/
def mergePayload (stored : Option Json) (additions : List (String × Json)) :
    Json :=
  let fields := match stored with
    | some (.obj fields) => fields
    | _ => []
  .obj (additions.foldl (fun acc f => Json.setField f.1 f.2 acc)
    (Json.removeField "raw_data" fields))

/-- What a row decodes to, and its token id, before any statement. -/
def decodeRow {ρ : Type} (sdk : LegacySdk) (row : LegacyEvent ρ) :
    Except LegacyRawError (LegacyRawDecodeOutcome × Option String) :=
  match row.rawData with
  | none => .error (.missingData row.id)
  | some rawData =>
      match decodeLegacyRawEvent sdk row.eventKind rawData row.chainName
          row.place with
      | .error e => .error (.decode e)
      | .ok outcome =>
          match mergeTokenId row.id row.tokenId outcome.tokenId with
          | .error e => .error e
          | .ok tokenId => .ok (outcome, tokenId)

/-! ## A run -/

structure LegacyRawDecodeReport where
  scanned : Nat := 0
  converted : Nat := 0
  contractsRepointed : Nat := 0
  tokenIdsFilled : Nat := 0
  tokenIdsAlreadyEqual : Nat := 0
  targetAddressesFilled : Nat := 0
  perKind : List (String × Nat) := []

/-- One more of a kind, the kinds kept in order. -/
def countKind (kind : String) : List (String × Nat) → List (String × Nat)
  | [] => [(kind, 1)]
  | (k, n) :: rest =>
      if kind = k then (k, n + 1) :: rest
      else if kind < k then (kind, 1) :: (k, n) :: rest
      else (k, n) :: countKind kind rest

def LegacyRawDecodeReport.countRow (report : LegacyRawDecodeReport)
    (row : LegacyEvent Nat) (computed : Option String)
    (contractId targetAddressId : Option Nat) : LegacyRawDecodeReport :=
  { report with
    tokenIdsAlreadyEqual := report.tokenIdsAlreadyEqual +
      if row.tokenId.isSome && computed.isSome then 1 else 0
    tokenIdsFilled := report.tokenIdsFilled +
      if row.tokenId.isNone && computed.isSome then 1 else 0
    contractsRepointed := report.contractsRepointed +
      if contractId.isSome && row.contract ≠ contractId then 1 else 0
    targetAddressesFilled := report.targetAddressesFilled +
      if targetAddressId.isSome && row.targetAddress.isNone then 1 else 0
    perKind := countKind row.eventKind report.perKind }

/-- A run under way: the table, the dimensions and their cache on its
connection, the calls that still return, its report, and the ids its updates
have affected. -/
structure LegacyRun where
  events : List (LegacyEvent Nat)
  tx : BlockTx Unit
  calls : Option Nat
  report : LegacyRawDecodeReport
  converted : List Int

/-- One call to the database, when it returns. -/
def LegacyRun.spend (run : LegacyRun) : Option LegacyRun :=
  match run.calls with
  | none => some run
  | some 0 => none
  | some (n + 1) => some { run with calls := some n }

/-- The id of what a row refers to, if it refers to something. -/
def LegacyRun.resolve (run : LegacyRun) :
    Option DimensionCall → Option (Option Nat) × LegacyRun
  | none => (some none, run)
  | some call =>
      match run.spend with
      | none => (none, run)
      | some run =>
          let (id, tx) := run.tx.call call
          (some (some id), { run with tx := tx })

def contractCall {ρ : Type} (row : LegacyEvent ρ)
    (outcome : LegacyRawDecodeOutcome) : Option DimensionCall :=
  outcome.contractSymbol.map fun symbol => .contract row.chainId symbol none

def targetCall {ρ : Type} (row : LegacyEvent ρ)
    (outcome : LegacyRawDecodeOutcome) : Option DimensionCall :=
  outcome.targetAddress.map fun address => .address row.chainId address false

/-- One pass of the loop over the rows of a batch. -/
def convertRow (sdk : LegacySdk) (run : LegacyRun) (row : LegacyEvent Nat) :
    Except LegacyRawError LegacyDecodedRowUpdate × LegacyRun :=
  match decodeRow sdk row with
  | .error e => (.error e, run)
  | .ok (outcome, tokenId) =>
      match run.resolve (contractCall row outcome) with
      | (none, run) => (.error .database, run)
      | (some contractId, run) =>
          match run.resolve (targetCall row outcome) with
          | (none, run) => (.error .database, run)
          | (some targetAddressId, run) =>
              (.ok
                { id := row.id
                  payloadJson :=
                    mergePayload row.payloadJson outcome.payloadAdditions
                  tokenId := tokenId
                  contractId := contractId
                  targetAddressId := targetAddressId },
              { run with
                report := run.report.countRow row outcome.tokenId contractId
                  targetAddressId })

/-- The updates of a batch. -/
def convertRows (sdk : LegacySdk) : LegacyRun → List (LegacyEvent Nat) →
    Except LegacyRawError (List LegacyDecodedRowUpdate) × LegacyRun
  | run, [] => (.ok [], run)
  | run, row :: rows =>
      match convertRow sdk run row with
      | (.error e, run) => (.error e, run)
      | (.ok update, run) =>
          match convertRows sdk run rows with
          | (.error e, run) => (.error e, run)
          | (.ok updates, run) => (.ok (update :: updates), run)

def LegacyRun.applyBatch (run : LegacyRun) (scanned : Nat)
    (updates : List LegacyDecodedRowUpdate) : LegacyRun :=
  let (events, affected) := applyLegacyDecodedEvents run.events updates
  { run with
    events := events
    report := { run.report with
      scanned := run.report.scanned + scanned
      converted := run.report.converted + affected.length }
    converted := run.converted ++ affected }

/-- `DECODE_LEGACY_RAW_BATCH`. -/
def decodeLegacyRawBatch : Nat := 5000

/-- The loop over the batches. -/
def decodeLoop (sdk : LegacySdk) : Nat → LegacyRun → Int →
    Option (Except LegacyRawError LegacyRawDecodeReport × LegacyRun)
  | 0, _, _ => none
  | fuel + 1, run, afterId =>
      match run.spend with
      | none => some (.error .database, run)
      | some run =>
          let rows :=
            listLegacyRawEvents run.events afterId decodeLegacyRawBatch
          if rows.isEmpty then some (.ok run.report, run)
          else
            match convertRows sdk run rows with
            | (.error e, run) => some (.error e, run)
            | (.ok updates, run) =>
                match run.spend with
                | none => some (.error .database, run)
                | some run =>
                    decodeLoop sdk fuel (run.applyBatch rows.length updates)
                      (rows.foldl (fun id row => max id row.id) afterId)

/-- What a run finds and leaves. -/
structure LegacyDb where
  events : List (LegacyEvent Nat)
  store : Store Unit
  sequences : Dimension → Nat

/-- `decode_legacy_raw_events_once` up to its first batch. -/
def LegacyDb.start (db : LegacyDb) (calls : Option Nat) : LegacyRun where
  events := db.events
  tx :=
    { base := db.store
      view := db.store
      sequences := db.sequences
      cache := ProjectionDimensionCache.new
      resolved := [] }
  calls := calls
  report := {}
  converted := []

def LegacyRun.stop (run : LegacyRun) : LegacyDb :=
  ⟨run.events, run.tx.view, run.tx.sequences⟩

/-- `decode_legacy_raw_events_once`. The loop is given one pass for each row
and one more. -/
def decodeLegacyRawEventsOnce (sdk : LegacySdk) (calls : Option Nat)
    (db : LegacyDb) :
    Option (Except LegacyRawError LegacyRawDecodeReport × LegacyRun) :=
  decodeLoop sdk (db.events.length + 1) (db.start calls) 0

/-- A run as it looks from outside. -/
structure LegacyRunOutcome where
  calls : Option Nat
  ok : Bool
  converted : List Int
  deriving Repr, DecidableEq

/-- One run after another. -/
def LegacyRunStep (sdk : LegacySdk) (db : LegacyDb) (a : LegacyRunOutcome)
    (db' : LegacyDb) : Prop :=
  ∃ result run, decodeLegacyRawEventsOnce sdk a.calls db = some (result, run) ∧
    a.ok = result.toBool ∧ a.converted = run.converted ∧ db' = run.stop

end Explorer.Ref
