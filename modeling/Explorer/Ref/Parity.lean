import Explorer.Ref.Rust

/-!
# The parity tool (`bins/explorer-parity/src/main.rs`)

The tool compares two databases by digests of a range of blocks. A digest query
turns each row into a line of its columns, as texts with `|` between them, and
hashes the lines. There are two schemas, the one of the C# explorer and the
renamed one that the migrations make of it, with queries for each.

A row is what the joins of a query put together: the columns of its aliases,
`NULL` where a left join found nothing. The rows of a table come in the order
of the query, which the keys of the tables make one. The common table
expressions are read through, so that `range_tx.height` is `block.height`. The
columns of the renamed schema are those of `ci/test-schema.sql`; those of the C#
schema are not in this repository, and `md5` is a parameter too.
-/

namespace Explorer.Ref

inductive SqlType where
  | integer
  | bigint
  | smallint
  | text
  | bytea
  | numeric
  | boolean
  | jsonb
deriving DecidableEq

def SqlType.name : SqlType → String
  | .integer => "integer"
  | .bigint => "bigint"
  | .smallint => "smallint"
  | .text => "text"
  | .bytea => "bytea"
  | .numeric => "numeric"
  | .boolean => "boolean"
  | .jsonb => "jsonb"

/-- A value that is not `NULL`. A number and a JSON document are kept as they
are written. -/
inductive SqlValue where
  | int (value : Int)
  | text (value : String)
  | bytes (value : List UInt8)
  | numeric (written : String)
  | bool (value : Bool)
  | json (written : String)
deriving DecidableEq

/-- `upper(encode(.., 'hex'))`. -/
def upperHex (bytes : List UInt8) : String :=
  String.ofList (bytes.flatMap fun b =>
    [b.toNat / 16, b.toNat % 16].map fun n =>
      Char.ofNat (if n < 10 then 48 + n else 55 + n))

/-- `::text`. -/
def SqlValue.toText : SqlValue → String
  | .int value => toString value
  | .text value => value
  | .bytes value => "\\x" ++ (upperHex value).toLower
  | .numeric written => written
  | .bool value => if value then "true" else "false"
  | .json written => written

def SqlValue.hasType : SqlValue → SqlType → Bool
  | .int _, type => type == .integer || type == .bigint || type == .smallint
  | .text _, type => type == .text
  | .bytes _, type => type == .bytea
  | .numeric _, type => type == .numeric
  | .bool _, type => type == .boolean
  | .json _, type => type == .jsonb

/-- A joined row, by alias and column. -/
abbrev SqlRow := String → String → Option SqlValue

/-- The columns a query may name, by alias and column. -/
abbrev SqlColumns := String → String → Option SqlType

/-- A row has values of the columns there are. -/
def Conforms (columns : SqlColumns) (row : SqlRow) : Prop :=
  ∀ source name value, row source name = some value →
    ∃ type, columns source name = some type ∧ value.hasType type = true

/-! ## The fields of a line -/

/-- An element of the `ARRAY[..]` of a digest query. -/
inductive DigestField where
  | column (source name : String)
  | cast (source name : String)
  | hex (source name : String)
  | orNull (field : DigestField)
deriving DecidableEq

def lookupColumn (columns : SqlColumns) (source name : String) :
    Except String SqlType :=
  match columns source name with
  | some type => .ok type
  | none => .error ("column " ++ source ++ "." ++ name ++ " does not exist")

/-- The type of a field, or why the query cannot be prepared. The literal
`'<NULL>'` takes the type of what it stands for. -/
def DigestField.type (columns : SqlColumns) :
    DigestField → Except String SqlType
  | .column source name => lookupColumn columns source name
  | .cast source name =>
      match lookupColumn columns source name with
      | .ok _ => .ok .text
      | .error error => .error error
  | .hex source name =>
      match lookupColumn columns source name with
      | .ok .bytea => .ok .text
      | .ok type =>
          .error ("function encode(" ++ type.name ++ ", unknown) does not exist")
      | .error error => .error error
  | .orNull field =>
      match field.type columns with
      | .ok .text => .ok .text
      | .ok type =>
          .error ("invalid input syntax for type " ++ type.name ++ ": \"<NULL>\"")
      | .error error => .error error

/-- The value of a field, before `COALESCE`. -/
def DigestField.value (row : SqlRow) : DigestField → Option String
  | .column source name => (row source name).map SqlValue.toText
  | .cast source name => (row source name).map SqlValue.toText
  | .hex source name => (row source name).map fun value =>
      match value with
      | .bytes bytes => upperHex bytes
      | other => other.toText
  | .orNull field => field.value row

/-- What stands in the array for it. -/
def DigestField.eval (row : SqlRow) : DigestField → Option String
  | .orNull field => some ((field.eval row).getD "<NULL>")
  | field => field.value row

/-- `array_to_string(fields, '|')`, which leaves `NULL` out. -/
def arrayToString (fields : List (Option String)) : String :=
  "|".intercalate (fields.filterMap id)

/-! ## Queries -/

inductive DigestTable where
  | blocks
  | transactions
  | events
  | addressTransactions
deriving DecidableEq

def DigestTable.name : DigestTable → String
  | .blocks => "blocks"
  | .transactions => "transactions"
  | .events => "events"
  | .addressTransactions => "address_transactions"

inductive ExplorerSchema where
  | renamed
  | legacyCsharp
deriving DecidableEq

inductive BlockRangeMode where
  | semantic
  | strictIds
deriving DecidableEq

open DigestField in
/-- `SEMANTIC_BLOCKS_RANGE_DIGEST_SQL`. -/
def semanticBlocks : List DigestField :=
  [cast "block" "height", column "block" "hash",
    cast "block" "timestamp_unix_seconds", cast "block" "protocol",
    orNull (column "chain_address" "address"),
    orNull (column "validator_address" "address"),
    orNull (cast "block" "reward")]

open DigestField in
/-- `SEMANTIC_TRANSACTIONS_RANGE_DIGEST_SQL`. -/
def semanticTransactions : List DigestField :=
  [cast "block" "height", cast "tx" "tx_index", column "tx" "hash",
    cast "tx" "timestamp_unix_seconds", orNull (column "tx" "payload"),
    orNull (hex "tx" "script_raw"), orNull (column "tx" "result"),
    orNull (cast "tx" "fee_raw"), cast "tx" "expiration",
    column "state" "name", orNull (cast "tx" "gas_price_raw"),
    orNull (cast "tx" "gas_limit_raw"), orNull (column "sender" "address"),
    orNull (column "gas_payer" "address"),
    orNull (column "gas_target" "address"),
    orNull (cast "tx" "carbon_tx_type"), orNull (hex "tx" "carbon_tx_data"),
    orNull (column "tx" "debug_comment")]

open DigestField in
/-- The columns of an event that the two modes share, in two parts. -/
def semanticEventsFront : List DigestField :=
  [cast "block" "height", cast "tx" "tx_index", cast "event" "event_index",
    cast "event" "timestamp_unix_seconds", cast "event" "date_unix_seconds",
    column "event_kind" "name", orNull (column "address" "address"),
    orNull (column "target_address" "address"),
    orNull (column "contract" "hash"), orNull (column "event" "token_id")]

open DigestField in
def semanticEventsBack : List DigestField :=
  [cast "event" "nsfw", cast "event" "blacklisted",
    orNull (column "event" "payload_format"),
    orNull (cast "event" "payload_json"), orNull (column "event" "raw_data")]

/-- `SEMANTIC_EVENTS_RANGE_DIGEST_SQL`. -/
def semanticEvents : List DigestField :=
  semanticEventsFront ++ semanticEventsBack

open DigestField in
/-- `SEMANTIC_ADDRESS_TRANSACTIONS_RANGE_DIGEST_SQL`. -/
def semanticAddressTransactions : List DigestField :=
  [cast "block" "height", cast "tx" "tx_index", column "tx" "hash",
    column "address" "address"]

open DigestField in
/-- `STRICT_EVENTS_RANGE_DIGEST_SQL`. -/
def strictEvents : List DigestField :=
  cast "event" "id" :: semanticEventsFront ++
    orNull (cast "event" "burned") :: semanticEventsBack

open DigestField in
/-- `LEGACY_CSHARP_SEMANTIC_BLOCKS_RANGE_DIGEST_SQL`. -/
def legacySemanticBlocks : List DigestField :=
  [cast "block" "HEIGHT", column "block" "HASH",
    orNull (column "block" "PREVIOUS_HASH"),
    cast "block" "TIMESTAMP_UNIX_SECONDS", cast "block" "PROTOCOL",
    orNull (column "chain_address" "ADDRESS"),
    orNull (column "validator_address" "ADDRESS"),
    orNull (column "block" "REWARD")]

open DigestField in
/-- `LEGACY_CSHARP_SEMANTIC_TRANSACTIONS_RANGE_DIGEST_SQL`. -/
def legacySemanticTransactions : List DigestField :=
  [cast "block" "HEIGHT", cast "tx" "INDEX", column "tx" "HASH",
    cast "tx" "TIMESTAMP_UNIX_SECONDS", orNull (column "tx" "PAYLOAD"),
    orNull (column "tx" "SCRIPT_RAW"), orNull (column "tx" "RESULT"),
    orNull (column "tx" "FEE"), orNull (column "tx" "FEE_RAW"),
    cast "tx" "EXPIRATION", column "state" "NAME",
    orNull (column "tx" "GAS_PRICE"), orNull (column "tx" "GAS_PRICE_RAW"),
    orNull (column "tx" "GAS_LIMIT"), orNull (column "tx" "GAS_LIMIT_RAW"),
    orNull (column "sender" "ADDRESS"), orNull (column "gas_payer" "ADDRESS"),
    orNull (column "gas_target" "ADDRESS"),
    orNull (cast "tx" "CARBON_TX_TYPE"),
    orNull (column "tx" "CARBON_TX_DATA"),
    orNull (column "tx" "DEBUG_COMMENT")]

open DigestField in
def legacySemanticEventsFront : List DigestField :=
  [cast "block" "HEIGHT", cast "tx" "INDEX", cast "event" "INDEX",
    cast "event" "TIMESTAMP_UNIX_SECONDS", cast "event" "DATE_UNIX_SECONDS",
    column "event_kind" "NAME", orNull (column "address" "ADDRESS"),
    orNull (column "target_address" "ADDRESS"),
    orNull (column "contract" "HASH"), orNull (column "event" "TOKEN_ID")]

open DigestField in
def legacySemanticEventsBack : List DigestField :=
  [cast "event" "NSFW", cast "event" "BLACKLISTED",
    orNull (column "event" "PAYLOAD_FORMAT"),
    orNull (cast "event" "PAYLOAD_JSON"), orNull (column "event" "RAW_DATA")]

/-- `LEGACY_CSHARP_SEMANTIC_EVENTS_RANGE_DIGEST_SQL`. -/
def legacySemanticEvents : List DigestField :=
  legacySemanticEventsFront ++ legacySemanticEventsBack

open DigestField in
/-- `LEGACY_CSHARP_STRICT_EVENTS_RANGE_DIGEST_SQL`. -/
def legacyStrictEvents : List DigestField :=
  cast "event" "ID" :: legacySemanticEventsFront ++
    orNull (cast "event" "BURNED") :: legacySemanticEventsBack

open DigestField in
/-- `LEGACY_CSHARP_SEMANTIC_ADDRESS_TRANSACTIONS_RANGE_DIGEST_SQL`. -/
def legacySemanticAddressTransactions : List DigestField :=
  [cast "block" "HEIGHT", cast "tx" "INDEX", column "tx" "HASH",
    column "address" "ADDRESS"]

open DigestField in
/-- `BlockRangeDigestQueries`, by schema and mode. The strict ones put the id
of the row before the rest, except for the links of an address, which have none
in the renamed schema. -/
def digestFields : ExplorerSchema → BlockRangeMode → DigestTable →
    List DigestField
  | .renamed, .semantic, .blocks => semanticBlocks
  | .renamed, .semantic, .transactions => semanticTransactions
  | .renamed, .semantic, .events => semanticEvents
  | .renamed, .semantic, .addressTransactions => semanticAddressTransactions
  | .renamed, .strictIds, .blocks => cast "block" "id" :: semanticBlocks
  | .renamed, .strictIds, .transactions =>
      cast "tx" "id" :: semanticTransactions
  | .renamed, .strictIds, .events => strictEvents
  | .renamed, .strictIds, .addressTransactions => semanticAddressTransactions
  | .legacyCsharp, .semantic, .blocks => legacySemanticBlocks
  | .legacyCsharp, .semantic, .transactions => legacySemanticTransactions
  | .legacyCsharp, .semantic, .events => legacySemanticEvents
  | .legacyCsharp, .semantic, .addressTransactions =>
      legacySemanticAddressTransactions
  | .legacyCsharp, .strictIds, .blocks =>
      cast "block" "ID" :: legacySemanticBlocks
  | .legacyCsharp, .strictIds, .transactions =>
      cast "tx" "ID" :: legacySemanticTransactions
  | .legacyCsharp, .strictIds, .events => legacyStrictEvents
  | .legacyCsharp, .strictIds, .addressTransactions =>
      cast "address_tx" "ID" :: legacySemanticAddressTransactions

/-! ## The columns of the renamed schema -/

/-- The table an alias stands for. -/
def aliasTable : String → String
  | "block" => "blocks"
  | "tx" => "transactions"
  | "event" => "events"
  | "event_kind" => "event_kinds"
  | "state" => "transaction_states"
  | "chain" => "chains"
  | "contract" => "contracts"
  | "address_tx" => "address_transactions"
  | _ => "addresses"

/-- The tables of `ci/test-schema.sql` that the queries read. -/
def renamedTable : String → List (String × SqlType)
  | "blocks" =>
      [("id", .integer), ("height", .bigint),
        ("timestamp_unix_seconds", .bigint), ("chain_id", .integer),
        ("hash", .text), ("protocol", .integer),
        ("chain_address_id", .integer), ("validator_address_id", .integer),
        ("reward", .numeric), ("producer_address_id", .integer)]
  | "transactions" =>
      [("id", .integer), ("hash", .text), ("tx_index", .integer),
        ("block_id", .integer), ("timestamp_unix_seconds", .bigint),
        ("payload", .text), ("script_raw", .bytea), ("result", .text),
        ("expiration", .bigint), ("state_id", .integer),
        ("sender_id", .integer), ("gas_payer_id", .integer),
        ("gas_target_id", .integer), ("fee_raw", .numeric),
        ("gas_limit_raw", .numeric), ("gas_price_raw", .numeric),
        ("carbon_tx_data", .bytea), ("carbon_tx_type", .smallint),
        ("debug_comment", .text)]
  | "events" =>
      [("id", .integer), ("timestamp_unix_seconds", .bigint),
        ("event_index", .integer), ("token_id", .text), ("burned", .boolean),
        ("address_id", .integer), ("chain_id", .integer),
        ("contract_id", .integer), ("transaction_id", .integer),
        ("event_kind_id", .integer), ("nft_id", .integer),
        ("target_address_id", .integer), ("payload_format", .smallint),
        ("payload_json", .jsonb), ("raw_data", .text), ("event_name", .text)]
  | "event_kinds" => [("id", .integer), ("name", .text)]
  | "transaction_states" => [("id", .integer), ("name", .text)]
  | "chains" =>
      [("id", .integer), ("name", .text), ("current_height", .bigint)]
  | "contracts" =>
      [("id", .integer), ("name", .text), ("hash", .text), ("symbol", .text),
        ("script_raw", .text), ("chain_id", .integer),
        ("address_id", .integer), ("contract_method_id", .integer),
        ("last_updated_unix_seconds", .bigint),
        ("create_event_id", .integer)]
  | "addresses" =>
      [("id", .integer), ("address", .text), ("address_name", .text),
        ("name_last_updated_unix_seconds", .bigint),
        ("unclaimed_amount_raw", .numeric), ("chain_id", .integer),
        ("address_validator_kind_id", .integer),
        ("staked_amount_raw", .numeric), ("stake_timestamp", .bigint),
        ("avatar", .text), ("storage_available", .bigint),
        ("storage_used", .bigint), ("total_soul_amount", .numeric),
        ("balance_dirty_block", .bigint), ("first_tx_unix_seconds", .bigint)]
  | "address_transactions" =>
      [("address_id", .integer), ("transaction_id", .integer),
        ("timestamp_unix_seconds", .bigint)]
  | _ => []

def renamedColumns : SqlColumns := fun source name =>
  (renamedTable (aliasTable source)).lookup name

/-! ## Digests and the report -/

/-- A database: the tables `detect_schema` looks for, and the joined rows of
the queries in their order. -/
structure ParityDb where
  hasBlocks : Bool
  hasLegacyBlocks : Bool
  rows : DigestTable → List SqlRow

def detectSchema (db : ParityDb) : Except String ExplorerSchema :=
  match db.hasBlocks, db.hasLegacyBlocks with
  | true, false => .ok .renamed
  | false, true => .ok .legacyCsharp
  | true, true =>
      .error "database exposes both renamed and legacy C# block tables"
  | false, false => .error "database is not a recognized Explorer schema"

/-- A database of the renamed schema. -/
structure RenamedDb extends ParityDb where
  detected : detectSchema toParityDb = .ok .renamed
  conforms : ∀ table, ∀ row ∈ rows table, Conforms renamedColumns row

/-- A database of the C# schema. -/
structure LegacyCsharpDb extends ParityDb where
  detected : detectSchema toParityDb = .ok .legacyCsharp

structure TableDigest where
  table : DigestTable
  rowCount : Nat
  digest : String
deriving DecidableEq

section Digests

variable (md5 : String → String) (legacyColumns : SqlColumns)

def schemaColumns : ExplorerSchema → SqlColumns
  | .renamed => renamedColumns
  | .legacyCsharp => legacyColumns

/-- `chain.name = $1 AND block.height BETWEEN $2 AND $3`. -/
def inRange (schema : ExplorerSchema) (chain : String) (first last : Int)
    (row : SqlRow) : Bool :=
  let (name, height) := match schema with
    | .renamed => ("name", "height")
    | .legacyCsharp => ("NAME", "HEIGHT")
  row "chain" name == some (.text chain) &&
    match row "block" height with
    | some (.int value) => decide (first ≤ value ∧ value ≤ last)
    | _ => false

/-- The rows of a range, in the order of the query. -/
def ParityDb.range (db : ParityDb) (schema : ExplorerSchema)
    (table : DigestTable) (chain : String) (first last : Int) : List SqlRow :=
  (db.rows table).filter (inRange schema chain first last)

/-- The text that is hashed: `string_agg(array_to_string(..), E'\n')`. -/
def digestText (fields : List DigestField) (rows : List SqlRow) : String :=
  "\n".intercalate (rows.map fun row =>
    arrayToString (fields.map fun field => field.eval row))

/-- Why the fields cannot be prepared, if they cannot: an array of texts takes
nothing else. -/
def prepareError (columns : SqlColumns) : List DigestField → Option String
  | [] => none
  | field :: rest =>
      match field.type columns with
      | .ok .text => prepareError columns rest
      | .ok type =>
          some ("ARRAY types text and " ++ type.name ++ " cannot be matched")
      | .error error => some error

def digestQuery (db : ParityDb) (schema : ExplorerSchema)
    (mode : BlockRangeMode) (table : DigestTable) (chain : String)
    (first last : Int) : Except String TableDigest :=
  let fields := digestFields schema mode table
  match prepareError (schemaColumns legacyColumns schema) fields with
  | some error =>
      .error ("failed to digest table " ++ table.name ++ " for " ++ chain ++
        " " ++ toString first ++ "-" ++ toString last ++ ": " ++ error)
  | none =>
      let rows := db.range schema table chain first last
      .ok ⟨table, rows.length, md5 (digestText fields rows)⟩

def blockRangeDigests (db : ParityDb) (chain : String) (first last : Int)
    (mode : BlockRangeMode) : Except String (List TableDigest) := do
  let schema ← detectSchema db
  let blocks ←
    digestQuery md5 legacyColumns db schema mode .blocks chain first last
  let transactions ←
    digestQuery md5 legacyColumns db schema mode .transactions chain first last
  let events ←
    digestQuery md5 legacyColumns db schema mode .events chain first last
  let addressTransactions ←
    digestQuery md5 legacyColumns db schema mode .addressTransactions chain
      first last
  return [blocks, transactions, events, addressTransactions]

structure TableDigestParityReport where
  table : DigestTable
  referenceCount : Nat
  candidateCount : Nat
  referenceDigest : String
  candidateDigest : String
  isMatch : Bool

structure BlockRangeParityReport where
  chain : String
  first : Int
  last : Int
  mode : BlockRangeMode
  tables : List TableDigestParityReport
  isMatch : Bool

def tableReport (reference candidate : TableDigest) :
    TableDigestParityReport where
  table := reference.table
  referenceCount := reference.rowCount
  candidateCount := candidate.rowCount
  referenceDigest := reference.digest
  candidateDigest := candidate.digest
  isMatch := reference.rowCount == candidate.rowCount &&
    reference.digest == candidate.digest

/-- `ParityCommand::BlockRange`. -/
def blockRangeParity (reference candidate : ParityDb) (chain : String)
    (first last : Int) (mode : BlockRangeMode) :
    Except String BlockRangeParityReport := do
  let referenceTables ←
    blockRangeDigests md5 legacyColumns reference chain first last mode
  let candidateTables ←
    blockRangeDigests md5 legacyColumns candidate chain first last mode
  let tables := (referenceTables.zip candidateTables).map fun pair =>
    tableReport pair.1 pair.2
  return ⟨chain, first, last, mode, tables, tables.all fun table =>
    table.isMatch⟩

end Digests

end Explorer.Ref
