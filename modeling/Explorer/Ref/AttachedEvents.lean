import Mathlib.Data.Prod.Lex
import Explorer.Lib.Grouped
import Explorer.Ref.EventAmounts

/-!
# What a page carries (`crates/http-api/src/handlers.rs`)

A page of blocks can be asked for with its transactions, and transactions with
their events. One query reads the transactions of all the blocks, one the
events of all the transactions, and one the tokens that these events name; the
rows go into maps by block and by transaction, and each takes its own out.

A transaction is its row here. Of an event this has its row, its payload and its
token event; series, metadata and prices are left out. The ids are numbers,
which the responses carry as text and the code reads back. The query for tokens
has no `ORDER BY`, so each of its answers is the found rows in any order.
-/

namespace Explorer.Ref

open Explorer.Lib

structure CarriedTransaction where
  id : Int
  blockId : Int
  blockHeight : Int
  txIndex : Int
  hash : String
  deriving DecidableEq

structure CarriedEvent where
  id : Int
  transactionId : Int
  eventIndex : Int
  eventKind : String
  row : EventPageRow

structure CarriedDb where
  transactions : List CarriedTransaction
  events : List CarriedEvent
  tokens : List EventTokenRow

/-- What `list_event_tokens_by_symbols` answers in one request. -/
structure TokensAnswer (db : CarriedDb) where
  rows : List String → List EventTokenRow
  perm : ∀ symbols,
    (rows symbols).Perm (listEventTokensBySymbols db.tokens symbols)

/-- `EventResponse`; for the transaction the code gives its hash. -/
structure EventResponse where
  eventId : Int
  transactionId : Int
  eventIndex : Int
  chain : String
  eventKind : String
  address : Option String
  payloadJson : Option Json
  tokenEvent : Option Json

/-- `TransactionResponse`: the row, and the events when they are asked for. -/
structure TransactionResponse where
  transaction : CarriedTransaction
  events : Option (List EventResponse) := none

/-- `ORDER BY block.height, tx.tx_index, tx.id`. -/
def CarriedTransaction.place (tx : CarriedTransaction) : Int ×ₗ Int ×ₗ Int :=
  toLex (tx.blockHeight, toLex (tx.txIndex, tx.id))

/-- `ORDER BY event.transaction_id, event.event_index`. -/
def CarriedEvent.place (event : CarriedEvent) : Int ×ₗ Int :=
  toLex (event.transactionId, event.eventIndex)

/-- `event_payload_json_column`. -/
def CarriedEvent.select (withEventData : Bool) (event : CarriedEvent) :
    CarriedEvent :=
  if withEventData then event
  else { event with row := { event.row with payloadJson := none } }

/-- `payload_json_without_special_resolution`. -/
def payloadJsonWithoutSpecialResolution : Json → Json
  | .obj object =>
      .obj (object.filter fun field => field.1 != "special_resolution_event")
  | payload => payload

/-- `event_from_row`. -/
def eventFromRow (toUppercase : String → String) (tokens : TokenMap)
    (withEventData : Bool) (event : CarriedEvent) : EventResponse where
  eventId := event.id
  transactionId := event.transactionId
  eventIndex := event.eventIndex
  chain := event.row.chainName
  eventKind := event.eventKind
  address := event.row.address
  payloadJson :=
    if withEventData then
      (rehydrateEventPayload event.row.payloadJson event.row.chainName
        event.row.address).map payloadJsonWithoutSpecialResolution
    else none
  tokenEvent :=
    if withEventData then tokenEventOf toUppercase tokens event.row else none

section

variable (db : CarriedDb)

def listTransactionsByBlockIds (blockIds : List Int) :
    List CarriedTransaction :=
  (db.transactions.filter fun tx => blockIds.contains tx.blockId).mergeSort
    fun a b => decide (a.place ≤ b.place)

def listEventsByTransactionIds (transactionIds : List Int)
    (withEventData : Bool) : List CarriedEvent :=
  ((db.events.filter fun event =>
    transactionIds.contains event.transactionId).mergeSort
      fun a b => decide (a.place ≤ b.place)).map
        (CarriedEvent.select withEventData)

variable {db} (answer : TokensAnswer db) (toUppercase : String → String)

/-- The tokens that a page of events is shown with. -/
def eventTokens (page : List EventPageRow) : TokenMap :=
  tokensFromRows toUppercase
    (answer.rows (collectEventTokenSymbols toUppercase page))

/-- `load_events_by_transaction_ids`. -/
def loadEventsByTransactionIds (transactionIds : List Int)
    (withEventData : Bool) : Int → List EventResponse :=
  if transactionIds.isEmpty then fun _ => []
  else
    let rows := listEventsByTransactionIds db transactionIds withEventData
    let tokens := eventTokens answer toUppercase (rows.map CarriedEvent.row)
    let events := rows.map (eventFromRow toUppercase tokens withEventData)
    ((rows.map CarriedEvent.transactionId).zip events).foldl
      (pushGroup Prod.fst Prod.snd) fun _ => []

/-- `attach_events_to_transactions`. -/
def attachEventsToTransactions (transactions : List TransactionResponse)
    (withEventData : Bool) : List TransactionResponse :=
  let ids := transactions.map fun response => response.transaction.id
  let grouped := loadEventsByTransactionIds answer toUppercase ids withEventData
  (transactions.zip (takeGroups grouped ids)).map fun (response, events) =>
    { response with events := some events }

/-- `load_transactions_by_block_ids`. -/
def loadTransactionsByBlockIds (blockIds : List Int)
    (withEvents withEventData : Bool) : Int → List TransactionResponse :=
  if blockIds.isEmpty then fun _ => []
  else
    let rows := listTransactionsByBlockIds db blockIds
    let transactions := rows.map fun tx => { transaction := tx }
    let transactions :=
      if withEvents then
        attachEventsToTransactions answer toUppercase transactions withEventData
      else transactions
    (rows.zip transactions).foldl
      (pushGroup (fun shown => shown.1.blockId) Prod.snd) fun _ => []

/-- The transactions of the blocks of a page, block by block. -/
def transactionsOfBlocks (blockIds : List Int)
    (withEvents withEventData : Bool) : List (List TransactionResponse) :=
  takeGroups (loadTransactionsByBlockIds answer toUppercase blockIds withEvents
    withEventData) blockIds

end

end Explorer.Ref
