import Explorer.Ref.Rust
import Mathlib.Data.List.Sort

/-!
# The paged lists (`crates/http-api`, `crates/db/src/reads`)

The transaction and event lists page by a seek cursor: the value of the sort
column and the id of the last row of the page before. Every list query has the
same shape. It selects the sort column as `cursor_sort_value` and the id as
`cursor_id`, seeks past the cursor, orders by the two in the direction asked
for, and fetches one row more than the page has; `trim_page_rows` drops that
row again and keys the next cursor on the last one that stays.

A row here is the row as the joins of the query show it; the foreign keys make
the inner joins total. A comparison with `NULL` does not hold, and no `WHERE`
clause negates one. `ILIKE` is a parameter.
-/

namespace Explorer.Ref

/-! ## Cursors -/

structure PageCursor where
  sortValue : Int64
  id : Int32
  deriving DecidableEq

/-- The cursor kinds of the lists. -/
inductive CursorKind where
  | tx
  | txAddress
  | event
  deriving Repr, DecidableEq

def CursorKind.text : CursorKind → String
  | .tx => "tx"
  | .txAddress => "tx-address"
  | .event => "event"

/-- `PageCursor::encode`. -/
def PageCursor.encode (c : PageCursor) (kind : CursorKind) : String :=
  kind.text ++ ":" ++ toString c.sortValue.toInt ++ ":" ++
    toString c.id.toInt

/-- `PageCursor::parse`. -/
def PageCursor.parse (value : String) (expectedKind : CursorKind) :
    Except String PageCursor :=
  match splitOnce ':' value.toList with
  | none => .error "expected '<kind>:<value>:<id>'"
  | some (kind, payload) =>
      if kind ≠ expectedKind.text.toList then
        .error ("cursor kind must be '" ++ expectedKind.text ++ "'")
      else
        match splitOnce ':' payload with
        | none => .error "expected sort-value and integer ID payload"
        | some (sortValue, id) =>
            match parseSigned 64 sortValue with
            | .error e => .error ("invalid sort value: " ++ e)
            | .ok v =>
                match parseSigned 32 id with
                | .error e => .error ("invalid ID: " ++ e)
                | .ok i => .ok ⟨Int64.ofInt v, Int32.ofInt i⟩

/-- `PageCursor::parse_optional`. -/
def PageCursor.parseOptional (value : Option String)
    (expectedKind : CursorKind) : Except String (Option PageCursor) :=
  match value with
  | none => .ok none
  | some text =>
      match PageCursor.parse text expectedKind with
      | .error e => .error ("invalid cursor: " ++ e)
      | .ok c => .ok (some c)

/-! ## Pages -/

inductive SortDirection where
  | asc
  | desc
  deriving Repr, DecidableEq

/-- `cursor_operator`, between a column and the value of the cursor. -/
def SortDirection.cursorOperator {α : Type} [LT α] [DecidableLT α] :
    SortDirection → α → α → Bool
  | .asc, column, cursor => decide (cursor < column)
  | .desc, column, cursor => decide (column < cursor)

/-- A row with the columns `row_cursor` reads. -/
structure PageRow (α : Type) where
  row : α
  cursorSortValue : Int64
  cursorId : Int32
  deriving DecidableEq

/-- `TransactionPage` and `EventPage`. -/
structure Page (ο : Type) where
  orderBy : ο
  direction : SortDirection
  cursorSortValue : Option Int64
  cursorId : Option Int32
  limit : Nat

variable {α ο : Type}

/-- The seek predicate of the list queries. -/
def Page.seeks (page : Page ο) (r : PageRow α) : Bool :=
  match page.cursorSortValue with
  | none => true
  | some v =>
      page.direction.cursorOperator r.cursorSortValue v ||
        (r.cursorSortValue == v &&
          page.cursorId.any fun id =>
            page.direction.cursorOperator r.cursorId id)

/-- `ORDER BY column dir, id dir`. -/
def SortDirection.orders (dir : SortDirection) (a b : PageRow α) : Bool :=
  dir.cursorOperator b.cursorSortValue a.cursorSortValue ||
    (a.cursorSortValue == b.cursorSortValue &&
      !dir.cursorOperator a.cursorId b.cursorId)

def SortDirection.sort (dir : SortDirection) (rows : List (PageRow α)) :
    List (PageRow α) :=
  rows.insertionSort fun a b => dir.orders a b = true

/-- The seek, the order and the limit of a list query. -/
def Page.select (page : Page ο) (rows : List (PageRow α)) :
    List (PageRow α) :=
  (page.direction.sort (rows.filter page.seeks)).take (page.limit + 1)

/-- `clamp_limit`. -/
def clampLimit (limit : Option Int) : Nat :=
  (max 1 (min (limit.getD 50) 100)).toNat

/-- `row_cursor`. -/
def rowCursor (r : PageRow α) (kind : CursorKind) : String :=
  PageCursor.encode ⟨r.cursorSortValue, r.cursorId⟩ kind

/-- `trim_page_rows`. -/
def trimPageRows (rows : List (PageRow α)) (limit : Nat) (kind : CursorKind) :
    List (PageRow α) × Option String :=
  if limit < rows.length then
    (rows.take limit,
      (rows.take limit).getLast?.map fun r => rowCursor r kind)
  else (rows, none)

/-! ## Rows -/

/-- A transaction with its block. -/
structure ListedTransaction where
  id : Int32
  hash : Option String
  timestampUnixSeconds : Int64
  stateId : Int32
  blockHeight : Int64
  blockHash : Option String
  chainId : Int32
  deriving DecidableEq, Inhabited

/-- A row of `address_transactions`. -/
structure AddressTransaction where
  addressId : Int32
  transactionId : Int32
  timestampUnixSeconds : Int64
  deriving DecidableEq

/-- An event with what the list joins to it. -/
structure ListedEvent where
  id : Int32
  timestampUnixSeconds : Int64
  chainId : Int32
  eventKindId : Int32
  eventKind : String
  transactionHash : Option String
  blockHeight : Int64
  blockHash : Option String
  addressId : Int32
  address : Option String
  addressName : Option String
  targetAddressId : Option Int32
  targetAddress : Option String
  contractHash : Option String
  contractName : Option String
  contractSymbol : Option String
  tokenId : Option String
  nftName : Option String
  nftDescription : Option String
  deriving DecidableEq

/-- The tables the lists read, with their keys. -/
structure ListDb where
  transactions : List ListedTransaction
  addressTransactions : List AddressTransaction
  events : List ListedEvent
  transactionIds : (transactions.map fun t => t.id).Nodup
  addressTransactionKeys :
    (addressTransactions.map fun l => (l.addressId, l.transactionId)).Nodup
  eventIds : (events.map fun e => e.id).Nodup
  linked : ∀ l ∈ addressTransactions,
    ∃ t ∈ transactions, t.id = l.transactionId

/-- `JOIN transactions tx ON tx.id = …`. -/
def ListDb.transaction (db : ListDb) (id : Int32) :
    Option ListedTransaction :=
  db.transactions.find? fun t => t.id == id

/-! ## Transactions -/

inductive TransactionOrderBy where
  | date
  | blockHeight
  deriving Repr, DecidableEq

def TransactionOrderBy.column (orderBy : TransactionOrderBy)
    (tx : ListedTransaction) : Int64 :=
  match orderBy with
  | .date => tx.timestampUnixSeconds
  | .blockHeight => tx.blockHeight

/-- `address_column`: the date is the one denormalised onto the link. -/
def TransactionOrderBy.addressColumn (orderBy : TransactionOrderBy)
    (addressTx : AddressTransaction) (tx : ListedTransaction) : Int64 :=
  match orderBy with
  | .date => addressTx.timestampUnixSeconds
  | .blockHeight => tx.blockHeight

structure TransactionFilter where
  hash : Option String
  blockHeight : Option Int64
  blockHash : Option String
  chainId : Option Int32
  stateId : Option Int32
  q : Option String
  dateGreater : Option Int64
  dateLess : Option Int64
  deriving DecidableEq

/-- `str::parse::<i64>().ok()`. -/
def parseI64 (text : String) : Option Int64 :=
  match parseSigned 64 text.toList with
  | .ok n => some (Int64.ofInt n)
  | .error _ => none

/-- `transaction_q_forms`. -/
def transactionQForms (q : Option String) : Option Int64 × Option String :=
  let qHeight := q.bind parseI64
  (qHeight,
    if qHeight.isNone then q.map fun value => "%" ++ value ++ "%" else none)

section

variable (ilike : String → String → Bool)

/-- The filters of the transaction lists. -/
def TransactionFilter.selects (filter : TransactionFilter)
    (tx : ListedTransaction) : Bool :=
  let (qHeight, qLike) := transactionQForms filter.q
  (filter.chainId.all fun id => tx.chainId == id) &&
  (filter.hash.all fun hash => tx.hash == some hash) &&
  (filter.blockHeight.all fun height => tx.blockHeight == height) &&
  (filter.blockHash.all fun hash => tx.blockHash == some hash) &&
  (filter.stateId.all fun id => tx.stateId == id) &&
  (filter.dateGreater.all fun date =>
    decide (date ≤ tx.timestampUnixSeconds)) &&
  (filter.dateLess.all fun date =>
    decide (tx.timestampUnixSeconds ≤ date)) &&
  ((qLike.isNone && qHeight.isNone) ||
    (qLike.any fun pattern =>
      (tx.hash.any fun hash => ilike hash pattern) ||
        tx.blockHash.any fun hash => ilike hash pattern) ||
    qHeight.any fun height => tx.blockHeight == height)

/-- `list_transactions_global`. -/
def listTransactionsGlobal (db : ListDb) (filter : TransactionFilter)
    (page : Page TransactionOrderBy) : List (PageRow ListedTransaction) :=
  page.select ((db.transactions.filter (filter.selects ilike)).map fun tx =>
    { row := tx
      cursorSortValue := page.orderBy.column tx
      cursorId := tx.id })

/-- `list_transactions_for_address_timeline`. By date the page is taken from
the links alone, and the transactions are joined to it. -/
def listTransactionsForAddressTimeline (db : ListDb) (addressId : Int32)
    (page : Page TransactionOrderBy) : List (PageRow ListedTransaction) :=
  let links := db.addressTransactions.filter fun l => l.addressId == addressId
  let addressPage : List (PageRow Int32) := page.select
    (match page.orderBy with
    | .date => links.map fun addressTx =>
        { row := addressTx.transactionId
          cursorSortValue := addressTx.timestampUnixSeconds
          cursorId := addressTx.transactionId }
    | .blockHeight => links.filterMap fun addressTx =>
        (db.transaction addressTx.transactionId).map fun tx =>
          { row := addressTx.transactionId
            cursorSortValue := tx.blockHeight
            cursorId := addressTx.transactionId })
  page.direction.sort (addressPage.filterMap fun r =>
    (db.transaction r.row).map fun tx => { r with row := tx })

/-- `list_transactions_for_filtered_address`. -/
def listTransactionsForFilteredAddress (db : ListDb) (addressId : Int32)
    (filter : TransactionFilter) (page : Page TransactionOrderBy) :
    List (PageRow ListedTransaction) :=
  let links := db.addressTransactions.filter fun l => l.addressId == addressId
  page.select (links.filterMap fun addressTx =>
    ((db.transaction addressTx.transactionId).filter
        (filter.selects ilike)).map fun tx =>
      { row := tx
        cursorSortValue := page.orderBy.addressColumn addressTx tx
        cursorId := addressTx.transactionId })

/-- A request for transactions, with its names resolved. The address is
`some none` when it is asked for and unknown. -/
structure TransactionQuery where
  address : Option (Option Int32)
  filter : TransactionFilter
  orderBy : TransactionOrderBy
  direction : SortDirection

def TransactionQuery.cursorKind (query : TransactionQuery) : CursorKind :=
  if query.address.isSome then .txAddress else .tx

def TransactionFilter.isEmpty (filter : TransactionFilter) : Bool :=
  filter.hash.isNone && filter.blockHeight.isNone &&
    filter.blockHash.isNone && filter.chainId.isNone &&
    filter.stateId.isNone && filter.q.isNone && filter.dateGreater.isNone &&
    filter.dateLess.isNone

/-- The query `load_transactions` runs. -/
def TransactionQuery.list (query : TransactionQuery) (db : ListDb)
    (page : Page TransactionOrderBy) : List (PageRow ListedTransaction) :=
  match query.address with
  | none => listTransactionsGlobal ilike db query.filter page
  | some none => []
  | some (some addressId) =>
      if query.filter.isEmpty then
        listTransactionsForAddressTimeline db addressId page
      else listTransactionsForFilteredAddress ilike db addressId query.filter page

/-- The page of a request with this cursor. -/
def pageAt (orderBy : ο) (direction : SortDirection) (limit : Nat)
    (cursor : Option PageCursor) : Page ο where
  orderBy := orderBy
  direction := direction
  cursorSortValue := cursor.map fun c => c.sortValue
  cursorId := cursor.map fun c => c.id
  limit := limit

/-- `load_transactions`, up to the rows and the next cursor. -/
def loadTransactions (query : TransactionQuery) (db : ListDb)
    (limit : Option Int) (cursor : Option String) :
    Except String (List (PageRow ListedTransaction) × Option String) :=
  match PageCursor.parseOptional cursor query.cursorKind with
  | .error e => .error e
  | .ok c =>
      let page := pageAt query.orderBy query.direction (clampLimit limit) c
      .ok (trimPageRows (query.list ilike db page) page.limit query.cursorKind)

/-! ## Events -/

inductive EventOrderBy where
  | id
  | date
  | blockHeight
  deriving Repr, DecidableEq

def EventOrderBy.column (orderBy : EventOrderBy) (event : ListedEvent) :
    Int64 :=
  match orderBy with
  | .id => event.id.toInt64
  | .date => event.timestampUnixSeconds
  | .blockHeight => event.blockHeight

structure EventFilter where
  transactionHash : Option String
  blockHeight : Option Int64
  eventKindId : Option Int32
  contract : Option String
  q : Option String
  eventId : Option Int32
  tokenId : Option String
  blockHash : Option String
  dateLess : Option Int64
  dateGreater : Option Int64
  dateDay : Option Int64
  eventKindPartialIds : Option (List Int32)
  nftNamePartial : Option String
  nftDescriptionPartial : Option String
  addressPartial : Option String
  chainId : Option Int32
  deriving DecidableEq

/-- `event_q_forms`. -/
def eventQForms (q : Option String) : Option String × Option Int64 :=
  (q.map fun value => "%" ++ value ++ "%", q.bind parseI64)

/-- The filters both event lists share; `texts` are the columns that `q` is
matched against. -/
def EventFilter.selects (filter : EventFilter) (event : ListedEvent)
    (texts : List (Option String)) : Bool :=
  let (qLike, qHeight) := eventQForms filter.q
  (filter.eventKindId.all fun id => event.eventKindId == id) &&
  (filter.eventKindPartialIds.all fun ids => ids.contains event.eventKindId) &&
  (filter.transactionHash.all fun hash => event.transactionHash == some hash) &&
  (filter.blockHeight.all fun height => event.blockHeight == height) &&
  (filter.contract.all fun contract => event.contractHash == some contract ||
    event.contractName == some contract ||
    event.contractSymbol == some contract) &&
  (filter.eventId.all fun id => event.id == id) &&
  (qLike.all fun pattern =>
    (texts.any fun text => text.any fun value => ilike value pattern) ||
      qHeight.any fun height => event.blockHeight == height) &&
  (filter.tokenId.all fun token => event.tokenId == some token) &&
  (filter.blockHash.all fun hash => event.blockHash == some hash) &&
  (filter.dateLess.all fun date =>
    decide (event.timestampUnixSeconds ≤ date)) &&
  (filter.dateGreater.all fun date =>
    decide (date ≤ event.timestampUnixSeconds)) &&
  (filter.dateDay.all fun day =>
    decide (day ≤ event.timestampUnixSeconds) &&
      decide (event.timestampUnixSeconds.toInt < day.toInt + 86400)) &&
  (filter.nftNamePartial.all fun pattern =>
    event.nftName.any fun name => ilike name pattern) &&
  (filter.nftDescriptionPartial.all fun pattern =>
    event.nftDescription.any fun text => ilike text pattern) &&
  (filter.addressPartial.all fun pattern =>
    (event.address.any fun address => ilike address pattern) ||
      event.addressName.any fun name => ilike name pattern)

/-- The columns of an event that `q` searches. -/
def ListedEvent.texts (event : ListedEvent) : List (Option String) :=
  [event.transactionHash, event.blockHash, some event.eventKind,
    event.address, event.addressName, event.contractHash, event.contractName,
    event.contractSymbol, event.tokenId]

def listedEventRow (orderBy : EventOrderBy) (event : ListedEvent) :
    PageRow ListedEvent where
  row := event
  cursorSortValue := orderBy.column event
  cursorId := event.id

/-- `list_events_global`. -/
def listEventsGlobal (db : ListDb) (filter : EventFilter)
    (page : Page EventOrderBy) : List (PageRow ListedEvent) :=
  page.select ((db.events.filter fun event =>
    (filter.chainId.all fun id => event.chainId == id) &&
      filter.selects ilike event event.texts).map (listedEventRow page.orderBy))

/-- `list_events_by_address`. -/
def listEventsByAddress (db : ListDb) (addressId : Int32)
    (filter : EventFilter) (page : Page EventOrderBy) :
    List (PageRow ListedEvent) :=
  page.select ((db.events.filter fun event =>
    (event.addressId == addressId ||
      event.targetAddressId == some addressId) &&
    (filter.chainId.all fun id => event.chainId == id) &&
      filter.selects ilike event (event.targetAddress :: event.texts)).map
        (listedEventRow page.orderBy))

/-- A request for events, with its names resolved. -/
structure EventQuery where
  address : Option (Option Int32)
  filter : EventFilter
  orderBy : EventOrderBy
  direction : SortDirection

def EventQuery.list (query : EventQuery) (db : ListDb)
    (page : Page EventOrderBy) : List (PageRow ListedEvent) :=
  match query.address with
  | none => listEventsGlobal ilike db query.filter page
  | some none => []
  | some (some addressId) =>
      listEventsByAddress ilike db addressId query.filter page

/-- `load_events`, up to the rows and the next cursor. -/
def loadEvents (query : EventQuery) (db : ListDb) (limit : Option Int)
    (cursor : Option String) :
    Except String (List (PageRow ListedEvent) × Option String) :=
  match PageCursor.parseOptional cursor .event with
  | .error e => .error e
  | .ok c =>
      let page := pageAt query.orderBy query.direction (clampLimit limit) c
      .ok (trimPageRows (query.list ilike db page) page.limit .event)

end

end Explorer.Ref
