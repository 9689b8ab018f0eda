import Explorer.Ref.ChainTables
import Mathlib.Data.Finmap
import Mathlib.Data.List.Sort
import Mathlib.Logic.Function.Basic

/-!
# The dimension cache (`crates/db/src/lib.rs`)

Addresses, event kinds, contracts and transaction states are rows of their own
with a surrogate id, and every block, transaction and event refers to them by
it. `ProjectionDimensionCache` remembers the ids; three of its five maps
outlive the block that filled them.

A block write is a transaction: it works on its own view of the store, which
becomes the store when it commits and is dropped otherwise. What other
connections commit meanwhile is visible to it at once and stays either way.
Sequences are not rolled back. The write itself is a `Script`: it resolves
keys through the cache, adds dimension rows on the side, and runs statements
over the rows that refer to them. A statement sees the dimension rows with
their columns, and the others as a join with them shows them, with keys where
the columns hold ids. It writes ids only by copying them from a row, a dimension
row or a resolved key; no statement of the source computes with an id. What a
row holds besides is a parameter.
-/

namespace Explorer.Ref

/-! ## Dimensions -/

inductive Dimension where
  | addresses
  | eventKinds
  | contracts
  | transactionStates
  deriving Repr, DecidableEq

/-- The unique columns of a dimension row. -/
inductive Key where
  | address (chain : Nat) (address : String)
  | eventKind (name : String)
  | contract (chain : Nat) (hash : String)
  | transactionState (name : String)
  deriving Repr, DecidableEq

def Key.dimension : Key → Dimension
  | .address _ _ => .addresses
  | .eventKind _ => .eventKinds
  | .contract _ _ => .contracts
  | .transactionState _ => .transactionStates

/-- A dimension row without its id. Contracts have a name and a symbol. -/
structure DimensionContent where
  key : Key
  name : Option String := none
  symbol : Option String := none
  deriving Repr, DecidableEq

structure DimensionRow extends DimensionContent where
  id : Nat
  deriving Repr, DecidableEq

/-- A row that refers to dimension rows. -/
structure ContentRow (δ : Type) where
  data : δ
  refs : List (Dimension × Nat)

structure Store (δ : Type) where
  dims : List DimensionRow
  rows : List (ContentRow δ)

variable {δ : Type}

/-- The row under a key. -/
def Store.find (s : Store δ) (key : Key) : Option DimensionRow :=
  s.dims.find? fun r => r.key == key

def Store.add (s : Store δ) (r : DimensionRow) : Store δ :=
  { s with dims := s.dims ++ [r] }

/-- The key an id stands for, as a join finds it. -/
def keyOf (dims : List DimensionRow) (ref : Dimension × Nat) : Option Key :=
  (dims.find? fun r => r.key.dimension == ref.1 && r.id == ref.2).map
    fun r => r.key

/-- The rows as a statement sees them. -/
def View (δ : Type) : Type := List (δ × List (Option Key))

def Store.view (s : Store δ) : View δ :=
  s.rows.map fun r => (r.data, r.refs.map (keyOf s.dims))

/-- A store up to its ids. -/
structure Contents (δ : Type) where
  dims : List DimensionContent
  rows : View δ

def Store.contents (s : Store δ) : Contents δ where
  dims := s.dims.map DimensionRow.toDimensionContent
  rows := s.view

/-! ## The cache -/

/-- The maps of `ProjectionDimensionCache`. -/
inductive Family where
  | addresses
  | headerAddresses
  | transactionStates
  | eventKinds
  | contracts
  deriving Repr, DecidableEq

/-- The families that `take_for_block` moves. -/
def Family.crossBlock : Family → Bool
  | .addresses | .transactionStates => false
  | .headerAddresses | .eventKinds | .contracts => true

/-- `ProjectionDimensionCache`: its five maps from keys to ids. -/
def ProjectionDimensionCache : Type := Family → Finmap fun _ : Key => Nat

def ProjectionDimensionCache.new : ProjectionDimensionCache := fun _ => ∅

/-- `take_for_block`: the cache of the block, and what the holder keeps. -/
def ProjectionDimensionCache.takeForBlock (holder : ProjectionDimensionCache) :
    ProjectionDimensionCache × ProjectionDimensionCache :=
  (fun f => if f.crossBlock then holder f else ∅,
    fun f => if f.crossBlock then ∅ else holder f)

/-- `restore_after_commit`. -/
def ProjectionDimensionCache.restoreAfterCommit
    (holder blockCache : ProjectionDimensionCache) :
    ProjectionDimensionCache :=
  fun f => if f.crossBlock then blockCache f else holder f

def ProjectionDimensionCache.remember (cache : ProjectionDimensionCache)
    (family : Family) (key : Key) (id : Nat) : ProjectionDimensionCache :=
  Function.update cache family ((cache family).insert key id)

/-! ## A transaction -/

/-- A block write under way: the store without it and with it, the sequences,
its cache, and the ids it has resolved so far. -/
structure BlockTx (δ : Type) where
  base : Store δ
  view : Store δ
  sequences : Dimension → Nat
  cache : ProjectionDimensionCache
  resolved : List (Dimension × Nat)

/-- `nextval`. -/
def BlockTx.burn (tx : BlockTx δ) (d : Dimension) : BlockTx δ :=
  { tx with
    sequences := Function.update tx.sequences d (tx.sequences d + 1) }

/-- An `INSERT` of this transaction, with the id it returns. -/
def BlockTx.insert (tx : BlockTx δ) (c : DimensionContent) :
    Nat × BlockTx δ :=
  let id := tx.sequences c.key.dimension
  (id, { tx.burn c.key.dimension with view := tx.view.add { c with id := id } })

/-- An `INSERT` that another connection commits. A row under the key keeps it
out. -/
def BlockTx.elsewhere (tx : BlockTx δ) (c : DimensionContent) : BlockTx δ :=
  match tx.view.find c.key with
  | some _ => tx
  | none =>
      let r : DimensionRow := { c with id := tx.sequences c.key.dimension }
      { tx.burn c.key.dimension with
        base := tx.base.add r
        view := tx.view.add r }

/-- `upsert_address_id` and `upsert_event_kind_id`. With `race`, another
connection commits the row between the select and the insert; the insert then
does nothing, and the second select finds that row. -/
def BlockTx.upsertKey (tx : BlockTx δ) (key : Key) (race : Bool) :
    Nat × BlockTx δ :=
  match tx.view.find key with
  | some r => (r.id, tx)
  | none =>
      if race then
        (tx.sequences key.dimension,
          (tx.elsewhere { key := key }).burn key.dimension)
      else tx.insert { key := key }

/-- `upsert_address_id`. -/
def BlockTx.upsertAddressId (tx : BlockTx δ) (chain : Nat) (address : String)
    (race : Bool) : Nat × BlockTx δ :=
  tx.upsertKey (.address chain address) race

/-- `upsert_event_kind_id`. -/
def BlockTx.upsertEventKindId (tx : BlockTx δ) (name : String)
    (race : Bool) : Nat × BlockTx δ :=
  tx.upsertKey (.eventKind name) race

/-- `upsert_transaction_state_id`. Its insert has no conflict clause, so a row
of another connection fails the write. -/
def BlockTx.upsertTransactionStateId (tx : BlockTx δ) (name : String) :
    Nat × BlockTx δ :=
  tx.upsertKey (.transactionState name) false

/-- `NULL` or the empty text. -/
def isBlankColumn (value : Option String) : Bool := (value.getD "").isEmpty

/-- The `CASE` of the contract upserts. -/
def DimensionContent.fill (value : String) (c : DimensionContent) :
    DimensionContent :=
  { c with
    name := if isBlankColumn c.name then some value else c.name
    symbol := if isBlankColumn c.symbol then some value else c.symbol }

/-- `DO UPDATE` on the row of the contract. -/
def BlockTx.fillContract (tx : BlockTx δ) (chain : Nat) (hash : String) :
    BlockTx δ :=
  { tx with
    view :=
      { tx.view with
        dims := tx.view.dims.map fun r =>
          if r.key == .contract chain hash then
            { r.toDimensionContent.fill hash with id := r.id }
          else r } }

/-- `INSERT INTO contracts … ON CONFLICT DO UPDATE`. With `race`, another
connection has committed a row of the contract, with this name and symbol,
right before. -/
def BlockTx.insertContract (tx : BlockTx δ) (chain : Nat) (hash : String)
    (race : Option (Option String × Option String)) : Nat × BlockTx δ :=
  match tx.view.find (.contract chain hash), race with
  | some r, _ => (r.id, (tx.fillContract chain hash).burn .contracts)
  | none, none => tx.insert ⟨.contract chain hash, some hash, some hash⟩
  | none, some (name, symbol) =>
      (tx.sequences .contracts,
        ((tx.elsewhere ⟨.contract chain hash, name, symbol⟩).fillContract
          chain hash).burn .contracts)

/-- `upsert_contract_id`. -/
def BlockTx.upsertContractId (tx : BlockTx δ) (chain : Nat) (hash : String)
    (race : Option (Option String × Option String)) : Nat × BlockTx δ :=
  match tx.view.find (.contract chain hash) with
  | some r =>
      if !isBlankColumn r.name && !isBlankColumn r.symbol then (r.id, tx)
      else tx.insertContract chain hash race
  | none => tx.insertContract chain hash race

/-! ## Through the cache -/

/-- The resolvers of the cache differ in the map, the key and the upsert. -/
def BlockTx.cachedId (tx : BlockTx δ) (family : Family) (key : Key)
    (upsert : BlockTx δ → Nat × BlockTx δ) : Nat × BlockTx δ :=
  match (tx.cache family).lookup key with
  | some id => (id, tx)
  | none =>
      let (id, tx') := upsert tx
      (id, { tx' with cache := tx'.cache.remember family key id })

/-- `header_address_id`. -/
def BlockTx.headerAddressId (tx : BlockTx δ) (chain : Nat) (address : String)
    (race : Bool) : Nat × BlockTx δ :=
  tx.cachedId .headerAddresses (.address chain address)
    fun tx => tx.upsertAddressId chain address race

/-- `address_id`. -/
def BlockTx.addressId (tx : BlockTx δ) (chain : Nat) (address : String)
    (race : Bool) : Nat × BlockTx δ :=
  tx.cachedId .addresses (.address chain address)
    fun tx => tx.upsertAddressId chain address race

/-- `transaction_state_id`. -/
def BlockTx.transactionStateId (tx : BlockTx δ) (name : String) :
    Nat × BlockTx δ :=
  tx.cachedId .transactionStates (.transactionState name)
    fun tx => tx.upsertTransactionStateId name

/-- `event_kind_id`. -/
def BlockTx.eventKindId (tx : BlockTx δ) (name : String) (race : Bool) :
    Nat × BlockTx δ :=
  tx.cachedId .eventKinds (.eventKind name)
    fun tx => tx.upsertEventKindId name race

/-- `contract_id`. -/
def BlockTx.contractId (tx : BlockTx δ) (chain : Nat) (hash : String)
    (race : Option (Option String × Option String)) : Nat × BlockTx δ :=
  tx.cachedId .contracts (.contract chain hash)
    fun tx => tx.upsertContractId chain hash race

/-- `INSERT … ON CONFLICT DO NOTHING` of one address. -/
def BlockTx.insertAddress (tx : BlockTx δ) (chain : Nat) (address : String) :
    BlockTx δ :=
  match tx.view.find (.address chain address) with
  | some _ => tx.burn .addresses
  | none => (tx.insert { key := .address chain address }).2

/-- The select after the batch insert. -/
def BlockTx.loadAddress (tx : BlockTx δ) (chain : Nat) (address : String) :
    BlockTx δ :=
  match tx.view.find (.address chain address) with
  | some r =>
      { tx with
        cache := tx.cache.remember .addresses (.address chain address) r.id }
  | none => tx

/-- `prefetch_addresses`. -/
def BlockTx.prefetchAddresses (tx : BlockTx δ) (chain : Nat)
    (addresses : List String) : BlockTx δ :=
  let missing := addresses.filter fun a =>
    ((tx.cache .addresses).lookup (.address chain a)).isNone
  let inserted := missing.foldl (fun tx a => tx.insertAddress chain a) tx
  missing.foldl (fun tx a => tx.loadAddress chain a) inserted

/-! ## A block write -/

/-- A call of one of the resolvers. -/
inductive DimensionCall where
  | headerAddress (chain : Nat) (address : String) (race : Bool)
  | address (chain : Nat) (address : String) (race : Bool)
  | transactionState (name : String)
  | eventKind (name : String) (race : Bool)
  | contract (chain : Nat) (hash : String)
      (race : Option (Option String × Option String))

def DimensionCall.dimension : DimensionCall → Dimension
  | .headerAddress _ _ _ | .address _ _ _ => .addresses
  | .transactionState _ => .transactionStates
  | .eventKind _ _ => .eventKinds
  | .contract _ _ _ => .contracts

def BlockTx.call (tx : BlockTx δ) : DimensionCall → Nat × BlockTx δ
  | .headerAddress chain address race => tx.headerAddressId chain address race
  | .address chain address race => tx.addressId chain address race
  | .transactionState name => tx.transactionStateId name
  | .eventKind name race => tx.eventKindId name race
  | .contract chain hash race => tx.contractId chain hash race

/-- The id goes to those that statements may use. -/
def BlockTx.resolve (tx : BlockTx δ) (call : DimensionCall) : BlockTx δ :=
  let (id, tx') := tx.call call
  { tx' with resolved := tx'.resolved ++ [(call.dimension, id)] }

/-- Where a statement takes an id from. -/
inductive Slot where
  | column (row column : Nat)
  | dimension (row : Nat)
  | resolved (index : Nat)
  deriving Repr, DecidableEq

/-- A statement: the rows it leaves, given what it finds. -/
def Statement (δ : Type) : Type := Contents δ → List (δ × List Slot)

/-- The element a slot names among the columns of the rows, the dimension rows
and the resolved keys. -/
def Slot.get {α : Type} (rows : List (List α)) (dims resolved : List α) :
    Slot → Option α
  | .column i j => rows[i]?.bind fun columns => columns[j]?
  | .dimension i => dims[i]?
  | .resolved i => resolved[i]?

def DimensionRow.ref (r : DimensionRow) : Dimension × Nat :=
  (r.key.dimension, r.id)

def BlockTx.execute (tx : BlockTx δ) (statement : Statement δ) : BlockTx δ :=
  { tx with
    view :=
      { tx.view with
        rows := (statement tx.view.contents).map fun x =>
          { data := x.1
            refs := x.2.filterMap
              (Slot.get (tx.view.rows.map ContentRow.refs)
                (tx.view.dims.map DimensionRow.ref) tx.resolved) } } }

/-- What a block write does next. -/
inductive Script (δ : Type) where
  | done
  /-- The code gives the block up. -/
  | fail
  | resolve (call : DimensionCall) (next : Script δ)
  | prefetch (chain : Nat) (addresses : List String) (next : Script δ)
  /-- A statement that adds an address, or a contract, on the side. -/
  | addressRow (chain : Nat) (address : String) (next : Script δ)
  | contractRow (chain : Nat) (hash : String) (next : Script δ)
  | execute (statement : Statement δ) (next : Script δ)
  /-- The code branches on what it selects. -/
  | select (next : Contents δ → Script δ)
  /-- Another connection commits a dimension row. -/
  | elsewhere (content : DimensionContent) (next : Script δ)

/-- The write up to its commit. -/
def Script.run : Script δ → BlockTx δ → Option (BlockTx δ)
  | .done, tx => some tx
  | .fail, _ => none
  | .resolve call next, tx => next.run (tx.resolve call)
  | .prefetch chain addresses next, tx =>
      next.run (tx.prefetchAddresses chain addresses)
  | .addressRow chain address next, tx =>
      next.run (tx.insertAddress chain address)
  | .contractRow chain hash next, tx =>
      next.run (tx.insertContract chain hash none).2
  | .execute statement next, tx => next.run (tx.execute statement)
  | .select next, tx => (next tx.view.contents).run tx
  | .elsewhere content next, tx => next.run (tx.elsewhere content)

/-- The write stopped after `n` of its calls. -/
def Script.runFor : Nat → Script δ → BlockTx δ → BlockTx δ
  | 0, _, tx => tx
  | _ + 1, .done, tx => tx
  | _ + 1, .fail, tx => tx
  | n + 1, .resolve call next, tx => next.runFor n (tx.resolve call)
  | n + 1, .prefetch chain addresses next, tx =>
      next.runFor n (tx.prefetchAddresses chain addresses)
  | n + 1, .addressRow chain address next, tx =>
      next.runFor n (tx.insertAddress chain address)
  | n + 1, .contractRow chain hash next, tx =>
      next.runFor n (tx.insertContract chain hash none).2
  | n + 1, .execute statement next, tx => next.runFor n (tx.execute statement)
  | n + 1, .select next, tx => (next tx.view.contents).runFor n tx
  | n + 1, .elsewhere content next, tx => next.runFor n (tx.elsewhere content)

/-! ## The calls of a block -/

/-- Calls one after the other. -/
def resolveAll (calls : List DimensionCall) (next : Script δ) : Script δ :=
  calls.foldr Script.resolve next

/-- The header addresses of `upsert_block`. -/
def headerCalls (chain : Nat) (b : BlockUpsert) : List DimensionCall :=
  [.headerAddress chain (b.chainAddress.getD "NULL") false,
    .headerAddress chain (b.validatorAddress.getD "NULL") false] ++
  b.producerAddress.toList.map fun a => .headerAddress chain a false

/-- The three addresses of a transaction. -/
def TransactionUpsert.addresses (x : TransactionUpsert) : List String :=
  [x.sender, x.gasPayer, x.gasTarget].map fun a => a.getD "NULL"

/-- The distinct addresses of the transactions, in order. -/
def transactionAddresses (xs : List TransactionUpsert) : List String :=
  ((xs.flatMap TransactionUpsert.addresses).insertionSort
    fun a b => a ≤ b).dedup

/-- The calls of `batch_upsert_transactions`. -/
def transactionCalls (chain : Nat) (x : TransactionUpsert) :
    List DimensionCall :=
  .transactionState x.state :: x.addresses.map fun a => .address chain a false

/-- The calls of `insert_block_events`. -/
def eventCalls (chain : Nat) (e : EventUpsert) : List DimensionCall :=
  [.eventKind e.eventKind false,
    .address chain (e.address.getD "NULL") false] ++
  ((e.targetAddress.bind usableAddress).toList.map fun a =>
    .address chain a false) ++
  [.contract chain (e.contract.getD "unknown") none]

/-- `project_decoded_block`, with the statements on the rows left open. -/
def projectScript (chain : Nat) (block : DecodedBlock)
    (upsertBlock upsertTransactions projectEvents : Statement δ) : Script δ :=
  resolveAll (headerCalls chain block.header) <|
  .execute upsertBlock <|
  .prefetch chain (transactionAddresses (block.transactions.map Prod.fst)) <|
  resolveAll (block.transactions.flatMap fun x =>
    transactionCalls chain x.1) <|
  .execute upsertTransactions <|
  resolveAll (block.transactions.flatMap fun x =>
    x.2.flatMap (eventCalls chain)) <|
  .execute projectEvents .done

/-! ## One write after another -/

/-- The process: the holder of the cache, the committed store and the
sequences. -/
structure Projector (δ : Type) where
  holder : ProjectionDimensionCache
  store : Store δ
  sequences : Dimension → Nat

/-- The transaction of a write at its start. -/
def Projector.open (p : Projector δ) (cache : ProjectionDimensionCache) :
    BlockTx δ where
  base := p.store
  view := p.store
  sequences := p.sequences
  cache := cache
  resolved := []

/-- What happens: a write commits, and the answer to its commit arrives or
not; a write is given up after `n` calls, by an error or a cancellation, with
ids its last statement had drawn; another connection commits a row. -/
inductive ProjectorAct (δ : Type) where
  | write (script : Script δ) (acknowledged : Bool)
  | abandon (script : Script δ) (n : Nat) (drawn : Dimension → Nat)
  | elsewhere (content : DimensionContent)

/-- `write_decoded_block` and `project_raw_block`: the cache of the block goes
back to the holder after an acknowledged commit only. -/
def projectorStep (p : Projector δ) : ProjectorAct δ → Option (Projector δ)
  | .write script acknowledged =>
      let (blockCache, holder) := p.holder.takeForBlock
      (script.run (p.open blockCache)).map fun tx =>
        { holder := if acknowledged then holder.restoreAfterCommit tx.cache
            else holder
          store := tx.view
          sequences := tx.sequences }
  | .abandon script n drawn =>
      let (blockCache, holder) := p.holder.takeForBlock
      let tx := script.runFor n (p.open blockCache)
      some
        { holder := holder
          store := tx.base
          sequences := fun d => tx.sequences d + drawn d }
  | .elsewhere content =>
      let tx := (p.open ProjectionDimensionCache.new).elsewhere content
      some { p with store := tx.view, sequences := tx.sequences }

def ProjectorStep (p : Projector δ) (a : ProjectorAct δ) (p' : Projector δ) :
    Prop :=
  projectorStep p a = some p'

end Explorer.Ref
