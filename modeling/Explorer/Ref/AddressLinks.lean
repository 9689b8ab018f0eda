import Mathlib.Data.List.Dedup
import Mathlib.Data.List.Nodup
import Mathlib.Data.List.MinMax

/-!
# The address links of a block (`crates/db/src/lib.rs`)

`address_transactions` links a transaction to every address it names, with the
timestamp of the transaction copied onto the link. After a block is written
its links are replaced by three statements: drop the links that are no longer
wanted, insert those that are missing, and lower the first transaction of the
addresses.

The tables keep their primary and foreign keys as fields. The order in which
links are inserted is not observable and is left out.
-/

namespace Explorer.Ref

structure LinkedTransaction where
  id : Nat
  timestampUnixSeconds : Int
  senderId : Nat
  gasPayerId : Nat
  gasTargetId : Nat
  deriving DecidableEq

structure LinkedEvent where
  id : Nat
  transactionId : Nat
  addressId : Nat
  deriving DecidableEq

/-- A row of `address_transactions`. -/
structure AddressLink where
  addressId : Nat
  transactionId : Nat
  timestampUnixSeconds : Int
  deriving DecidableEq

structure LinkedAddress where
  id : Nat
  firstTxUnixSeconds : Option Int
  deriving DecidableEq

/-- The primary key of a link, transaction first. -/
def AddressLink.key (l : AddressLink) : Nat × Nat :=
  (l.transactionId, l.addressId)

/-- What the statements read and write. -/
structure LinkDb where
  transactions : List LinkedTransaction
  events : List LinkedEvent
  links : List AddressLink
  addresses : List LinkedAddress
  transactionIds : (transactions.map fun tx => tx.id).Nodup
  linkKeys : (links.map AddressLink.key).Nodup
  eventTransactions : ∀ e ∈ events, ∃ tx ∈ transactions,
    tx.id = e.transactionId

/-- `candidate_address_links`. The address columns are not null. -/
def candidateAddressLinks (db : LinkDb) (transactionIds : List Nat) :
    List (Nat × Nat) :=
  let txs := db.transactions.filter fun tx => transactionIds.contains tx.id
  txs.map (fun tx => (tx.id, tx.senderId)) ++
    txs.map (fun tx => (tx.id, tx.gasPayerId)) ++
    txs.map (fun tx => (tx.id, tx.gasTargetId)) ++
    (db.events.filter fun e => transactionIds.contains e.transactionId).map
      fun e => (e.transactionId, e.addressId)

def desiredLinks (db : LinkDb) (transactionIds : List Nat) :
    List (Nat × Nat) :=
  (candidateAddressLinks db transactionIds).dedup

def LinkDb.linked (db : LinkDb) (key : Nat × Nat) : Bool :=
  db.links.any fun l => l.key == key

/-- The first statement. -/
def deleteStaleLinks (db : LinkDb) (transactionIds : List Nat) : LinkDb :=
  { db with
    links := db.links.filter fun l =>
      !(transactionIds.contains l.transactionId &&
        !(desiredLinks db transactionIds).contains l.key)
    linkKeys := List.Nodup.sublist (List.filter_sublist.map _) db.linkKeys }

/-- The rows of the second statement, with the timestamp of the transaction
that is joined to them. -/
def missingLinks (db : LinkDb) (transactionIds : List Nat) :
    List AddressLink :=
  ((desiredLinks db transactionIds).filter fun key =>
    !db.linked key).filterMap fun key =>
      (db.transactions.find? fun tx => tx.id == key.1).map fun tx =>
        { addressId := key.2
          transactionId := key.1
          timestampUnixSeconds := tx.timestampUnixSeconds }

theorem missingLinks_keys (db : LinkDb) (transactionIds : List Nat) :
    ((missingLinks db transactionIds).map AddressLink.key).Sublist
      ((desiredLinks db transactionIds).filter fun key => !db.linked key) := by
  rw [missingLinks, List.map_filterMap]
  induction (desiredLinks db transactionIds).filter fun key =>
      !db.linked key with
  | nil => exact List.Sublist.slnil
  | cons key keys ih =>
      rw [List.filterMap_cons]
      cases db.transactions.find? fun tx => tx.id == key.1 with
      | none => exact ih.cons key
      | some tx => exact ih.cons_cons key

theorem missingLinks_nodup (db : LinkDb) (transactionIds : List Nat) :
    ((db.links ++ missingLinks db transactionIds).map
      AddressLink.key).Nodup := by
  have hsub := missingLinks_keys db transactionIds
  rw [List.map_append]
  refine db.linkKeys.append (hsub.nodup ((List.nodup_dedup _).filter _)) ?_
  intro key hold hnew
  obtain ⟨l, hl, rfl⟩ := List.mem_map.mp hold
  have hfree := (List.mem_filter.mp (hsub.subset hnew)).2
  have hlinked : db.linked l.key = true :=
    List.any_eq_true.mpr ⟨l, hl, beq_self_eq_true _⟩
  rw [hlinked] at hfree
  cases hfree

/-- The second statement. -/
def insertMissingLinks (db : LinkDb) (transactionIds : List Nat) : LinkDb :=
  { db with
    links := db.links ++ missingLinks db transactionIds
    linkKeys := missingLinks_nodup db transactionIds }

/-- The timestamps of the third statement for one address. -/
def candidateTimestamps (db : LinkDb) (transactionIds : List Nat)
    (addressId : Nat) : List Int :=
  let txs := db.transactions.filter fun tx => transactionIds.contains tx.id
  let candidates : List (Nat × Int) :=
    txs.map (fun tx => (tx.senderId, tx.timestampUnixSeconds)) ++
      txs.map (fun tx => (tx.gasPayerId, tx.timestampUnixSeconds)) ++
      txs.map (fun tx => (tx.gasTargetId, tx.timestampUnixSeconds)) ++
      (db.events.filter fun e =>
        transactionIds.contains e.transactionId).filterMap fun e =>
          (db.transactions.find? fun tx => tx.id == e.transactionId).map
            fun tx => (e.addressId, tx.timestampUnixSeconds)
  (candidates.filter fun c => c.1 == addressId).map fun c => c.2

/-- The third statement. -/
def lowerFirstTransactions (db : LinkDb) (transactionIds : List Nat) :
    LinkDb :=
  { db with
    addresses := db.addresses.map fun address =>
      match (candidateTimestamps db transactionIds address.id).min? with
      | none => address
      | some first =>
          if address.firstTxUnixSeconds.all fun t => decide (first < t) then
            { address with firstTxUnixSeconds := some first }
          else address }

/-- `replace_address_transactions_for_block`: the tables it leaves and the
number of links it inserted. -/
def replaceAddressTransactionsForBlock (db : LinkDb)
    (transactionIds : List Nat) : LinkDb × Nat :=
  if transactionIds.isEmpty then (db, 0)
  else
    let kept := deleteStaleLinks db transactionIds
    (lowerFirstTransactions (insertMissingLinks kept transactionIds)
        transactionIds,
      (missingLinks kept transactionIds).length)

/-- `replace_address_transactions_for_transaction`. -/
def replaceAddressTransactionsForTransaction (db : LinkDb)
    (transactionId : Nat) : LinkDb × Nat :=
  replaceAddressTransactionsForBlock db [transactionId]

end Explorer.Ref
