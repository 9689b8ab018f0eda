import Explorer.Lib.Json
import Explorer.Lib.Surrogate
import Explorer.Ref.OffsetLists

/-!
# Contract methods and their history (`rpc_metadata.rs`,
`reads/contract_method_histories.rs`)

A contract points at one row of `contract_methods`, its current one. Two
statements write there: the metadata of a contract brings a first snapshot
when the contract points at none, and an upgrade brings the snapshot of its
time, or finds it, and points the contract at it. The parts of a statement see
the tables as they were before it, and a foreign key that does not hold fails
the whole statement.

The ids of failed statements are drawn and lost; here the next statement gets
them.
-/

namespace Explorer.Ref

open Explorer.Lib

/-! ## The tables -/

structure ContractAddressCells where
  chainId : Int
  address : String
  addressName : Option String
  deriving DecidableEq

structure ContractCells where
  name : Option String
  hash : Option String
  symbol : Option String
  scriptRaw : Option String
  chainId : Int
  addressId : Option Int
  contractMethodId : Option Int
  lastUpdatedUnixSeconds : Int
  deriving DecidableEq

structure ContractMethodCells where
  contractId : Int
  methods : Json
  timestampUnixSeconds : Int

structure ContractDb where
  chainIds : List Int
  addresses : SerialTable ContractAddressCells
  contracts : List (Stored ContractCells)
  contractMethods : SerialTable ContractMethodCells

/-! ## `apply_contract_rpc_metadata` -/

structure ContractRpcMetadataUpsert where
  contractId : Int
  address : Option String
  scriptRaw : Option String
  methods : Option Json
  insertCurrentMethod : Bool
  lastUpdatedUnixSeconds : Int

structure ContractRpcMetadataUpsertResult where
  updatedContract : Bool
  insertedMethod : Bool
  deriving DecidableEq

/-- `BTRIM`: spaces only. -/
def btrim (text : String) : String :=
  String.ofList (((text.toList.dropWhile (· == ' ')).reverse.dropWhile
    (· == ' ')).reverse)

/-- `NULLIF(BTRIM(text), '') IS NOT NULL`. -/
def notBlank (text : Option String) : Bool :=
  text.any fun t => btrim t != ""

/-- `upserted_address`: its id, and the table. -/
def upsertedAddress (db : ContractDb) (chainId : Int) (address : Option String) :
    Except String (Option Int × SerialTable ContractAddressCells) :=
  match address with
  | none => .ok (none, db.addresses)
  | some address =>
      if btrim address = "" ∨ btrim address = "NULL" then
        .ok (none, db.addresses)
      else
        match db.addresses.find (fun a => (a.chainId, a.address))
            (chainId, address) with
        | some row =>
            .ok (some row.id, { db.addresses with next := db.addresses.next + 1 })
        | none =>
            if db.chainIds.contains chainId then
              .ok (some db.addresses.next,
                db.addresses.insert ⟨chainId, address, none⟩)
            else .error "FK_Addresses_Chains_ChainId"

/-- The contract the statement is about, when it is one of the chain. -/
def ofContract (contractId chainId : Int) (contract : Stored ContractCells) :
    Bool :=
  contract.id == contractId && contract.cells.chainId == chainId

/-- `inserted_method`: the methods that are inserted. -/
def insertedMethod (db : ContractDb) (chainId : Int)
    (upsert : ContractRpcMetadataUpsert) : Option Json :=
  if upsert.insertCurrentMethod && db.contracts.any fun contract =>
      ofContract upsert.contractId chainId contract &&
        contract.cells.contractMethodId.isNone then
    upsert.methods
  else none

/-- `updated_contract`. -/
def updatedContract (upsert : ContractRpcMetadataUpsert)
    (addressId methodId : Option Int) (contract : ContractCells) :
    ContractCells :=
  { contract with
    addressId := addressId.or contract.addressId
    scriptRaw :=
      if notBlank upsert.scriptRaw then upsert.scriptRaw
      else contract.scriptRaw
    contractMethodId := methodId.or contract.contractMethodId
    lastUpdatedUnixSeconds := upsert.lastUpdatedUnixSeconds }

/-- An `UPDATE` of the contracts. -/
def updateContracts (p : Stored ContractCells → Bool)
    (f : ContractCells → ContractCells) (contracts : List (Stored ContractCells)) :
    List (Stored ContractCells) :=
  contracts.map fun contract =>
    if p contract then ⟨contract.id, f contract.cells⟩ else contract

def applyContractRpcMetadata (db : ContractDb) (chainId : Int)
    (upsert : ContractRpcMetadataUpsert) :
    Except String (ContractDb × ContractRpcMetadataUpsertResult) :=
  match upsertedAddress db chainId upsert.address with
  | .error e => .error e
  | .ok (addressId, addresses) =>
      let inserted := insertedMethod db chainId upsert
      .ok (
        { db with
          addresses := addresses
          contracts := updateContracts (ofContract upsert.contractId chainId)
            (updatedContract upsert addressId
              (inserted.map fun _ => db.contractMethods.next)) db.contracts
          contractMethods := match inserted with
            | some methods => db.contractMethods.insert
                ⟨upsert.contractId, methods, 0⟩
            | none => db.contractMethods },
        { updatedContract :=
            db.contracts.any (ofContract upsert.contractId chainId)
          insertedMethod := inserted.isSome })

/-! ## `apply_contract_upgrade_method` -/

structure ContractUpgradeMethodUpsert where
  contractId : Int
  methods : Json
  timestampUnixSeconds : Int

structure ContractUpgradeMethodUpsertResult where
  insertedMethod : Bool
  linkedContract : Bool
  deriving DecidableEq

/-- `existing_method`. -/
def existingMethod (db : ContractDb) (upsert : ContractUpgradeMethodUpsert) :
    Option Int :=
  (((db.contractMethods.rows.filter fun method =>
      method.cells.contractId == upsert.contractId &&
        method.cells.timestampUnixSeconds ==
          upsert.timestampUnixSeconds).map Stored.id).insertionSort
    fun a b => b ≤ a).head?

/-- `linked_contract`: the contracts that are pointed elsewhere. -/
def linksContract (upsert : ContractUpgradeMethodUpsert) (chainId target : Int)
    (contract : Stored ContractCells) : Bool :=
  ofContract upsert.contractId chainId contract &&
    contract.cells.contractMethodId != some target

def linkContracts (db : ContractDb) (chainId : Int)
    (upsert : ContractUpgradeMethodUpsert) (target : Int) :
    List (Stored ContractCells) :=
  updateContracts (linksContract upsert chainId target)
    (fun contract => { contract with contractMethodId := some target })
    db.contracts

def applyContractUpgradeMethod (db : ContractDb) (chainId : Int)
    (upsert : ContractUpgradeMethodUpsert) :
    Except String (ContractDb × ContractUpgradeMethodUpsertResult) :=
  match existingMethod db upsert with
  | some target =>
      .ok (
        { db with contracts := linkContracts db chainId upsert target },
        { insertedMethod := false
          linkedContract :=
            db.contracts.any (linksContract upsert chainId target) })
  | none =>
      if db.contracts.any fun contract => contract.id == upsert.contractId then
        let target := db.contractMethods.next
        .ok (
          { db with
            contracts := linkContracts db chainId upsert target
            contractMethods := db.contractMethods.insert
              ⟨upsert.contractId, upsert.methods,
                upsert.timestampUnixSeconds⟩ },
          { insertedMethod := true
            linkedContract :=
              db.contracts.any (linksContract upsert chainId target) })
      else .error "FK_ContractMethods_Contracts_ContractId"

/-! ## Calls -/

inductive ContractMethodCall where
  | rpcMetadata (chainId : Int) (upsert : ContractRpcMetadataUpsert)
  | upgradeMethod (chainId : Int) (upsert : ContractUpgradeMethodUpsert)

/-- A call that fails leaves the tables as they are. -/
def ContractDb.after (db : ContractDb) : ContractMethodCall → ContractDb
  | .rpcMetadata chainId upsert =>
      match applyContractRpcMetadata db chainId upsert with
      | .ok (db', _) => db'
      | .error _ => db
  | .upgradeMethod chainId upsert =>
      match applyContractUpgradeMethod db chainId upsert with
      | .ok (db', _) => db'
      | .error _ => db

def ContractDb.run (db : ContractDb) (calls : List ContractMethodCall) :
    ContractDb :=
  calls.foldl ContractDb.after db

/-! ## The reader -/

inductive ContractMethodHistoryOrderBy where
  | id
  | symbol
  | name
  | date
  deriving Repr, DecidableEq

/-- A row of the join. -/
structure MethodOfContract where
  method : Stored ContractMethodCells
  contract : Stored ContractCells

structure ContractMethodHistoryFilter where
  chainId : Int
  symbol : Option String := none
  hash : Option String := none
  dateLess : Option Int := none
  dateGreater : Option Int := none

/-- A row of the list. -/
structure ContractMethodHistoryRow where
  timestampUnixSeconds : Int
  name : Option String
  hash : Option String
  symbol : Option String
  scriptRaw : Option String
  address : Option String
  addressName : Option String
  methodsJson : Json
  tokenJson : Option Json

/-- `JOIN contracts contract ON contract.contract_method_id = method.id`. -/
def ContractDb.currentMethods (db : ContractDb) : List MethodOfContract :=
  db.contractMethods.rows.flatMap fun method =>
    (db.contracts.filter fun contract =>
      contract.cells.contractMethodId == some method.id).map fun contract =>
        ⟨method, contract⟩

/-- The `WHERE` clause. -/
def ContractMethodHistoryFilter.selects (filter : ContractMethodHistoryFilter)
    (row : MethodOfContract) : Bool :=
  row.contract.cells.chainId == filter.chainId &&
  (filter.symbol.all fun symbol => row.contract.cells.symbol == some symbol) &&
  (filter.hash.all fun hash => row.contract.cells.hash == some hash) &&
  (filter.dateLess.all fun date =>
    decide (row.method.cells.timestampUnixSeconds ≤ date)) &&
  filter.dateGreater.all fun date =>
    decide (date ≤ row.method.cells.timestampUnixSeconds)

/-- The `SELECT` list, with the contract's address joined to it. -/
def ContractDb.historyRow (db : ContractDb) (row : MethodOfContract) :
    ContractMethodHistoryRow :=
  let address := row.contract.cells.addressId.bind fun id =>
    db.addresses.rows.find? fun a => a.id == id
  { timestampUnixSeconds := row.method.cells.timestampUnixSeconds
    name := row.contract.cells.name
    hash := row.contract.cells.hash
    symbol := row.contract.cells.symbol
    scriptRaw := none
    address := address.map fun a => a.cells.address
    addressName := address.bind fun a => a.cells.addressName
    methodsJson := row.method.cells.methods
    tokenJson := none }

/-- The order of the column. -/
def ContractMethodHistoryOrderBy.le (textLe : String → String → Bool)
    (orderBy : ContractMethodHistoryOrderBy) (a b : MethodOfContract) : Bool :=
  match orderBy with
  | .id => decide (a.method.id ≤ b.method.id)
  | .symbol => nullsLast textLe a.contract.cells.symbol b.contract.cells.symbol
  | .name => nullsLast textLe a.contract.cells.name b.contract.cells.name
  | .date => decide (a.method.cells.timestampUnixSeconds ≤
      b.method.cells.timestampUnixSeconds)

/-- `list_contract_method_histories`. -/
def listContractMethodHistories (textLe : String → String → Bool)
    (db : ContractDb) (filter : ContractMethodHistoryFilter)
    (orderBy : ContractMethodHistoryOrderBy) (direction : SortDirection)
    (limit offset : Nat) : List ContractMethodHistoryRow :=
  (offsetPage (direction.orderBy (orderBy.le textLe) (fun row => row.method.id)
    (db.currentMethods.filter filter.selects)) limit offset).map db.historyRow

/-- `count_contract_method_histories`. -/
def countContractMethodHistories (db : ContractDb)
    (filter : ContractMethodHistoryFilter) : Nat :=
  (db.currentMethods.filter filter.selects).length

end Explorer.Ref
