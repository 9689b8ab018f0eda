import Explorer.Ref.OffsetLists

/-!
# The block list (`handlers.rs`, `reads/blocks.rs`)

`/blocks` reads its parameters one after the other, makes a filter of them and
asks for one row more than the page has. A parameter that is blank is absent.
`id` and `q` look a block up by height or by hash; a comparison with `NULL`
does not hold, on either side. The transactions that a request can ask for are
read afterwards and change no row.
-/

namespace Explorer.Ref

open Explorer.Lib

/-! ## Tables -/

/-- A row of `blocks`. -/
structure BlockCells where
  id : Int32
  height : Int64
  timestampUnixSeconds : Int64
  chainId : Int32
  hash : Option String
  protocol : Int32
  chainAddressId : Int32
  validatorAddressId : Int32
  producerAddressId : Option Int32
  reward : Option String
  deriving DecidableEq

/-- The tables the list reads, with the keys of the blocks. -/
structure BlockListDb where
  chains : List ChainCells
  blocks : List BlockCells
  /-- The addresses under their ids. -/
  addresses : List (Int32 × String)
  /-- The block of each transaction. -/
  transactionBlocks : List Int32
  blockIds : (blocks.map fun b => b.id).Nodup

/-- A row of the list. -/
structure BlockListRow where
  id : Int32
  height : Int64
  hash : Option String
  previousHash : String
  protocol : Int32
  chainAddress : Option String
  validatorAddress : Option String
  producerAddress : Option String
  timestampUnixSeconds : Int64
  reward : Option String
  transactionCount : Nat
  deriving DecidableEq

/-! ## `list_blocks` -/

inductive BlockOrderBy where
  | id
  | height
  | hash
  | date
  deriving Repr, DecidableEq

/-- `BlockOrderBy::from_api_param`. -/
def BlockOrderBy.fromApiParam (value : Option String) : Option BlockOrderBy :=
  match value.getD "id" with
  | "id" => some .id
  | "height" => some .height
  | "hash" => some .hash
  | "date" => some .date
  | _ => none

structure BlockFilter where
  chainId : Int32
  id : Option String
  idHeight : Option Int64
  hash : Option String
  height : Option Int64
  qHeight : Option Int64
  qHash : Option String
  dateLess : Option Int64
  dateGreater : Option Int64

/-- The `WHERE` clause. `$6` guards `$7` as well. -/
def BlockFilter.selects (filter : BlockFilter) (block : BlockCells) : Bool :=
  block.chainId == filter.chainId &&
  (filter.id.all fun id => block.hash == some id ||
    filter.idHeight.any fun height => block.height == height) &&
  (filter.hash.all fun hash => block.hash == some hash) &&
  (filter.height.all fun height => block.height == height) &&
  (filter.qHeight.all fun height => block.height == height ||
    filter.qHash.any fun hash => block.hash == some hash) &&
  (filter.dateLess.all fun date =>
    decide (block.timestampUnixSeconds ≤ date)) &&
  filter.dateGreater.all fun date =>
    decide (date ≤ block.timestampUnixSeconds)

/-- An address that is joined by its id. -/
def BlockListDb.address (db : BlockListDb) (id : Int32) : Option String :=
  db.addresses.lookup id

/-- The `SELECT` list. -/
def BlockListDb.row (db : BlockListDb) (block : BlockCells) : BlockListRow :=
  let previousBlock := db.blocks.find? fun previous =>
    previous.chainId == block.chainId &&
      decide (previous.height.toInt = block.height.toInt - 1)
  { id := block.id
    height := block.height
    hash := block.hash
    previousHash := (previousBlock.bind fun previous => previous.hash).getD
      (String.ofList (List.replicate 64 '0'))
    protocol := block.protocol
    chainAddress := db.address block.chainAddressId
    validatorAddress := db.address block.validatorAddressId
    producerAddress := block.producerAddressId.bind db.address
    timestampUnixSeconds := block.timestampUnixSeconds
    reward := block.reward
    transactionCount := db.transactionBlocks.count block.id }

section

variable (textLe : String → String → Bool)

/-- The order of the column. -/
def BlockOrderBy.le (orderBy : BlockOrderBy) (a b : BlockCells) : Bool :=
  match orderBy with
  | .id => decide (a.id ≤ b.id)
  | .height => decide (a.height ≤ b.height)
  | .hash => nullsLast textLe a.hash b.hash
  | .date => decide (a.timestampUnixSeconds ≤ b.timestampUnixSeconds)

/-- The rows `list_blocks` slices. -/
def selectBlocks (db : BlockListDb) (filter : BlockFilter)
    (orderBy : BlockOrderBy) (direction : SortDirection) :
    List BlockListRow :=
  (direction.orderBy (orderBy.le textLe) (fun block => block.id.toInt)
    (db.blocks.filter filter.selects)).map db.row

/-- `list_blocks`. -/
def listBlocks (db : BlockListDb) (filter : BlockFilter)
    (orderBy : BlockOrderBy) (direction : SortDirection) (limit offset : Nat) :
    List BlockListRow :=
  offsetPage (selectBlocks textLe db filter orderBy direction) limit offset

end

/-! ## `/blocks` -/

structure BlockListQuery where
  limit : Option Int := none
  cursor : Option String := none
  orderBy : Option String := none
  orderDirection : Option String := none
  id : Option String := none
  hash : Option String := none
  height : Option String := none
  q : Option String := none
  chain : Option String := none
  dateLess : Option String := none
  dateGreater : Option String := none

/-- `BlockOrderBy::from_api_param` or the error of the handler. -/
def parseBlockOrderBy (orderByParam : Option String) :
    Except ApiError BlockOrderBy :=
  match BlockOrderBy.fromApiParam orderByParam with
  | some orderBy => .ok orderBy
  | none => .error (.badRequest
      ("unsupported order_by '" ++ orderByParam.getD "" ++ "'"))

/-- `normalize_block_id`. -/
def normalizeBlockId (toUppercase : String → String) (value : String) : String :=
  toUppercase (String.ofList (trim value.toList))

/-- `q_height`. -/
def qHeight (q : Option String) : Option Int64 :=
  match parseOptionalI64 q "q" with
  | .ok height => height
  | .error _ => none

/-- `q_hash`: `len` counts bytes. -/
def qHash (toUppercase : String → String) (q : Option String) : Option String :=
  (q.filter fun value => decide (64 ≤ byteLen value.toList)).map toUppercase

/-- `blocks`, up to the rows and the next cursor. -/
def blocks (toUppercase : String → String) (textLe : String → String → Bool)
    (db : BlockListDb) (defaultChain : String) (query : BlockListQuery) :
    Except ApiError (List BlockListRow × Option String) := do
  let limit := clampLimit query.limit
  let offset ← parseOptionalOffset query.cursor
  let chain := queryChain query.chain defaultChain
  let chainId ← resolveChainIdByName db.chains chain
  let orderBy ← parseBlockOrderBy (emptyToNone query.orderBy)
  let direction ← parseSortDirection query.orderDirection
  let id := (emptyToNone query.id).map (normalizeBlockId toUppercase)
  let idHeight := id.bind parseI64
  let hash := (emptyToNone query.hash).map toUppercase
  let height ← parseOptionalI64 (emptyToNone query.height) "height"
  let q := emptyToNone query.q
  let dateLess ← parseOptionalI64 (emptyToNone query.dateLess) "date_less"
  let dateGreater ←
    parseOptionalI64 (emptyToNone query.dateGreater) "date_greater"
  let filter : BlockFilter :=
    { chainId, id, idHeight, hash, height
      qHeight := qHeight q
      qHash := qHash toUppercase q
      dateLess, dateGreater }
  let rows := listBlocks textLe db filter orderBy direction (limit + 1)
    offset.toNat
  .ok (trimOffsetRows rows limit offset.toNat)

end Explorer.Ref
