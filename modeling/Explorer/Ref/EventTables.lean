import Explorer.Lib.Surrogate
import Explorer.Ref.BlockWrites
import Mathlib.Data.List.MinMax
import Mathlib.Data.Prod.Lex

/-!
# What events do to tokens, series and NFTs (`crates/db/src/events.rs`)

`project_block_events` writes the events of a block and then runs the side
effects of each transaction, one statement after the other. The rows here
stand under their natural keys: a contract under its hash, an NFT under its
contract and token id, a series under its contract and series id. Of the
payload an event has what the statements read of it.

A statement that the database rejects fails the projection and leaves nothing,
so the functions are what the statements do where they are accepted.
-/

namespace Explorer.Ref

open Explorer.Lib

/-- The kinds that the statements name. -/
inductive EventKind where
  | tokenMint
  | tokenClaim
  | tokenBurn
  | tokenSend
  | tokenReceive
  | tokenStake
  | crownRewards
  | inflation
  | infusion
  | orderCancelled
  | orderClosed
  | orderCreated
  | orderFilled
  | orderBid
  | tokenCreate
  | tokenSeriesCreate
  | contractDeploy
  | contractUpgrade
  | other (name : String)
  deriving Repr, DecidableEq

/-- `is_nft_side_effect_event_kind`, and the list of the statements. -/
def EventKind.isNftSideEffect : EventKind → Bool
  | .tokenMint | .tokenClaim | .tokenBurn | .tokenSend | .tokenReceive
  | .tokenStake | .crownRewards | .inflation | .infusion | .orderCancelled
  | .orderClosed | .orderCreated | .orderFilled | .orderBid => true
  | _ => false

/-- The kinds of `tx_ownership_events`. -/
def EventKind.isOwnership : EventKind → Bool
  | .tokenMint | .tokenClaim | .tokenBurn | .tokenSend | .tokenReceive
  | .tokenStake | .crownRewards | .inflation | .orderFilled => true
  | _ => false

/-- A row of `token_create_values`. -/
structure TokenCreate where
  symbol : String
  fungible : Bool
  deriving Repr, DecidableEq

/-- The key of an NFT. -/
structure TokenKey where
  contract : String
  tokenId : String
  deriving Repr, DecidableEq

structure SeriesKey where
  contract : String
  seriesId : String
  deriving Repr, DecidableEq

/-- An `EventUpsert`, with what the statements read of its payload. -/
structure TokenEvent where
  eventIndex : Int
  kind : EventKind
  contract : String
  tokenId : Option String := none
  address : String
  timestamp : Int
  burned : Option Bool := none
  /-- `token_create_event`. -/
  create : Option TokenCreate := none
  /-- `string_event.string_value`. -/
  contractHash : Option String := none
  /-- `token_series_event.series_id`. -/
  seriesId : Option String := none
  /-- `token_mint_extended.series_id`. -/
  mintSeriesId : Option String := none
  deriving Repr, DecidableEq

def TokenEvent.token (e : TokenEvent) : Option TokenKey :=
  e.tokenId.map fun id => ⟨e.contract, id⟩

-- Spelled out, since the order of `Int` that is found first may not compute.
local instance stampPreorder : Preorder (Int ×ₗ Int) :=
  @Prod.Lex.instPreorder Int Int Int.instLinearOrder.toPreorder
    Int.instLinearOrder.toPreorder

local instance stampDecidableLT : DecidableLT (Int ×ₗ Int) :=
  (@Prod.Lex.instLinearOrder Int Int Int.instLinearOrder
    Int.instLinearOrder).toDecidableLT

local instance keyLawfulBEq : LawfulBEq (Int × Int) := inferInstance

/-- `ORDER BY timestamp_unix_seconds DESC, event_index DESC`, from its end. -/
def TokenEvent.order (e : TokenEvent) : Int ×ₗ Int :=
  toLex (e.timestamp, e.eventIndex)

/-- A transaction and its events, one batch of `project_block_events`. -/
structure EventBatch where
  transactionId : Int
  events : List TokenEvent

/-! ## The tables -/

/-- A row of `events`: `burned` and `nft_id` change after the insert. -/
structure TokenEventRow where
  transactionId : Int
  event : TokenEvent
  burned : Option Bool
  nft : Option TokenKey
  deriving Repr, DecidableEq

def TokenEventRow.key (r : TokenEventRow) : Int × Int :=
  (r.transactionId, r.event.eventIndex)

structure ContractRow where
  hash : String
  symbol : Option String
  deriving Repr, DecidableEq

structure TokenRow where
  contract : String
  symbol : String
  fungible : Bool
  deriving Repr, DecidableEq

structure NftRow where
  key : TokenKey
  series : Option SeriesKey
  burned : Option Bool
  deriving Repr, DecidableEq

structure SeriesRow where
  key : SeriesKey
  currentSupply : Int
  deriving Repr, DecidableEq

structure OwnershipCells where
  nft : TokenKey
  address : String
  lastChange : Int
  amount : Int
  deriving Repr, DecidableEq

structure EventDb where
  events : List TokenEventRow := []
  contracts : List ContractRow := []
  tokens : List TokenRow := []
  nfts : List NftRow := []
  series : List SeriesRow := []
  ownerships : SerialTable OwnershipCells := ⟨[], 1⟩
  /-- `address_transactions`, which no statement here writes. -/
  addressTransactions : List (String × Int) := []

/-- What the statements leave to the server: `lower`, and which row an
`UPDATE … FROM` takes where several match. -/
structure SqlServer where
  lower : String → String
  row : List SeriesKey → Nat

namespace EventDb

variable (sql : SqlServer) (s : EventDb) (tx : Int)

/-- `WHERE event.transaction_id = $1`. -/
def eventsOf : List TokenEventRow :=
  s.events.filter fun r => r.transactionId == tx

/-- A token of the contract with `fungible IS FALSE`. -/
def nonFungible (contract : String) : Bool :=
  s.tokens.any fun t => t.contract == contract && !t.fungible

/-! ## Contracts and tokens -/

/-- `INSERT INTO contracts … ON CONFLICT (chain_id, hash)`. -/
def fillContract (hash : String) : EventDb :=
  { s with
    contracts :=
      if s.contracts.any fun c => c.hash == hash then
        s.contracts.map fun c =>
          if c.hash == hash && isBlankColumn c.symbol then
            { c with symbol := some hash }
          else c
      else s.contracts ++ [⟨hash, some hash⟩] }

def fillContracts (hashes : List String) : EventDb :=
  hashes.foldl fillContract s

/-- `token_create_values`. -/
def tokenCreateValues : List TokenCreate :=
  (s.eventsOf tx).filterMap fun r =>
    if r.event.kind = .tokenCreate then r.event.create else none

/-- `token_rows`: the join is on the symbol of the contract, whatever its
case. -/
def tokenRows (values : List TokenCreate) : List TokenRow :=
  values.flatMap fun v =>
    ((s.contracts.filter fun c =>
      decide (c.hash ∈ values.map TokenCreate.symbol)).filter fun c =>
        c.symbol.map sql.lower == some (sql.lower v.symbol)).map fun c =>
          ⟨c.hash, v.symbol, v.fungible⟩

/-- `INSERT INTO tokens … ON CONFLICT (chain_id, contract_id, symbol)`. -/
def upsertToken (t : TokenRow) : EventDb :=
  { s with
    tokens := upsertRow (fun r => r.contract == t.contract &&
      r.symbol == t.symbol) t s.tokens }

/-- `upsert_tokens_for_transaction`. -/
def upsertTokens : EventDb :=
  let values := s.tokenCreateValues tx
  let filled := s.fillContracts (values.map TokenCreate.symbol).dedup
  (filled.tokenRows sql values).foldl upsertToken filled

/-- `apply_contract_string_event_side_effects_for_transaction`. -/
def applyContractStrings : EventDb :=
  s.fillContracts ((s.eventsOf tx).filterMap fun r =>
    if r.event.kind = .contractDeploy ∨ r.event.kind = .contractUpgrade then
      r.event.contractHash
    else none).dedup

/-! ## Series and NFTs -/

/-- A new series starts at zero, and a conflict keeps the supply. -/
def insertSeries (k : SeriesKey) : EventDb :=
  { s with
    series :=
      if s.series.any fun r => r.key == k then s.series
      else s.series ++ [⟨k, 0⟩] }

/-- `upsert_series_for_transaction`. -/
def upsertSeries : EventDb :=
  ((s.eventsOf tx).filterMap fun r =>
    if r.event.kind = .tokenSeriesCreate then
      r.event.seriesId.map fun id => (⟨r.event.contract, id⟩ : SeriesKey)
    else none).foldl insertSeries s

/-- `nft_event_candidates`. -/
def isCandidate (r : TokenEventRow) : Bool :=
  r.event.tokenId.isSome && s.nonFungible r.event.contract &&
    r.event.kind.isNftSideEffect

/-- `has_nft_side_effect_candidates`. -/
def hasNftCandidates : Bool := (s.eventsOf tx).any s.isCandidate

def insertNft (k : TokenKey) : EventDb :=
  { s with
    nfts :=
      if s.nfts.any fun n => n.key == k then s.nfts
      else s.nfts ++ [⟨k, none, none⟩] }

/-- The first statement: a row for each NFT that is named. -/
def insertNfts : EventDb :=
  (((s.eventsOf tx).filter s.isCandidate).filterMap fun r =>
    r.event.token).foldl insertNft s

/-- The second one: `nft_id`. -/
def linkEvents : EventDb :=
  { s with
    events := s.events.map fun r =>
      if r.transactionId == tx && s.isCandidate r &&
          s.nfts.any fun n => some n.key == r.event.token then
        { r with nft := r.event.token }
      else r }

/-! ## Ownership -/

/-- `ownership_events`. -/
def ownershipEvents : List (TokenKey × TokenEvent) :=
  (s.eventsOf tx).filterMap fun r =>
    r.event.token.bind fun k =>
      if r.event.kind.isOwnership && (s.nfts.any fun n => n.key == k) &&
          s.nonFungible r.event.contract then
        some (k, r.event)
      else none

/-- `desired_ownership`: for each NFT the last of its events. -/
def desiredOwnership : List (TokenKey × TokenEvent) :=
  let events := s.ownershipEvents tx
  (events.map Prod.fst).dedup.filterMap fun k =>
    (((events.filter fun x => x.1 == k).map Prod.snd).argmax
      TokenEvent.order).map fun e => (k, e)

end EventDb

/-- `ownership_anchor`: of the rows of an NFT the one that changed first. -/
def ownershipAnchor (t : SerialTable OwnershipCells) (k : TokenKey) :
    Option (Stored OwnershipCells) :=
  (t.rows.filter fun r => r.cells.nft == k).argmin fun r =>
    (toLex (r.cells.lastChange, r.id) : Int ×ₗ Int)

/-- What the statement does for one NFT. All parts of it read the rows `old`
that were there before it; the insert goes by the anchor, and its conflict
clause by address and NFT. -/
def writeOwnership (old t : SerialTable OwnershipCells)
    (desired : TokenKey × TokenEvent) : SerialTable OwnershipCells :=
  let (k, e) := desired
  match ownershipAnchor old k with
  | some anchor =>
      if anchor.cells.lastChange ≤ e.timestamp then
        t.update anchor.id
          { anchor.cells with address := e.address, lastChange := e.timestamp }
      else t
  | none =>
      match t.rows.find? fun r => r.cells.nft == k &&
        r.cells.address == e.address with
      | some r =>
          t.update r.id
            { r.cells with
              lastChange := max e.timestamp r.cells.lastChange
              amount := 1 }
      | none => t.insert ⟨k, e.address, e.timestamp, 1⟩

namespace EventDb

variable (sql : SqlServer) (s : EventDb) (tx : Int)

/-- The third statement of `apply_nft_side_effects_for_transaction`. -/
def applyOwnership : EventDb :=
  { s with
    ownerships := (s.desiredOwnership tx).foldl
      (writeOwnership s.ownerships) s.ownerships }

/-- `apply_nft_side_effects_for_transaction`. -/
def applyNftSideEffects : EventDb :=
  ((s.insertNfts tx).linkEvents tx).applyOwnership tx

/-! ## Series of minted NFTs -/

/-- `mint_values`. -/
def mintValues : List (TokenKey × SeriesKey) :=
  (s.eventsOf tx).filterMap fun r =>
    if r.event.kind = .tokenMint ∧ s.nonFungible r.event.contract = true then
      r.nft.bind fun k =>
        r.event.mintSeriesId.map fun id => (k, ⟨r.event.contract, id⟩)
    else none

/-- The series that the update takes for an NFT. -/
def mintSeries (values : List (TokenKey × SeriesKey)) (k : TokenKey) :
    Option SeriesKey :=
  let found := (values.filter fun x => x.1 == k).map Prod.snd
  found[sql.row found % found.length]?

/-- `apply_token_mint_extended_side_effects_for_transaction`. -/
def applyMintExtended : EventDb :=
  let values := s.mintValues tx
  let s := (values.map Prod.snd).foldl insertSeries s
  { s with
    nfts := s.nfts.map fun n =>
      match mintSeries sql values n.key with
      | some k => { n with series := some k }
      | none => n }

/-! ## Supply and burns -/

/-- A row of the query of `apply_series_lifecycle_for_transaction`. -/
structure LifecycleEvent where
  mint : Bool
  nft : TokenKey
  series : SeriesKey
  deriving Repr, DecidableEq

/-- The query: mints and burns of NFTs that are in a series. -/
def lifecycleEvents : List LifecycleEvent :=
  ((s.eventsOf tx).insertionSort fun a b =>
    a.event.eventIndex ≤ b.event.eventIndex).filterMap fun r =>
      if r.event.kind = .tokenMint ∨ r.event.kind = .tokenBurn then
        (s.nfts.find? fun n => some n.key == r.nft).bind fun n =>
          n.series.map fun k => ⟨r.event.kind == .tokenMint, n.key, k⟩
      else none

def setBurned (k : TokenKey) (burned : Bool) : EventDb :=
  { s with
    nfts := s.nfts.map fun n =>
      if n.key == k then { n with burned := some burned } else n }

def changeSupply (k : SeriesKey) (change : Int → Int) : EventDb :=
  { s with
    series := s.series.map fun r =>
      if r.key == k then { r with currentSupply := change r.currentSupply }
      else r }

/-- One round of the loop. The supply changes only where the flag did. -/
def applyLifecycleEvent (e : LifecycleEvent) : EventDb :=
  if e.mint then
    if s.nfts.any fun n => n.key == e.nft && n.burned != some false then
      (s.setBurned e.nft false).changeSupply e.series fun n => n + 1
    else s
  else
    if s.nfts.any fun n => n.key == e.nft && n.burned != some true then
      (s.setBurned e.nft true).changeSupply e.series fun n =>
        if 0 < n then n - 1 else n
    else s

/-- `apply_series_lifecycle_for_transaction`. -/
def applySeriesLifecycle : EventDb :=
  (s.lifecycleEvents tx).foldl applyLifecycleEvent s

/-- `tx_contract.symbol IS DISTINCT FROM 'KCAL'`. -/
def notKcal (contract : String) : Bool :=
  !s.contracts.any fun c => c.hash == contract && c.symbol == some "KCAL"

/-- A stored `TokenBurn` of the token. -/
def hasBurn (k : TokenKey) : Bool :=
  s.events.any fun r => decide (r.event.kind = .tokenBurn) &&
    r.event.token == some k

/-- `burn_tokens`: burned by the transaction, or named by it and burned by any
event. -/
def burnTokens : List TokenKey :=
  ((s.eventsOf tx).filterMap fun r =>
    r.event.token.bind fun k =>
      if s.notKcal r.event.contract &&
          (decide (r.event.kind = .tokenBurn) || s.hasBurn k) then some k
      else none).dedup

/-- The two updates of the loop. -/
def markBurned (k : TokenKey) : EventDb :=
  { s with
    events := s.events.map fun r =>
      if r.event.token == some k then { r with burned := some true } else r
    nfts := s.nfts.map fun n =>
      if n.key == k then { n with burned := some true } else n }

/-- `apply_burn_markers_for_transaction`. -/
def applyBurnMarkers : EventDb :=
  (s.burnTokens tx).foldl markBurned s

/-! ## A block -/

/-- `apply_block_event_side_effects`. -/
def applyBlockEventSideEffects (batch : EventBatch) : EventDb :=
  let tx := batch.transactionId
  let s := s.upsertTokens sql tx
  let s :=
    if batch.events.any fun e =>
        e.kind == .contractDeploy || e.kind == .contractUpgrade then
      s.applyContractStrings tx
    else s
  let s :=
    if batch.events.any fun e => e.kind == .tokenSeriesCreate then
      s.upsertSeries tx
    else s
  let s :=
    if (batch.events.any fun e =>
        e.tokenId.isSome && e.kind.isNftSideEffect) &&
        s.hasNftCandidates tx then
      s.applyNftSideEffects tx
    else s
  let s :=
    if batch.events.any fun e => e.mintSeriesId.isSome then
      s.applyMintExtended sql tx
    else s
  let s :=
    if batch.events.any fun e => e.tokenId.isSome &&
        (e.kind == .tokenMint || e.kind == .tokenBurn) then
      s.applySeriesLifecycle tx
    else s
  if batch.events.any fun e => e.tokenId.isSome then s.applyBurnMarkers tx
  else s

/-- The rows of the batches, as the upserts dictate them. -/
def batchRows (batches : List EventBatch) : List TokenEventRow :=
  batches.flatMap fun b => b.events.map fun e =>
    ⟨b.transactionId, e, e.burned, none⟩

def upsertEvent (r : TokenEventRow) : EventDb :=
  { s.fillContract r.event.contract with
    events := upsertRow (fun x => x.key == r.key) r s.events }

/-- `insert_block_events`. Both its branches leave these rows. -/
def insertBlockEvents (batches : List EventBatch) : EventDb :=
  let rows := batchRows batches
  rows.foldl upsertEvent
    { s with
      events := s.events.filter fun r =>
        !(decide (r.transactionId ∈ batches.map EventBatch.transactionId) &&
          !decide (r.key ∈ rows.map TokenEventRow.key)) }

/-- `project_block_events`. -/
def projectBlockEvents (batches : List EventBatch) : EventDb :=
  batches.foldl (applyBlockEventSideEffects sql) (s.insertBlockEvents batches)

/-- Blocks one after the other. -/
def projectBlocks (blocks : List (SqlServer × List EventBatch)) : EventDb :=
  blocks.foldl (fun s b => s.projectBlockEvents b.1 b.2) s

end EventDb

end Explorer.Ref
