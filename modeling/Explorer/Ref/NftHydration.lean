import Explorer.Lib.Firsts
import Explorer.Ref.Balances
import Explorer.Ref.ChainTables
import Explorer.Ref.ContractMethods
import Explorer.Ref.LegacyDecode
import Explorer.Ref.NftMetadata

/-!
# NFT metadata from the node (`crates/db/src/rpc_metadata.rs`)

A pass selects the first NFTs without an answer of the node, asks for them one
symbol at a time (`fetch_nft_rpc_metadata`), and writes the answers in one
statement. The batch call of a symbol can fail or leave items out, and these
are asked for one by one. A series without a presentation of its own takes that
of one of its NFTs; the answers for series are written by a second statement.

The tables are those of one chain, and the rows of `nfts` stand in the order of
their ids. An address, a series or a mode that a row refers to by id is here
the address, the key or the name. Two answers for one NFT in one statement are
a tie: which of them the update takes is the server's, for each row and in each
call anew, and `DISTINCT ON` takes the first.
-/

namespace Explorer.Ref

open Explorer.Lib

/-! ## The tables -/

structure HydrationContract where
  id : Int
  symbol : Option String
  deriving DecidableEq

/-- An event that names an NFT, with the height of its block. -/
structure NftEvent where
  nftId : Option Int
  kind : String
  height : Int
  deriving DecidableEq

/-- The key of a series: its contract and its id. -/
abbrev SeriesRef := Int × String

structure HydratedNft where
  id : Int
  contractId : Int
  tokenId : Option String
  burned : Option Bool := none
  creatorAddress : Option String := none
  series : Option SeriesRef := none
  mintNumber : Int := 0
  mintDateUnixSeconds : Int := 0
  rom : Option String := none
  ram : Option String := none
  name : Option String := none
  description : Option String := none
  image : Option String := none
  infoUrl : Option String := none
  metadata : Option Json := none
  chainApiResponse : Option Json := none
  dmUnixSeconds : Int := 0

structure HydratedSeries where
  key : SeriesRef
  currentSupply : Int := 0
  maxSupply : Int := 0
  mode : Option String := none
  creatorAddress : Option String := none
  name : Option String := none
  description : Option String := none
  image : Option String := none
  royalties : Int := 0
  seriesType : Int := 0
  hasLocked : Bool := false
  metadata : Option Json := none
  chainApiResponse : Option Json := none
  dmUnixSeconds : Int := 0

structure HydrationDb where
  contracts : List HydrationContract
  events : List NftEvent
  nfts : List HydratedNft
  series : List HydratedSeries := []
  modes : List String := []
  addresses : List String := []

/-- What the statements leave to the server. -/
structure HydrationSql where
  lower : String → String

/-- What one call leaves to it: which of several matches an `UPDATE … FROM`
takes for a row, by its place. -/
structure HydrationPicks where
  nft : Int → Nat
  series : SeriesRef → Nat

/-! ## Candidates -/

structure NftRpcMetadataCandidate where
  symbol : String
  tokenId : String
  deriving DecidableEq

/-- The kinds of events that let an NFT be asked for. -/
def hydrationEventKinds : List String :=
  ["TokenMint", "TokenClaim", "TokenBurn", "TokenSend", "TokenReceive",
    "TokenStake", "CrownRewards", "Inflation", "Infusion", "OrderCancelled",
    "OrderClosed", "OrderCreated", "OrderFilled", "OrderBid"]

/-- `value ~ '^[0-9]+$' AND value::numeric > 0`. -/
def isPositiveDigits (value : String) : Bool :=
  value.toList.all Char.isDigit && value.toList.any (· != '0')

/-- The stored answer has a mint date that the column has not. -/
def storedMintDate (sql : HydrationSql) (response : Json) : Bool :=
  match response.get "properties" with
  | some (.arr properties) =>
      properties.any fun property =>
        ((property.get "key").bind jsonScalarToString).any (fun key =>
          ["created", "mint_date"].contains (sql.lower key)) &&
        ((property.get "value").bind jsonScalarToString).any isPositiveDigits
  | _ => false

section

variable (sql : HydrationSql) (db : HydrationDb)

/-- The row of `contracts` that the join finds. -/
def HydrationDb.contractOf (nft : HydratedNft) : Option HydrationContract :=
  db.contracts.find? fun contract => contract.id == nft.contractId

/-- The `WHERE` clause. -/
def HydrationDb.isNftCandidate (minMintBlockHeight : Int)
    (includeStoredRpcFieldDrift : Bool) (nft : HydratedNft) : Bool :=
  (nft.tokenId.any fun tokenId => tokenId != "") && !nft.burned.getD false &&
    (match nft.chainApiResponse with
      | none => true
      | some response => includeStoredRpcFieldDrift &&
          nft.mintDateUnixSeconds == 0 && storedMintDate sql response) &&
    db.events.any fun event => event.nftId == some nft.id &&
      hydrationEventKinds.contains event.kind &&
      decide (minMintBlockHeight < event.height)

/-- The NFTs that are selected, without the limit. -/
def HydrationDb.nftCandidates (minMintBlockHeight : Int)
    (includeStoredRpcFieldDrift : Bool) : List HydratedNft :=
  db.nfts.filter fun nft => (db.contractOf nft).isSome &&
    db.isNftCandidate sql minMintBlockHeight includeStoredRpcFieldDrift nft

/-- A row as `(String, String)`. -/
def HydrationDb.decodeCandidate (nft : HydratedNft) :
    Option NftRpcMetadataCandidate :=
  ((db.contractOf nft).bind HydrationContract.symbol).bind fun symbol =>
    nft.tokenId.map fun tokenId => ⟨symbol, tokenId⟩

/-- `fetch_nft_rpc_metadata_candidates_impl`; a contract without a symbol among
the rows is an error. -/
def fetchNftRpcMetadataCandidatesImpl (minMintBlockHeight : Int)
    (batchSize : Nat) (includeStoredRpcFieldDrift : Bool) :
    Option (List NftRpcMetadataCandidate) :=
  ((db.nftCandidates sql minMintBlockHeight includeStoredRpcFieldDrift).take
    batchSize).mapM db.decodeCandidate

def fetchNftRpcMetadataRepairCandidates (minMintBlockHeight : Int)
    (batchSize : Nat) : Option (List NftRpcMetadataCandidate) :=
  fetchNftRpcMetadataCandidatesImpl sql db minMintBlockHeight batchSize true

end

/-! ## The node -/

/-- An item of an answer, and the object that it is serialised as. -/
structure NftAnswer where
  data : SdkTokenDataResult
  json : Json.Fields

/-- What the node answers during a pass. No call is made twice in one. -/
structure NftNode where
  getNfts : String → List String → Except RpcError (List NftAnswer)
  getNft : String → String → Except RpcError NftAnswer

def NftAnswer.upsert (symbol : String) (nft : NftAnswer) :
    Option NftRpcMetadataUpsert :=
  nftResultToMetadataUpsert (.obj nft.json) symbol nft.data

/-- `by_symbol`, a `BTreeMap`. -/
def candidatesBySymbol (candidates : List NftRpcMetadataCandidate) :
    List (String × List String) :=
  let symbols := (candidates.map NftRpcMetadataCandidate.symbol).dedup
  (symbols.mergeSort fun a b => decide (a ≤ b)).map fun symbol =>
    (symbol, (candidates.filter fun candidate =>
      candidate.symbol == symbol).map NftRpcMetadataCandidate.tokenId)

/-- One NFT by itself. -/
def fetchOneNft (node : NftNode) (symbol : String)
    (upserts : List NftRpcMetadataUpsert) (tokenId : String) :
    List NftRpcMetadataUpsert :=
  match node.getNft symbol tokenId with
  | .ok nft => upserts ++ (nft.upsert symbol).toList
  | .error error =>
      recordNftMetadataFetchFailure upserts symbol tokenId error

/-- The loop body of `fetch_nft_rpc_metadata`. -/
def fetchNftsOfSymbol (node : NftNode) (upserts : List NftRpcMetadataUpsert)
    (group : String × List String) : List NftRpcMetadataUpsert :=
  match node.getNfts group.1 group.2 with
  | .ok nfts =>
      let seen := nfts.map fun nft => nft.data.id
      (group.2.filter fun tokenId => !seen.contains tokenId).foldl
        (fetchOneNft node group.1)
        (upserts ++ nfts.filterMap (NftAnswer.upsert group.1))
  | .error _ => group.2.foldl (fetchOneNft node group.1) upserts

def fetchNftRpcMetadata (node : NftNode)
    (candidates : List NftRpcMetadataCandidate) : List NftRpcMetadataUpsert :=
  (candidatesBySymbol candidates).foldl (fetchNftsOfSymbol node) []

/-! ## Writing the answers -/

/-- A `jsonb` column of a recordset: the JSON null is SQL's. -/
def jsonColumn : Json → Option Json
  | .null => none
  | json => some json

/-- `jsonb || jsonb`. -/
def jsonConcat : Json → Json → Json
  | .obj a, .obj b => .obj (b.foldl (fun fields f =>
      Json.setField f.1 f.2 fields) a)
  | .arr a, .arr b => .arr (a ++ b)
  | .arr a, b => .arr (a ++ [b])
  | a, .arr b => .arr (a :: b)
  | a, b => .arr [a, b]

/-- The metadata of a row, with that of an answer laid over it; what is no
object counts as empty. -/
def mergeMetadata (stored : Option Json) (answer : Json) : Option Json :=
  match answer with
  | .obj (f :: fields) => some (jsonConcat (stored.getD (.obj []))
      (.obj (f :: fields)))
  | _ => stored

/-- A row of `target_values`: an answer, and the NFT it is for. -/
structure NftTarget where
  nftId : Int
  contractId : Int
  answer : NftRpcMetadataUpsert

def NftTarget.seriesRef (t : NftTarget) : Option SeriesRef :=
  (nullIfEmpty t.answer.seriesId).map fun seriesId => (t.contractId, seriesId)

/-- The address that `upserted_creators` has a row for. -/
def creatorOf (creatorAddress : Option String) : Option String :=
  (nullIfEmpty creatorAddress).filter fun address => address != "NULL"

/-- Insert the texts that are not there. -/
def insertTexts (new texts : List String) : List String :=
  texts ++ (new.filter fun text => !texts.contains text).dedup

section

variable (sql : HydrationSql) (db : HydrationDb)

/-- `target_values`. -/
def HydrationDb.nftTargets (upserts : List NftRpcMetadataUpsert) :
    List NftTarget :=
  (upserts.filter fun answer =>
    answer.symbol != "" && answer.tokenId != "").flatMap fun answer =>
      (db.contracts.filter fun contract => contract.symbol.map sql.lower ==
        some (sql.lower answer.symbol)).flatMap fun contract =>
          (db.nfts.filter fun nft => nft.contractId == contract.id &&
            nft.tokenId == some answer.tokenId).map fun nft =>
              ⟨nft.id, contract.id, answer⟩

/-- `ORDER BY` of `series_values` within a series: a positive mint number
first, the smallest first, none last, and then the id of the NFT. -/
def NftTarget.presentsBefore (a b : NftTarget) : Bool :=
  let rank (t : NftTarget) : Nat :=
    if t.answer.mintNumber.any fun n => 0 < n then 0 else 1
  let mint (t : NftTarget) : Int := t.answer.mintNumber.getD 0
  if rank a ≠ rank b then decide (rank a < rank b)
  else if a.answer.mintNumber.isSome ≠ b.answer.mintNumber.isSome then
    a.answer.mintNumber.isSome
  else if mint a ≠ mint b then decide (mint a < mint b)
  else decide (a.nftId ≤ b.nftId)

/-- `series_values`: for each series the target that presents it. -/
def presentingTargets (targets : List NftTarget) :
    List (SeriesRef × NftTarget) :=
  firstsFrom (fun _ => true) Prod.fst []
    ((targets.mergeSort NftTarget.presentsBefore).filterMap fun t =>
      t.seriesRef.map fun key => (key, t))

/-- `IS NULL OR BTRIM(…) = ''`. -/
def isBlankText (text : Option String) : Bool :=
  !notBlank text

/-- `LIKE 'Series #% for %'`. -/
def isGeneratedName (name : String) : Bool :=
  "Series #".toList.isPrefixOf name.toList &&
    containsChars " for ".toList (name.toList.drop 8)

/-- A name that a presentation may replace. -/
def isReplaceableName (name : Option String) : Bool :=
  isBlankText name || name.any isGeneratedName

/-- `ON CONFLICT (contract_id, series_id) DO UPDATE`. -/
def HydratedSeries.present (now : Int) (answer : NftRpcMetadataUpsert)
    (row : HydratedSeries) : HydratedSeries :=
  let name := nullIfEmpty answer.name
  let description := nullIfEmpty answer.description
  let image := nullIfEmpty answer.image
  let takesName := name.isSome && isReplaceableName row.name
  let takesDescription := description.isSome && isBlankText row.description
  let takesImage := image.isSome && isBlankText row.image
  { row with
    name := if takesName then name else row.name
    description := if takesDescription then description else row.description
    image := if takesImage then image else row.image
    dmUnixSeconds :=
      if takesName || takesDescription || takesImage then now
      else row.dmUnixSeconds }

/-- `upserted_series`, for one value. -/
def presentSeries (now : Int) (series : List HydratedSeries)
    (value : SeriesRef × NftTarget) : List HydratedSeries :=
  if series.any fun row => row.key == value.1 then
    series.map fun row =>
      if row.key == value.1 then row.present now value.2.answer else row
  else series ++
    [{ key := value.1
       name := nullIfEmpty value.2.answer.name
       description := nullIfEmpty value.2.answer.description
       image := nullIfEmpty value.2.answer.image
       dmUnixSeconds := now }]

/-- The `SET` clause of the update of `nfts`. -/
def HydratedNft.hydrate (now : Int) (t : NftTarget) (nft : HydratedNft) :
    HydratedNft :=
  { nft with
    creatorAddress := (creatorOf t.answer.creatorAddress).or nft.creatorAddress
    series := t.seriesRef.or nft.series
    mintNumber :=
      (t.answer.mintNumber.filter fun n => 0 < n).getD nft.mintNumber
    mintDateUnixSeconds := (t.answer.mintDateUnixSeconds.filter fun n =>
      0 < n).getD nft.mintDateUnixSeconds
    rom := (nullIfEmpty t.answer.rom).or nft.rom
    ram := (nullIfEmpty t.answer.ram).or nft.ram
    name := (nullIfEmpty t.answer.name).or nft.name
    description := (nullIfEmpty t.answer.description).or nft.description
    image := (nullIfEmpty t.answer.image).or nft.image
    infoUrl := (nullIfEmpty t.answer.infoUrl).or nft.infoUrl
    metadata := mergeMetadata nft.metadata t.answer.metadata
    chainApiResponse :=
      (jsonColumn t.answer.chainApiResponse).or nft.chainApiResponse
    dmUnixSeconds := now }

/-- The target that the update takes for a row. -/
def HydrationPicks.targetOf (picks : HydrationPicks) (targets : List NftTarget)
    (nft : HydratedNft) : Option NftTarget :=
  let found := targets.filter fun t => t.nftId == nft.id
  found[picks.nft nft.id % found.length]?

/-- `apply_nft_rpc_metadata`: the rows it updates, and the tables. -/
def applyNftRpcMetadata (picks : HydrationPicks) (now : Int)
    (upserts : List NftRpcMetadataUpsert) : Nat × HydrationDb :=
  let targets := db.nftTargets sql upserts
  (db.nfts.countP fun nft => (picks.targetOf targets nft).isSome,
    { db with
      nfts := db.nfts.map fun nft =>
        ((picks.targetOf targets nft).map fun t => nft.hydrate now t).getD nft
      series := (presentingTargets targets).foldl (presentSeries now) db.series
      addresses := insertTexts (targets.filterMap fun t =>
        creatorOf t.answer.creatorAddress) db.addresses })

/-! ## Series -/

/-- The answers for a series, each by the join with its contract. -/
def HydrationDb.seriesAnswers (upserts : List SeriesRpcMetadataUpsert)
    (row : HydratedSeries) : List SeriesRpcMetadataUpsert :=
  (upserts.filter fun answer =>
    answer.symbol != "" && answer.seriesId != "").flatMap fun answer =>
      (db.contracts.filter fun contract => contract.symbol.map sql.lower ==
        some (sql.lower answer.symbol) &&
          row.key == (contract.id, answer.seriesId)).map fun _ => answer

/-- The `SET` clause of the update of `series`. -/
def HydratedSeries.hydrate (now : Int) (answer : SeriesRpcMetadataUpsert)
    (row : HydratedSeries) : HydratedSeries :=
  { row with
    currentSupply := answer.currentSupply.getD row.currentSupply
    maxSupply := answer.maxSupply.getD row.maxSupply
    mode := (nullIfEmpty answer.mode).or row.mode
    creatorAddress := (creatorOf answer.creatorAddress).or row.creatorAddress
    name := (nullIfEmpty answer.name).or row.name
    description := (nullIfEmpty answer.description).or row.description
    image := (nullIfEmpty answer.image).or row.image
    royalties := answer.royalties.getD row.royalties
    seriesType := answer.seriesType.getD row.seriesType
    hasLocked := answer.hasLocked.getD row.hasLocked
    metadata := mergeMetadata row.metadata answer.metadata
    chainApiResponse :=
      (jsonColumn answer.chainApiResponse).or row.chainApiResponse
    dmUnixSeconds := now }

/-- The answer that the update takes for a series. -/
def HydrationDb.seriesAnswer (picks : HydrationPicks)
    (upserts : List SeriesRpcMetadataUpsert) (row : HydratedSeries) :
    Option SeriesRpcMetadataUpsert :=
  let found := db.seriesAnswers sql upserts row
  found[picks.series row.key % found.length]?

/-- `apply_series_rpc_metadata`. -/
def applySeriesRpcMetadata (picks : HydrationPicks) (now : Int)
    (upserts : List SeriesRpcMetadataUpsert) : Nat × HydrationDb :=
  let answers := db.series.flatMap (db.seriesAnswers sql upserts)
  (db.series.countP fun row => (db.seriesAnswer sql picks upserts row).isSome,
    { db with
      series := db.series.map fun row =>
        ((db.seriesAnswer sql picks upserts row).map fun answer =>
          row.hydrate now answer).getD row
      modes := insertTexts (answers.filterMap fun answer =>
        nullIfEmpty answer.mode) db.modes
      addresses := insertTexts (answers.filterMap fun answer =>
        creatorOf answer.creatorAddress) db.addresses })

/-! ## A pass -/

/-- `NFT_RPC_METADATA_SYNC_BATCH_SIZE`. -/
def nftRpcMetadataSyncBatchSize : Nat := 100

/-- `min_mint_block_height`. -/
def minMintBlockHeight (chain : String) : Int :=
  if chain = "main" then mainZeroStateBoundaryHeight else 0

/-- What a call meets: the tip of the node, the cursor of the chain, the clock
and the choices of the server. -/
structure HydrationPass where
  rpcTip : Nat
  cursorHeight : Nat
  now : Int
  picks : HydrationPicks

inductive HydrationError where
  | ingestion (error : IngestionError)
  /-- A candidate whose contract has no symbol is no `(String, String)`. -/
  | symbolMissing
  deriving DecidableEq

/-- What the two calls below do with their candidates. -/
def hydrateNfts (candidates : Option (List NftRpcMetadataCandidate))
    (pass : HydrationPass) (node : NftNode) :
    Except HydrationError HydrationDb :=
  match candidates with
  | none => .error .symbolMissing
  | some candidates =>
      let upserts := fetchNftRpcMetadata node candidates
      if upserts.isEmpty then .ok db
      else .ok (applyNftRpcMetadata sql db pass.picks pass.now upserts).2

/-- `repair_nft_rpc_metadata_once`, which does not look at the lag. -/
def repairNftRpcMetadataOnce (chain : String) (pass : HydrationPass)
    (node : NftNode) : Except HydrationError HydrationDb :=
  match validateZeroStateScope chain pass.cursorHeight with
  | .error error => .error (.ingestion error)
  | .ok () =>
      hydrateNfts sql db (fetchNftRpcMetadataRepairCandidates sql db
        (minMintBlockHeight chain) nftRpcMetadataSyncBatchSize) pass node

end

end Explorer.Ref
