import Explorer.Lib.Json
import Explorer.Ref.Pipeline
import Explorer.Ref.Resolution
import Explorer.Ref.Rust

/-!
# Legacy event payloads (`crates/ingestion/src/{lib,legacy_raw}.rs`)

Event data is hex text over the gen1/gen2 binary serialisation. Two paths
decode it: `event_to_projection` for the events of a block, and
`decode_legacy_raw_event` for rows that were stored undecoded. They share the
decoders of the layouts and have their own dispatch over the kinds.

The SDK is a parameter: its hex decoder, its reader, its address text, and
the Carbon configurations with their payloads.
-/

namespace Explorer.Ref

open Explorer.Lib

/-- What the decoders use of the SDK. -/
structure LegacySdk where
  Reader : Type
  decodeHex : String → Option (List UInt8)
  encodeHexUpper : List UInt8 → String
  newReader : List UInt8 → Reader
  readString : Reader → Option (String × Reader)
  readBigInteger : Reader → Option (Int × Reader)
  readVarUint : Reader → Option (Nat × Reader)
  readVarBytes : Reader → Option (List UInt8 × Reader)
  atEof : Reader → Bool
  /-- `Address::try_from_slice` and `to_text`. -/
  addressText : List UInt8 → Option String
  /-- The payload of a `GasConfig`, and of its default when it does not
  parse. -/
  gasConfigPayload : Option (List UInt8) → Json
  /-- The payload of a `ChainConfig`, likewise. -/
  chainConfigPayload : Option (List UInt8) → Json

/-- The event an error names. -/
structure EventPlace where
  blockHeight : Nat
  txIndex : Nat
  eventIndex : Nat

/-- `legacy_event_decode_error`. -/
def legacyEventDecodeError (place : EventPlace) (eventKind : String) :
    IngestionError :=
  .eventPayloadDecode place.blockHeight place.txIndex place.eventIndex
    eventKind

section

variable (sdk : LegacySdk)

/-! ## Reading -/

/-- A read from the reader, which leaves the reader behind what it read. -/
abbrev LegacyRead (α : Type) := StateT sdk.Reader Option α

def legacyReadString : LegacyRead sdk String := sdk.readString

def legacyReadBigInteger : LegacyRead sdk String := fun reader =>
  (sdk.readBigInteger reader).map fun (value, rest) => (toString value, rest)

def legacyReadVarUint : LegacyRead sdk Nat := sdk.readVarUint

def legacyReadAddress : LegacyRead sdk String := fun reader =>
  (sdk.readVarBytes reader).bind fun (raw, rest) =>
    (sdk.addressText raw).map fun text => (text, rest)

/-- `legacy_read_hash`: the bytes print reversed. -/
def legacyReadHash : LegacyRead sdk String := fun reader =>
  (sdk.readVarBytes reader).map fun (bytes, rest) =>
    (sdk.encodeHexUpper bytes.reverse, rest)

/-- The shape of every decoder: the hex text, one read, and nothing after it.
Each failure is the same error. -/
def decodeLegacy {α : Type} (read : LegacyRead sdk α) (place : EventPlace)
    (eventKind rawData : String) : Except IngestionError α :=
  let decoded := do
    let bytes ← sdk.decodeHex rawData
    let (value, reader) ← read (sdk.newReader bytes)
    if sdk.atEof reader then some value else none
  match decoded with
  | some value => .ok value
  | none => .error (legacyEventDecodeError place eventKind)

/-! ## Layouts -/

structure LegacyTokenEventData where
  token : String
  valueRaw : String
  chainName : String

def decodeLegacyTokenEvent := decodeLegacy sdk (do
  let token ← legacyReadString sdk
  let valueRaw ← legacyReadBigInteger sdk
  let chainName ← legacyReadString sdk
  return LegacyTokenEventData.mk token valueRaw chainName)

structure LegacyInfusionEventData where
  baseToken : String
  tokenId : String
  infusedToken : String
  infusedValue : String
  chainName : String

def decodeLegacyInfusionEvent := decodeLegacy sdk (do
  let baseToken ← legacyReadString sdk
  let tokenId ← legacyReadBigInteger sdk
  let infusedToken ← legacyReadString sdk
  let infusedValue ← legacyReadBigInteger sdk
  let chainName ← legacyReadString sdk
  return LegacyInfusionEventData.mk baseToken tokenId infusedToken infusedValue
    chainName)

structure LegacyMarketEventData where
  baseToken : String
  quoteToken : String
  marketId : String
  price : String
  endPrice : String
  marketEventKind : String

def marketEventKindName : Nat → Option String
  | 0 => some "Fixed"
  | 1 => some "Classic"
  | 2 => some "Reserve"
  | 3 => some "Dutch"
  | _ => none

def decodeLegacyMarketEvent := decodeLegacy sdk (do
  let baseToken ← legacyReadString sdk
  let quoteToken ← legacyReadString sdk
  let marketId ← legacyReadBigInteger sdk
  let price ← legacyReadBigInteger sdk
  let endPrice ← legacyReadBigInteger sdk
  let kind ← legacyReadVarUint sdk
  let marketEventKind ← StateT.lift (marketEventKindName kind)
  return LegacyMarketEventData.mk baseToken quoteToken marketId price endPrice
    marketEventKind)

def decodeLegacyStringEvent := decodeLegacy sdk (legacyReadString sdk)

structure LegacyGasEventData where
  address : String
  price : String
  amount : String

def decodeLegacyGasEvent := decodeLegacy sdk (do
  let address ← legacyReadAddress sdk
  let price ← legacyReadBigInteger sdk
  let amount ← legacyReadBigInteger sdk
  return LegacyGasEventData.mk address price amount)

/-- `TransactionSettleEventData`. -/
def decodeLegacySettleEvent := decodeLegacy sdk (do
  let hash ← legacyReadHash sdk
  let platform ← legacyReadString sdk
  let chain ← legacyReadString sdk
  return (hash, platform, chain))

def decodeLegacyOrganizationEvent := decodeLegacy sdk (do
  let organization ← legacyReadString sdk
  let memberAddress ← legacyReadAddress sdk
  return (organization, memberAddress))

def decodeLegacyHashEvent := decodeLegacy sdk (legacyReadHash sdk)

def saleEventKindName : Nat → Option String
  | 0 => some "Creation"
  | 1 => some "SoftCap"
  | 2 => some "HardCap"
  | 3 => some "AddedToWhitelist"
  | 4 => some "RemovedFromWhitelist"
  | 5 => some "Distribution"
  | 6 => some "Refund"
  | 7 => some "PriceChange"
  | 8 => some "Participation"
  | _ => none

def decodeLegacySaleEvent := decodeLegacy sdk (do
  let hash ← legacyReadHash sdk
  let kind ← legacyReadVarUint sdk
  let saleEventKind ← StateT.lift (saleEventKindName kind)
  return (hash, saleEventKind))

def decodeLegacyChainValueEvent := decodeLegacy sdk (do
  let name ← legacyReadString sdk
  let value ← legacyReadBigInteger sdk
  return (name, value))

def decodeLegacyAddressEvent := decodeLegacy sdk (legacyReadAddress sdk)

def decodeLegacyTokenCreateSymbol := decodeLegacy sdk (legacyReadString sdk)

end

/-! ## Kinds -/

def isLegacyTokenEventKind (eventKind : String) : Bool :=
  eventKind ∈ ["TokenMint", "TokenClaim", "TokenBurn", "TokenSend",
    "TokenReceive", "TokenStake", "CrownRewards", "Inflation"]

def isLegacyMarketEventKind (eventKind : String) : Bool :=
  eventKind ∈ ["OrderCancelled", "OrderClosed", "OrderCreated",
    "OrderFilled", "OrderBid"]

def isLegacyStringEventKind (eventKind : String) : Bool :=
  eventKind ∈ ["ChainCreate", "ContractUpgrade", "AddressRegister",
    "ContractDeploy", "PlatformCreate", "OrganizationCreate", "Log",
    "AddressUnregister"]

def legacyUnlimitedGasRaw : String := "18446744073709551615"

/-! ## Payload parts -/

/-- An object whose values are texts. -/
def textObject (fields : List (String × String)) : Json :=
  Json.object (fields.map fun f => (f.1, .str f.2))

/-- `payload_json[key] = value`. -/
def setKey (key : String) (value : Json) (payload : Json) : Json :=
  match payload with
  | .obj fields => .obj (Json.setField key value fields)
  | other => other

/-- `json_scalar_to_string`. -/
def jsonScalarToString : Json → Option String
  | .str value => some value
  | .num text => some text
  | .bool value => some (if value then "true" else "false")
  | _ => none

/-! ## The one-shot path -/

/-- `LegacyRawDecodeOutcome`. -/
structure LegacyRawDecodeOutcome where
  payloadAdditions : List (String × Json) := []
  tokenId : Option String := none
  contractSymbol : Option String := none
  targetAddress : Option String := none

/-- `decode_legacy_raw_event`. -/
def decodeLegacyRawEvent (sdk : LegacySdk) (eventKind rawData
    chainName : String) (place : EventPlace) :
    Except IngestionError LegacyRawDecodeOutcome :=
  if isLegacyMarketEventKind eventKind then do
    let marketEvent ← decodeLegacyMarketEvent sdk place eventKind rawData
    return {
      tokenId := some marketEvent.marketId
      contractSymbol := some marketEvent.baseToken
      payloadAdditions := [
        ("token_id", .str marketEvent.marketId),
        ("market_event", textObject [
          ("base_token", marketEvent.baseToken),
          ("quote_token", marketEvent.quoteToken),
          ("market_event_kind", marketEvent.marketEventKind),
          ("market_id", marketEvent.marketId),
          ("price", marketEvent.price),
          ("end_price", marketEvent.endPrice)])] }
  else if eventKind = "Infusion" then do
    let infusionEvent ← decodeLegacyInfusionEvent sdk place eventKind rawData
    return {
      tokenId := some infusionEvent.tokenId
      contractSymbol := some infusionEvent.baseToken
      payloadAdditions := [
        ("token_id", .str infusionEvent.tokenId),
        ("infusion_event", textObject [
          ("token_id", infusionEvent.tokenId),
          ("base_token", infusionEvent.baseToken),
          ("infused_token", infusionEvent.infusedToken),
          ("infused_value", infusionEvent.infusedValue)])] }
  else if eventKind = "GasEscrow" ∨ eventKind = "GasPayment" then do
    let gasEvent ← decodeLegacyGasEvent sdk place eventKind rawData
    let gasPayload := textObject [
      ("price", gasEvent.price),
      ("address", gasEvent.address)]
    let gasPayload :=
      if gasEvent.amount ≠ legacyUnlimitedGasRaw then
        setKey "amount" (.str gasEvent.amount) gasPayload
      else gasPayload
    return { payloadAdditions := [("gas_event", gasPayload)] }
  else if isLegacyStringEventKind eventKind then do
    let stringEvent ← decodeLegacyStringEvent sdk place eventKind rawData
    return {
      payloadAdditions := [
        ("string_event", textObject [("string_value", stringEvent)])] }
  else if eventKind = "ChainSwap" then do
    let (hash, platform, chain) ←
      decodeLegacySettleEvent sdk place eventKind rawData
    return {
      payloadAdditions := [
        ("transaction_settle_event", textObject [
          ("hash", hash), ("platform", platform), ("chain", chain)])] }
  else if eventKind = "OrganizationAdd" ∨ eventKind = "OrganizationRemove" then
    do
    let (organization, memberAddress) ←
      decodeLegacyOrganizationEvent sdk place eventKind rawData
    return {
      payloadAdditions := [
        ("organization_event", textObject [
          ("organization", organization), ("address", memberAddress)])] }
  else if eventKind = "FileCreate" ∨ eventKind = "FileDelete" then do
    let hash ← decodeLegacyHashEvent sdk place eventKind rawData
    return {
      payloadAdditions := [("hash_event", textObject [("hash", hash)])] }
  else if eventKind = "Crowdsale" then do
    let (hash, saleEventKind) ←
      decodeLegacySaleEvent sdk place eventKind rawData
    return {
      payloadAdditions := [
        ("sale_event", textObject [
          ("hash", hash), ("sale_event_kind", saleEventKind)])] }
  else if eventKind = "ValueCreate" ∨ eventKind = "ValueUpdate" then do
    let (name, value) ←
      decodeLegacyChainValueEvent sdk place eventKind rawData
    return {
      payloadAdditions := [
        ("chain_event", textObject [
          ("name", name), ("value", value), ("chain", chainName)])] }
  else if eventKind = "ValidatorElect" then do
    let address ← decodeLegacyAddressEvent sdk place eventKind rawData
    return {
      targetAddress := some address
      payloadAdditions := [
        ("address_event", textObject [("address", address)])] }
  else if eventKind = "TokenCreate" then do
    let symbol ← decodeLegacyTokenCreateSymbol sdk place eventKind rawData
    return { contractSymbol := some symbol }
  else if eventKind ∈ ["ContractKill", "OwnerAdded", "OwnerRemoved",
      "ValidatorRemove"] then
    .ok {}
  else .error (legacyEventDecodeError place eventKind)

/-! ## The live path -/

structure SdkEventResult where
  address : String
  contract : String
  kind : String
  name : String
  data : String

structure SdkTokenCreateData where
  symbol : String
  maxSupply : String
  decimals : Nat
  isNonFungible : Bool
  carbonTokenId : Nat
  metadata : List (String × String)

structure SdkTokenSeriesCreateData where
  symbol : String
  seriesId : String
  maxMint : Nat
  maxSupply : Nat
  owner : String
  carbonTokenId : Nat
  carbonSeriesId : Nat
  metadata : List (String × String)

structure TxExtendedEventContext where
  specialResolution : Option SdkSpecialResolutionData
  tokenCreate : Option SdkTokenCreateData
  tokenCreateConsumed : Bool
  tokenSeriesCreate : Option SdkTokenSeriesCreateData
  tokenMint : Option Json

/-- `take_token_create_for_event`. -/
def TxExtendedEventContext.takeTokenCreateForEvent
    (context : TxExtendedEventContext) :
    Option SdkTokenCreateData × TxExtendedEventContext :=
  match context.tokenCreate with
  | none => (none, context)
  | some tokenCreate =>
      if context.tokenCreateConsumed then (none, context)
      else (some tokenCreate, { context with tokenCreateConsumed := true })

/-- `build_token_create_payload`. -/
def buildTokenCreatePayload (data : SdkTokenCreateData) : Json :=
  let payload := setName "symbol" data.symbol []
  let payload := setName "max_supply" data.maxSupply payload
  let payload := Json.setField "decimals" (.str (toString data.decimals))
    payload
  let payload := Json.setField "is_non_fungible" (.bool data.isNonFungible)
    payload
  let payload :=
    if data.carbonTokenId ≠ 0 then
      Json.setField "carbon_token_id" (.str (toString data.carbonTokenId))
        payload
    else payload
  .obj (Json.setField "metadata" (textObject data.metadata) payload)

/-- `token_series_identity`. -/
def tokenSeriesIdentity (data : SdkTokenSeriesCreateData) : Option String :=
  (nonEmptyString data.seriesId).or
    (if data.carbonSeriesId ≠ 0 then some (toString data.carbonSeriesId)
    else none)

/-- `build_token_series_create_payload`. -/
def buildTokenSeriesCreatePayload (data : SdkTokenSeriesCreateData) : Json :=
  let payload := setName "token" data.symbol []
  let payload := match tokenSeriesIdentity data with
    | some seriesId => Json.setField "series_id" (.str seriesId) payload
    | none => payload
  let payload := Json.setField "max_mint" (.str (toString data.maxMint))
    payload
  let payload := Json.setField "max_supply" (.str (toString data.maxSupply))
    payload
  let payload := setName "owner" data.owner payload
  let payload :=
    if data.carbonTokenId ≠ 0 then
      Json.setField "carbon_token_id" (.str (toString data.carbonTokenId))
        payload
    else payload
  let payload :=
    if data.carbonSeriesId ≠ 0 then
      Json.setField "carbon_series_id" (.str (toString data.carbonSeriesId))
        payload
    else payload
  .obj (Json.setField "metadata" (textObject data.metadata) payload)

/-- `token_mint_payload_matches`. -/
def tokenMintPayloadMatches (data : Json) (symbol tokenId : String) : Bool :=
  match (data.get "symbol").bind Json.asString with
  | none => false
  | some mintSymbol =>
      eqIgnoreAsciiCase mintSymbol symbol &&
        ((data.get "tokenId").bind jsonScalarToString).any fun mintTokenId =>
          eqIgnoreAsciiCase mintTokenId tokenId

/-- `build_token_mint_extended_payload`. -/
def buildTokenMintExtendedPayload (data : Json) : Json :=
  let scalars := [("token_id", "tokenId"), ("series_id", "seriesId"),
    ("mint_number", "mintNumber"), ("carbon_token_id", "carbonTokenId"),
    ("carbon_series_id", "carbonSeriesId"),
    ("carbon_instance_id", "carbonInstanceId")]
  let texts := scalars.filterMap fun (key, source) =>
    ((data.get source).bind jsonScalarToString).map fun value => (key, value)
  let owner := ((data.get "owner").bind Json.asString).map fun value =>
    ("owner", value)
  textObject (texts ++ owner.toList)

structure TransactionRecord where
  id : Int
  blockId : Int
  chainId : Nat
  txIndex : Int
  hash : String
  timestampUnixSeconds : Int
  state : String
  result : Option String
  debugComment : Option String
  payload : Option String
  scriptRaw : Option String
  feeRaw : Option String
  gasPriceRaw : Option String
  gasLimitRaw : Option String
  senderId : Nat
  gasPayerId : Nat
  gasTargetId : Nat
  carbonTxType : Option Int
  carbonTxData : Option String
  expirationUnixSeconds : Int

/-- `EventUpsert`, with every column. -/
structure EventProjection where
  transactionId : Int
  chainId : Nat
  eventIndex : Int
  eventKind : String
  eventName : Option String
  address : Option String
  targetAddress : Option String
  contract : Option String
  tokenId : Option String
  rawData : Option String
  payloadFormat : Option String
  payloadJson : Option Json
  timestampUnixSeconds : Int
  burned : Option Bool

/-- `legacy_event_kind_name`. -/
def legacyEventKindName (event : SdkEventResult) : String :=
  ((nonEmptyString event.kind).or (nonEmptyString event.name)).getD "Unknown"

/-- `normalize_legacy_event_address`. -/
def normalizeLegacyEventAddress (address : String) : String :=
  let trimmed := String.ofList (trim address.toList)
  if trimmed.isEmpty || eqIgnoreAsciiCase trimmed "[Null address]" then "NULL"
  else trimmed

/-- `event_index_to_i32`, for `EventSource::Legacy`. -/
def eventIndexToI32 (place : EventPlace) : Except IngestionError Int :=
  if place.eventIndex < 2 ^ 31 then .ok place.eventIndex
  else .error (.eventFieldOutOfRange place.blockHeight place.txIndex "legacy"
    place.eventIndex "event_index")

/-- What the kind of an event decides. -/
structure LiveParts where
  contract : String
  tokenId : Option String
  eventName : Option String
  payload : Json
  context : TxExtendedEventContext

/-- The branches of `event_to_projection` over the kind. -/
def liveParts (sdk : LegacySdk) (place : EventPlace) (event : SdkEventResult)
    (context : TxExtendedEventContext) (eventKind payloadContract : String)
    (rawData : Option String) : Except IngestionError LiveParts :=
  let payload := textObject
    [("event_kind", eventKind), ("contract", payloadContract)]
  let plain : LiveParts :=
    { contract := payloadContract
      tokenId := none
      eventName := none
      payload := payload
      context := context }
  if isLegacyTokenEventKind eventKind then
    match rawData with
    | none => .ok plain
    | some rawData => do
        let tokenEvent ← decodeLegacyTokenEvent sdk place eventKind rawData
        let payload := setKey "token_id" (.str tokenEvent.valueRaw) payload
        let payload := setKey "token_event" (textObject [
          ("token", tokenEvent.token),
          ("value", tokenEvent.valueRaw),
          ("value_raw", tokenEvent.valueRaw),
          ("chain_name", tokenEvent.chainName)]) payload
        let minted := context.tokenMint.filter fun tokenMint =>
          eventKind == "TokenMint" && tokenMintPayloadMatches tokenMint
            tokenEvent.token tokenEvent.valueRaw
        let payload := match minted with
          | some tokenMint => setKey "token_mint_extended"
              (buildTokenMintExtendedPayload tokenMint) payload
          | none => payload
        return { plain with
          contract := tokenEvent.token
          tokenId := some tokenEvent.valueRaw
          payload := payload }
  else if eventKind = "Infusion" then
    match rawData with
    | none => .ok plain
    | some rawData => do
        let infusionEvent ←
          decodeLegacyInfusionEvent sdk place eventKind rawData
        let payload := setKey "token_id" (.str infusionEvent.tokenId) payload
        let payload := setKey "infusion_event" (textObject [
          ("token_id", infusionEvent.tokenId),
          ("base_token", infusionEvent.baseToken),
          ("infused_token", infusionEvent.infusedToken),
          ("infused_value", infusionEvent.infusedValue)]) payload
        return { plain with
          contract := infusionEvent.baseToken
          tokenId := some infusionEvent.tokenId
          payload := payload }
  else if isLegacyMarketEventKind eventKind then
    match rawData with
    | none => .ok plain
    | some rawData => do
        let marketEvent ← decodeLegacyMarketEvent sdk place eventKind rawData
        let payload := setKey "token_id" (.str marketEvent.marketId) payload
        let payload := setKey "market_event" (textObject [
          ("base_token", marketEvent.baseToken),
          ("quote_token", marketEvent.quoteToken),
          ("market_event_kind", marketEvent.marketEventKind),
          ("market_id", marketEvent.marketId),
          ("price", marketEvent.price),
          ("end_price", marketEvent.endPrice)]) payload
        return { plain with
          contract := marketEvent.baseToken
          tokenId := some marketEvent.marketId
          payload := payload }
  else if eventKind = "GasEscrow" ∨ eventKind = "GasPayment" then
    match rawData with
    | none => .ok plain
    | some rawData => do
        let gasEvent ← decodeLegacyGasEvent sdk place eventKind rawData
        let gasPayload := textObject [
          ("price", gasEvent.price),
          ("address", gasEvent.address)]
        let gasPayload :=
          if gasEvent.amount ≠ legacyUnlimitedGasRaw then
            setKey "amount" (.str gasEvent.amount) gasPayload
          else gasPayload
        return { plain with payload := setKey "gas_event" gasPayload payload }
  else if eventKind = "GovernanceSetGasConfig" then
    match rawData with
    | none => .ok plain
    | some rawData => .ok { plain with
        payload := setKey "governance_gas_config_event"
          (sdk.gasConfigPayload (sdk.decodeHex rawData)) payload }
  else if eventKind = "GovernanceSetChainConfig" then
    match rawData with
    | none => .ok plain
    | some rawData => .ok { plain with
        payload := setKey "governance_chain_config_event"
          (sdk.chainConfigPayload (sdk.decodeHex rawData)) payload }
  else if eventKind = "SpecialResolution" then
    match context.specialResolution with
    | none => .ok plain
    | some data => .ok { plain with
        payload := setKey "special_resolution_event"
          (buildSpecialResolutionPayload data) payload }
  else if eventKind = "TokenCreate" then
    match context.takeTokenCreateForEvent with
    | (none, context) => .ok { plain with context := context }
    | (some data, context) =>
        let tokenCreate := buildTokenCreatePayload data
        .ok { plain with
          payload := setKey "token_create_event" tokenCreate
            (setKey "token_create" tokenCreate payload)
          context := context }
  else if eventKind = "TokenSeriesCreate" then
    match context.tokenSeriesCreate with
    | none => .ok plain
    | some data =>
        let seriesId := tokenSeriesIdentity data
        let payload := match seriesId with
          | some id => setKey "token_id" (.str id) payload
          | none => payload
        .ok { plain with
          tokenId := seriesId
          payload := setKey "token_series_event"
            (buildTokenSeriesCreatePayload data) payload }
  else if isLegacyStringEventKind eventKind then
    match rawData with
    | none => .ok plain
    | some rawData => do
        let stringEvent ← decodeLegacyStringEvent sdk place eventKind rawData
        return { plain with
          payload := setKey "string_event"
            (textObject [("string_value", stringEvent)]) payload }
  else if eventKind ∈ ["Custom", "Custom_V2", "LeaderboardCreate",
      "ValidatorSwitch"] then
    .ok { plain with
      eventName :=
        if eventKind = "Custom_V2" then nonEmptyString event.name else none }
  else .ok { plain with
    payload := textObject
      [("contract", event.contract), ("kind", event.kind),
        ("name", event.name), ("data", event.data)] }

/-- `event_to_projection`, with the context it leaves. -/
def eventToProjection (sdk : LegacySdk) (place : EventPlace)
    (transactionRecord : TransactionRecord) (event : SdkEventResult)
    (context : TxExtendedEventContext) :
    Except IngestionError (EventProjection × TxExtendedEventContext) := do
  let eventKind := legacyEventKindName event
  let payloadContract := (nonEmptyString event.contract).getD "unknown"
  let rawData :=
    if eventKind = "TokenSeriesCreate" ∧ event.data.isEmpty then some ""
    else nonEmptyString event.data
  let parts ← liveParts sdk place event context eventKind payloadContract
    rawData
  let eventIndex ← eventIndexToI32 place
  return (
    { transactionId := transactionRecord.id
      chainId := transactionRecord.chainId
      eventIndex := eventIndex + 1
      eventKind := eventKind
      eventName := parts.eventName
      address := some (normalizeLegacyEventAddress event.address)
      targetAddress := none
      contract := some parts.contract
      tokenId := parts.tokenId
      rawData := rawData
      payloadFormat := some "live.v1"
      payloadJson := some parts.payload
      timestampUnixSeconds := transactionRecord.timestampUnixSeconds
      burned := none },
    parts.context)

end Explorer.Ref
