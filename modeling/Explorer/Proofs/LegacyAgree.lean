import Explorer.Ref.LegacyDecode

/-!
# Both legacy decoders say the same

The live path and the one-shot path ask for the kind of an event in different
orders, so the first thing to know is that the kinds they share belong to one
branch each. In that branch both run the same decoder on the same text; what
remains is that the object the live path builds is its base object with the
additions of the one-shot path set on it.
-/

namespace Explorer.Ref

open Explorer.Lib

/-- The kinds that both paths decode. -/
def decodedByBoth (eventKind : String) : Bool :=
  isLegacyMarketEventKind eventKind || eventKind == "Infusion" ||
    eventKind == "GasEscrow" || eventKind == "GasPayment" ||
    isLegacyStringEventKind eventKind

/-- Text that `trim` leaves alone, and that is not empty. -/
def Trimmed (text : String) : Prop :=
  text ≠ "" ∧ trim text.toList = text.toList

/-- The payload every live event starts from. -/
def basePayload (event : SdkEventResult) : Json :=
  textObject [("event_kind", legacyEventKindName event),
    ("contract", (nonEmptyString event.contract).getD "unknown")]

/-- A live projection carries what the one-shot path found: its additions on
the payload, its token id in the column and in the payload, and its contract
where it has one. -/
structure CarriesOutcome (event : SdkEventResult)
    (outcome : LegacyRawDecodeOutcome) (projection : EventProjection) :
    Prop where
  payload : projection.payloadJson = some
    (outcome.payloadAdditions.foldl (fun json f => setKey f.1 f.2 json)
      (basePayload event))
  additions : ∀ f ∈ outcome.payloadAdditions,
    (projection.payloadJson.bind fun json => json.get f.1) = some f.2
  tokenId : projection.tokenId = outcome.tokenId
  tokenKey : (projection.payloadJson.bind fun json => json.get "token_id") =
    outcome.tokenId.map Json.str
  contract : projection.contract = some (outcome.contractSymbol.getD
    ((nonEmptyString event.contract).getD "unknown"))

/-- Both fail, or both succeed with the same. -/
def DecodesAgree (event : SdkEventResult)
    (tool : Except IngestionError LegacyRawDecodeOutcome)
    (live : Except IngestionError (EventProjection × TxExtendedEventContext)) :
    Prop :=
  match tool, live with
  | .error _, .error _ => True
  | .ok outcome, .ok (projection, _) => CarriesOutcome event outcome projection
  | _, _ => False

theorem nonEmptyString_of_trimmed {text : String} (h : Trimmed text) :
    nonEmptyString text = some text := by
  rw [nonEmptyString, h.2, String.ofList_toList]
  simp [h.1]

/-! ## One branch each -/

section

variable {eventKind : String}

/-- The kinds of one class are in no class before it. -/
theorem market_only (h : isLegacyMarketEventKind eventKind = true) :
    isLegacyTokenEventKind eventKind = false ∧ eventKind ≠ "Infusion" := by
  simp only [isLegacyMarketEventKind, decide_eq_true_eq, List.mem_cons,
    List.not_mem_nil, or_false] at h
  rcases h with rfl | rfl | rfl | rfl | rfl <;> decide

theorem gas_only (h : eventKind = "GasEscrow" ∨ eventKind = "GasPayment") :
    isLegacyTokenEventKind eventKind = false ∧ eventKind ≠ "Infusion" ∧
      isLegacyMarketEventKind eventKind = false := by
  rcases h with rfl | rfl <;> decide

theorem string_only (h : isLegacyStringEventKind eventKind = true) :
    isLegacyTokenEventKind eventKind = false ∧ eventKind ≠ "Infusion" ∧
      isLegacyMarketEventKind eventKind = false ∧
      ¬(eventKind = "GasEscrow" ∨ eventKind = "GasPayment") ∧
      eventKind ≠ "GovernanceSetGasConfig" ∧
      eventKind ≠ "GovernanceSetChainConfig" ∧
      eventKind ≠ "SpecialResolution" ∧ eventKind ≠ "TokenCreate" ∧
      eventKind ≠ "TokenSeriesCreate" := by
  simp only [isLegacyStringEventKind, decide_eq_true_eq, List.mem_cons,
    List.not_mem_nil, or_false] at h
  rcases h with rfl | rfl | rfl | rfl | rfl | rfl | rfl | rfl <;> decide

end

/-! ## One decoder for both -/

/-- The place of an event only shows in the error. -/
def PlaceFree {α : Type}
    (decode : EventPlace → String → String → Except IngestionError α)
    (eventKind rawData : String) : Prop :=
  (∃ value, ∀ place, decode place eventKind rawData = .ok value) ∨
    ∀ place, ∃ e, decode place eventKind rawData = .error e

theorem placeFree_decodeLegacy {sdk : LegacySdk} {α : Type}
    (read : LegacyRead sdk α) (eventKind rawData : String) :
    PlaceFree (decodeLegacy sdk read) eventKind rawData := by
  simp only [PlaceFree, decodeLegacy]
  generalize (sdk.decodeHex rawData >>= _) = decoded
  cases decoded with
  | none => exact .inr fun place => ⟨_, rfl⟩
  | some value => exact .inl ⟨value, fun place => rfl⟩

/-- What the live branch made of the outcome. -/
structure PartsAgree (eventKind payloadContract : String)
    (outcome : LegacyRawDecodeOutcome) (parts : LiveParts) : Prop where
  payload : parts.payload =
    outcome.payloadAdditions.foldl (fun json f => setKey f.1 f.2 json)
      (textObject [("event_kind", eventKind), ("contract", payloadContract)])
  additions : ∀ f ∈ outcome.payloadAdditions,
    parts.payload.get f.1 = some f.2
  tokenId : parts.tokenId = outcome.tokenId
  tokenKey : parts.payload.get "token_id" = outcome.tokenId.map Json.str
  contract : parts.contract = outcome.contractSymbol.getD payloadContract

/-- The branches agree on an event. -/
inductive BranchesAgree (eventKind payloadContract : String)
    (tool : Except IngestionError LegacyRawDecodeOutcome)
    (live : Except IngestionError LiveParts) : Prop
  | ok (outcome : LegacyRawDecodeOutcome) (parts : LiveParts)
      (htool : tool = .ok outcome) (hlive : live = .ok parts)
      (hagree : PartsAgree eventKind payloadContract outcome parts)
  | error (e e' : IngestionError) (htool : tool = .error e)
      (hlive : live = .error e')

theorem branches_agree_of {α : Type} {eventKind rawData payloadContract : String}
    {decode : EventPlace → String → String → Except IngestionError α}
    (h : PlaceFree decode eventKind rawData) (place place' : EventPlace)
    {outcome : α → LegacyRawDecodeOutcome} {parts : α → LiveParts}
    (hparts : ∀ value,
      PartsAgree eventKind payloadContract (outcome value) (parts value)) :
    BranchesAgree eventKind payloadContract
      (decode place' eventKind rawData >>= fun v => pure (outcome v))
      (decode place eventKind rawData >>= fun v => pure (parts v)) := by
  rcases h with ⟨value, hok⟩ | herr
  · refine .ok (outcome value) (parts value) ?_ ?_ (hparts value)
    · rw [hok]
      rfl
    · rw [hok]
      rfl
  · obtain ⟨e, he⟩ := herr place'
    obtain ⟨e', he'⟩ := herr place
    refine .error e e' ?_ ?_
    · rw [he]
      rfl
    · rw [he']
      rfl

section

variable (sdk : LegacySdk) (place place' : EventPlace)
  (event : SdkEventResult) (context : TxExtendedEventContext)
  (chainName rawData payloadContract : String) {eventKind : String}

theorem branches_agree_market
    (h : isLegacyMarketEventKind eventKind = true) :
    BranchesAgree eventKind payloadContract
      (decodeLegacyRawEvent sdk eventKind rawData chainName place')
      (liveParts sdk place event context eventKind payloadContract
        (some rawData)) := by
  obtain ⟨htoken, hinfusion⟩ := market_only h
  rw [decodeLegacyRawEvent, if_pos h, liveParts]
  simp only [htoken, hinfusion, h, if_true, if_false, Bool.false_eq_true]
  refine branches_agree_of (placeFree_decodeLegacy _ eventKind rawData) place
    place' fun value => ⟨rfl, ?_, rfl, ?_, rfl⟩
  · simp [setKey, Json.get, textObject, Json.object]
  · simp [setKey, Json.get, textObject, Json.object]

theorem branches_agree_infusion :
    BranchesAgree "Infusion" payloadContract
      (decodeLegacyRawEvent sdk "Infusion" rawData chainName place')
      (liveParts sdk place event context "Infusion" payloadContract
        (some rawData)) := by
  have hmarket : isLegacyMarketEventKind "Infusion" = false := by decide
  have htoken : isLegacyTokenEventKind "Infusion" = false := by decide
  rw [decodeLegacyRawEvent, liveParts]
  simp only [hmarket, htoken, if_true, if_false, Bool.false_eq_true]
  refine branches_agree_of (placeFree_decodeLegacy _ "Infusion" rawData) place
    place' fun value => ⟨rfl, ?_, rfl, ?_, rfl⟩
  · simp [setKey, Json.get, textObject, Json.object]
  · simp [setKey, Json.get, textObject, Json.object]

theorem branches_agree_gas
    (h : eventKind = "GasEscrow" ∨ eventKind = "GasPayment") :
    BranchesAgree eventKind payloadContract
      (decodeLegacyRawEvent sdk eventKind rawData chainName place')
      (liveParts sdk place event context eventKind payloadContract
        (some rawData)) := by
  obtain ⟨htoken, hinfusion, hmarket⟩ := gas_only h
  rw [decodeLegacyRawEvent, liveParts]
  simp only [htoken, hinfusion, hmarket, h, if_true, if_false,
    Bool.false_eq_true]
  refine branches_agree_of (placeFree_decodeLegacy _ eventKind rawData) place
    place' fun value => ⟨rfl, ?_, rfl, ?_, rfl⟩
  · simp [setKey, Json.get, textObject, Json.object]
  · simp [setKey, Json.get, textObject, Json.object]

theorem branches_agree_string
    (h : isLegacyStringEventKind eventKind = true) :
    BranchesAgree eventKind payloadContract
      (decodeLegacyRawEvent sdk eventKind rawData chainName place')
      (liveParts sdk place event context eventKind payloadContract
        (some rawData)) := by
  obtain ⟨htoken, hinfusion, hmarket, hgas, hgasConfig, hchainConfig,
    hresolution, hcreate, hseries⟩ := string_only h
  rw [decodeLegacyRawEvent, liveParts]
  simp only [htoken, hinfusion, hmarket, hgas, hgasConfig, hchainConfig,
    hresolution, hcreate, hseries, h, if_true, if_false, Bool.false_eq_true]
  refine branches_agree_of (placeFree_decodeLegacy _ eventKind rawData) place
    place' fun value => ⟨rfl, ?_, rfl, ?_, rfl⟩
  · simp [setKey, Json.get, textObject, Json.object]
  · simp [setKey, Json.get, textObject, Json.object]

theorem branches_agree (h : decodedByBoth eventKind = true) :
    BranchesAgree eventKind payloadContract
      (decodeLegacyRawEvent sdk eventKind rawData chainName place')
      (liveParts sdk place event context eventKind payloadContract
        (some rawData)) := by
  simp only [decodedByBoth, Bool.or_eq_true, beq_iff_eq] at h
  rcases h with (((hmarket | rfl) | hescrow) | hpayment) | hstring
  · exact branches_agree_market _ _ _ _ _ _ _ _ hmarket
  · exact branches_agree_infusion _ _ _ _ _ _ _ _
  · exact branches_agree_gas _ _ _ _ _ _ _ _ (.inl hescrow)
  · exact branches_agree_gas _ _ _ _ _ _ _ _ (.inr hpayment)
  · exact branches_agree_string _ _ _ _ _ _ _ _ hstring

end

/-- With data there to decode and an index in range, the projection of an event
is its live parts in their columns. -/
theorem eventToProjection_of_parts (sdk : LegacySdk) (place : EventPlace)
    (transactionRecord : TransactionRecord) (event : SdkEventResult)
    (context : TxExtendedEventContext) (hdata : Trimmed event.data)
    (hindex : place.eventIndex < 2 ^ 31 - 1)
    {live : Except IngestionError LiveParts}
    (hlive : liveParts sdk place event context (legacyEventKindName event)
      ((nonEmptyString event.contract).getD "unknown") (some event.data) =
      live) :
    eventToProjection sdk place transactionRecord event context =
      live.map fun parts => (
        { transactionId := transactionRecord.id
          chainId := transactionRecord.chainId
          eventIndex := (place.eventIndex : Int) + 1
          eventKind := legacyEventKindName event
          eventName := parts.eventName
          address := some (normalizeLegacyEventAddress event.address)
          targetAddress := none
          contract := some parts.contract
          tokenId := parts.tokenId
          rawData := some event.data
          payloadFormat := some "live.v1"
          payloadJson := some parts.payload
          timestampUnixSeconds := transactionRecord.timestampUnixSeconds
          burned := none },
        parts.context) := by
  have hraw : (if legacyEventKindName event = "TokenSeriesCreate" ∧
      event.data.isEmpty = true then some ""
      else nonEmptyString event.data) = some event.data := by
    rw [nonEmptyString_of_trimmed hdata, if_neg]
    rintro ⟨-, hempty⟩
    exact hdata.1 (String.isEmpty_iff.mp hempty)
  have hplace : eventIndexToI32 place = .ok (place.eventIndex : Int) := by
    rw [eventIndexToI32, if_pos (by omega)]
  simp only [eventToProjection, hraw, hplace, hlive]
  cases live with
  | error e => rfl
  | ok parts => rfl

/-- The live and the one-shot decoding of an event's data agree: both fail, or
both succeed with the same payload, token id and contract. -/
theorem live_and_tool_decode_agree (sdk : LegacySdk) (place place' : EventPlace)
    (transactionRecord : TransactionRecord) (event : SdkEventResult)
    (context : TxExtendedEventContext) (chainName : String)
    (hkind : decodedByBoth (legacyEventKindName event) = true)
    (hdata : Trimmed event.data) (hindex : place.eventIndex < 2 ^ 31 - 1) :
    DecodesAgree event
      (decodeLegacyRawEvent sdk (legacyEventKindName event) event.data
        chainName place')
      (eventToProjection sdk place transactionRecord event context) := by
  cases branches_agree sdk place place' event context chainName event.data
    ((nonEmptyString event.contract).getD "unknown") hkind with
  | ok outcome parts htool hlive hagree =>
      rw [htool, eventToProjection_of_parts sdk place transactionRecord event
        context hdata hindex hlive]
      exact ⟨congrArg some hagree.payload, hagree.additions, hagree.tokenId,
        hagree.tokenKey, congrArg some hagree.contract⟩
  | error e e' htool hlive =>
      rw [htool, eventToProjection_of_parts sdk place transactionRecord event
        context hdata hindex hlive]
      trivial

/-! ### An order over one-byte lengths -/

def hexBytes : List Char → Option (List UInt8)
  | [] => some []
  | [_] => none
  | high :: low :: rest => do
      let high ← hexDigit high
      let low ← hexDigit low
      let bytes ← hexBytes rest
      return UInt8.ofNat (16 * high + low) :: bytes

/-- A length below `0xFD` and that many bytes. -/
def takeVarBytes : List UInt8 → Option (List UInt8 × List UInt8)
  | [] => none
  | length :: rest =>
      if length.toNat < 0xFD ∧ length.toNat ≤ rest.length then
        some (rest.take length.toNat, rest.drop length.toNat)
      else none

/-- Little endian, two's complement. -/
def bytesToInt (bytes : List UInt8) : Int :=
  let value : Nat := bytes.foldr (fun b acc => b.toNat + 256 * acc) 0
  if value < 2 ^ (8 * bytes.length - 1) then value
  else (value : Int) - 2 ^ (8 * bytes.length)

/-- The SDK on lengths of one byte and texts of one byte a character. -/
def byteSdk : LegacySdk where
  Reader := List UInt8
  decodeHex text := hexBytes text.toList
  encodeHexUpper bytes := String.ofList (bytes.flatMap fun b =>
    ((Nat.toDigits 16 (256 + b.toNat)).drop 1).map Char.toUpper)
  newReader := id
  readString reader := (takeVarBytes reader).map fun (bytes, rest) =>
    (String.ofList (bytes.map fun b => Char.ofNat b.toNat), rest)
  readBigInteger reader := (takeVarBytes reader).map fun (bytes, rest) =>
    (bytesToInt bytes, rest)
  readVarUint
    | [] => none
    | b :: rest => if b.toNat < 0xFD then some (b.toNat, rest) else none
  readVarBytes := takeVarBytes
  atEof := List.isEmpty
  addressText _ := none
  gasConfigPayload _ := .obj []
  chainConfigPayload _ := .obj []

/-- Order 5 sells SOUL for 10 KCAL at a fixed price. -/
def orderCreated : SdkEventResult :=
  { address := "P2K"
    contract := "market"
    kind := "OrderCreated"
    name := ""
    data := "04534F554C044B43414C0105010A010A00" }

def orderTransaction : TransactionRecord where
  id := 3
  blockId := 7
  chainId := 1
  txIndex := 0
  hash := "AB"
  timestampUnixSeconds := 1700000000
  state := "Halt"
  result := none
  debugComment := none
  payload := none
  scriptRaw := none
  feeRaw := none
  gasPriceRaw := none
  gasLimitRaw := none
  senderId := 1
  gasPayerId := 1
  gasTargetId := 1
  carbonTxType := none
  carbonTxData := none
  expirationUnixSeconds := 0

theorem live_and_tool_decode_agree_on_order :
    ((decodeLegacyRawEvent byteSdk "OrderCreated" orderCreated.data "main"
        ⟨7, 0, 2⟩).toOption.bind fun outcome => outcome.tokenId) = some "5" ∧
      DecodesAgree orderCreated
        (decodeLegacyRawEvent byteSdk (legacyEventKindName orderCreated)
          orderCreated.data "main" ⟨7, 0, 2⟩)
        (eventToProjection byteSdk ⟨7, 0, 1⟩ orderTransaction orderCreated
          ⟨none, none, false, none, none⟩) := by
  refine ⟨by decide +kernel, ?_⟩
  exact live_and_tool_decode_agree byteSdk ⟨7, 0, 1⟩ ⟨7, 0, 2⟩
    orderTransaction orderCreated ⟨none, none, false, none, none⟩ "main"
    (by decide +kernel) ⟨by decide +kernel, by decide +kernel⟩
    (by decide)

end Explorer.Ref
