import Explorer.Ref.LegacyDecode

/-!
# Extended events and the repair of blocks (`crates/ingestion/src`)

A transaction of the node has legacy events and extended events, and the
extended ones hold the typed payloads. The projection goes over the legacy
events and puts the payloads of the extended ones into them. A payload that
arrives as a shell, all of its fields at their defaults, is asked for again:
`fetch_decoded_block_for_projection` looks for an incomplete transaction,
replaces it by what the node answers for its hash, and looks again.

The node is a state and two functions that answer from it, so it may answer
anything at any time. A run leaves the requests that it made beside its result.
What the SDK types beyond the fields the code reads is kept as `rest`.
-/

namespace Explorer.Ref

open Explorer.Lib

/-! ## What the node answers -/

/-- `EventData`. The typed data of market orders is passed over. -/
inductive SdkEventData where
  | specialResolution (data : SdkSpecialResolutionData)
  | tokenCreate (data : SdkTokenCreateData)
  | tokenSeriesCreate (data : SdkTokenSeriesCreateData)
  | market (rest : Json)
  | unknown (value : Json)

structure SdkEventExResult where
  contract : String
  kind : String
  data : SdkEventData
  rest : Json

structure SdkTransactionResult where
  hash : String
  gasPayer : String
  events : List SdkEventResult
  extendedEvents : List SdkEventExResult
  rest : Json

structure SdkBlockResult where
  txs : List SdkTransactionResult
  rest : Json

/-! ## Payloads -/

/-- `special_resolution_payload`. -/
def specialResolutionPayload : SdkEventData → Option SdkSpecialResolutionData
  | .specialResolution data =>
      if data.resolutionId ≠ 0 then some data else none
  | _ => none

/-- `token_create_payload`. -/
def tokenCreatePayload : SdkEventData → Option SdkTokenCreateData
  | .tokenCreate data => if data.symbol.isEmpty then none else some data
  | _ => none

/-- `token_series_create_payload`. -/
def tokenSeriesCreatePayload :
    SdkEventData → Option SdkTokenSeriesCreateData
  | .tokenSeriesCreate data =>
      if !data.symbol.isEmpty && !data.owner.isEmpty then some data else none
  | _ => none

/-- `token_mint_payload`. -/
def tokenMintPayload : SdkEventData → Option Json
  | .unknown data =>
      if ((data.get "symbol").bind Json.asString).isSome &&
          ["tokenId", "mintNumber", "carbonTokenId", "carbonSeriesId",
            "carbonInstanceId"].all fun key => (data.get key).isSome then
        some data
      else none
  | _ => none

def SdkEventData.isSpecialResolution : SdkEventData → Bool
  | .specialResolution _ => true
  | _ => false

def SdkEventData.isTokenCreate : SdkEventData → Bool
  | .tokenCreate _ => true
  | _ => false

def SdkEventData.isTokenSeriesCreate : SdkEventData → Bool
  | .tokenSeriesCreate _ => true
  | _ => false

/-! ## Incomplete transactions -/

/-- The extended event that decides, typed and yet a shell. -/
def isShell {α : Type} (typed : SdkEventData → Bool)
    (payload : SdkEventData → Option α)
    (extended : Option SdkEventExResult) : Bool :=
  match extended with
  | none => false
  | some event => typed event.data && (payload event.data).isNone

namespace SdkTransactionResult

variable (transaction : SdkTransactionResult)

/-- The first extended event of a kind. -/
def firstExtended (kind : String) : Option SdkEventExResult :=
  transaction.extendedEvents.find? fun event =>
    eqIgnoreAsciiCase event.kind kind

/-- The first `SpecialResolution` of the governance contract. -/
def firstGovernanceResolution : Option SdkEventExResult :=
  transaction.extendedEvents.find? fun event =>
    eqIgnoreAsciiCase event.kind "SpecialResolution" &&
      eqIgnoreAsciiCase event.contract "governance"

/-- `transaction_has_incomplete_special_resolution`. -/
def hasIncompleteSpecialResolution : Bool :=
  let hasGovernanceLegacySpecialResolution := transaction.events.any
    fun event => eqIgnoreAsciiCase event.kind "SpecialResolution" &&
      eqIgnoreAsciiCase event.contract "governance"
  if !hasGovernanceLegacySpecialResolution then false
  else isShell SdkEventData.isSpecialResolution specialResolutionPayload
    transaction.firstGovernanceResolution

/-- `transaction_has_incomplete_token_create`. -/
def hasIncompleteTokenCreate : Bool :=
  let hasLegacyTokenCreate := transaction.events.any fun event =>
    eqIgnoreAsciiCase event.kind "TokenCreate"
  if !hasLegacyTokenCreate then false
  else isShell SdkEventData.isTokenCreate tokenCreatePayload
    (transaction.firstExtended "TokenCreate")

/-- `transaction_has_incomplete_token_series_create`. -/
def hasIncompleteTokenSeriesCreate : Bool :=
  isShell SdkEventData.isTokenSeriesCreate tokenSeriesCreatePayload
    (transaction.firstExtended "TokenSeriesCreate")

/-- `transaction_has_incomplete_extended_payload`. -/
def hasIncompleteExtendedPayload : Bool :=
  transaction.hasIncompleteSpecialResolution ||
    transaction.hasIncompleteTokenCreate ||
    transaction.hasIncompleteTokenSeriesCreate

/-- The kind that `incomplete_extended_payload` reports. -/
def incompleteKind : Option String :=
  if transaction.hasIncompleteSpecialResolution then some "SpecialResolution"
  else if transaction.hasIncompleteTokenCreate then some "TokenCreate"
  else if transaction.hasIncompleteTokenSeriesCreate then
    some "TokenSeriesCreate"
  else none

end SdkTransactionResult

structure IncompleteExtendedPayload where
  txIndex : Nat
  eventKind : String

/-- `incomplete_extended_payload`. -/
def incompleteExtendedPayload (block : SdkBlockResult) :
    Option IncompleteExtendedPayload :=
  block.txs.zipIdx.findSome? fun (transaction, txIndex) =>
    transaction.incompleteKind.map fun eventKind => ⟨txIndex, eventKind⟩

/-! ## Projecting the events of a transaction -/

/-- `TxExtendedEventContext::from_transaction`. -/
def TxExtendedEventContext.fromTransaction
    (transaction : SdkTransactionResult) : TxExtendedEventContext where
  specialResolution :=
    (transaction.extendedEvents.filter fun event =>
      eqIgnoreAsciiCase event.kind "SpecialResolution").findSome?
        fun event => specialResolutionPayload event.data
  tokenCreate := (transaction.firstExtended "TokenCreate").bind
    fun event => tokenCreatePayload event.data
  tokenCreateConsumed := false
  tokenSeriesCreate := (transaction.firstExtended "TokenSeriesCreate").bind
    fun event => tokenSeriesCreatePayload event.data
  tokenMint := (transaction.firstExtended "TokenMint").bind
    fun event => tokenMintPayload event.data

/-- `is_numeric_legacy_event_kind`. -/
def isNumericLegacyEventKind (eventKind : String) : Bool :=
  !eventKind.isEmpty && eventKind.toList.all Char.isDigit

/-- `special_resolution_raw_data`, over the bytes of a `u64`. -/
def specialResolutionRawData (sdk : LegacySdk)
    (data : SdkSpecialResolutionData) : String :=
  sdk.encodeHexUpper ((List.range 8).map fun i =>
    UInt8.ofNat (data.resolutionId / 256 ^ i))

/-- The variables of the loop over the legacy events. -/
structure EventLoop where
  events : List EventProjection
  context : TxExtendedEventContext
  hasLegacySpecialResolution : Bool
  hasLegacyTokenSeriesCreate : Bool

/-- `events.push(event_to_projection(..)?)`. -/
def EventLoop.push (sdk : LegacySdk) (transactionRecord : TransactionRecord)
    (place : EventPlace) (event : SdkEventResult) (loop : EventLoop) :
    Except IngestionError EventLoop := do
  let (projection, context) ←
    eventToProjection sdk place transactionRecord event loop.context
  return { loop with
    events := loop.events ++ [projection]
    context := context }

/-- One turn of the loop. -/
def EventLoop.step (sdk : LegacySdk) (transactionRecord : TransactionRecord)
    (blockHeight txIndex : Nat) (loop : EventLoop)
    (entry : SdkEventResult × Nat) : Except IngestionError EventLoop :=
  let (event, eventIndex) := entry
  let eventKind := legacyEventKindName event
  let loop := { loop with
    hasLegacySpecialResolution := loop.hasLegacySpecialResolution ||
      eqIgnoreAsciiCase eventKind "SpecialResolution"
    hasLegacyTokenSeriesCreate := loop.hasLegacyTokenSeriesCreate ||
      eqIgnoreAsciiCase eventKind "TokenSeriesCreate" }
  if isNumericLegacyEventKind eventKind then .ok loop
  else loop.push sdk transactionRecord ⟨blockHeight, txIndex, eventIndex⟩ event

/-- The event that stands for a resolution without a legacy event. -/
def syntheticSpecialResolution (sdk : LegacySdk)
    (transaction : SdkTransactionResult) (data : SdkSpecialResolutionData) :
    SdkEventResult where
  address := transaction.gasPayer
  contract := "governance"
  kind := "SpecialResolution"
  name := "SpecialResolution"
  data := specialResolutionRawData sdk data

/-- The event that stands for a series without a legacy event. -/
def syntheticTokenSeriesCreate (transaction : SdkTransactionResult)
    (data : SdkTokenSeriesCreateData) : SdkEventResult where
  address := (nonEmptyString data.owner).getD transaction.gasPayer
  contract := (nonEmptyString data.symbol).getD "token"
  kind := "TokenSeriesCreate"
  name := "TokenSeriesCreate"
  data := ""

/-- Push the resolution that has no legacy event, and the index after it. -/
def EventLoop.addSpecialResolution (sdk : LegacySdk)
    (transactionRecord : TransactionRecord) (blockHeight txIndex next : Nat)
    (transaction : SdkTransactionResult) (loop : EventLoop) :
    Except IngestionError (EventLoop × Nat) :=
  match loop.hasLegacySpecialResolution, loop.context.specialResolution with
  | false, some data => do
      let loop ← loop.push sdk transactionRecord ⟨blockHeight, txIndex, next⟩
        (syntheticSpecialResolution sdk transaction data)
      return (loop, next + 1)
  | _, _ => .ok (loop, next)

/-- Push the series that has no legacy event. -/
def EventLoop.addTokenSeriesCreate (sdk : LegacySdk)
    (transactionRecord : TransactionRecord) (blockHeight txIndex next : Nat)
    (transaction : SdkTransactionResult) (loop : EventLoop) :
    Except IngestionError EventLoop :=
  match loop.hasLegacyTokenSeriesCreate, loop.context.tokenSeriesCreate with
  | false, some data =>
      loop.push sdk transactionRecord ⟨blockHeight, txIndex, next⟩
        (syntheticTokenSeriesCreate transaction data)
  | _, _ => .ok loop

/-- `transaction_events_to_projections`. The height of the block is an `i64`. -/
def transactionEventsToProjections (sdk : LegacySdk) (blockHeight : Int)
    (transactionRecord : TransactionRecord) (txIndex : Nat)
    (transaction : SdkTransactionResult) :
    Except IngestionError (List EventProjection) :=
  if blockHeight < 0 then .error (.blockFieldOutOfRange 0 "height")
  else do
    let height := blockHeight.toNat
    let loop ← transaction.events.zipIdx.foldlM
      (EventLoop.step sdk transactionRecord height txIndex)
      ⟨[], .fromTransaction transaction, false, false⟩
    let (loop, next) ← loop.addSpecialResolution sdk transactionRecord height
      txIndex transaction.events.length transaction
    let loop ← loop.addTokenSeriesCreate sdk transactionRecord height txIndex
      next transaction
    return loop.events

/-! ## The repair loop -/

structure BlockPayload where
  rawValue : Json
  byteLen : Nat

/-- The node and what the SDK makes of its answers. -/
structure Node (σ : Type) where
  getBlockByHeightPayload : σ → Except IngestionError BlockPayload × σ
  decodeBlockResult : Json → Except IngestionError SdkBlockResult
  getTransaction : String → σ → Except IngestionError SdkTransactionResult × σ

/-- A request for a transaction of a block. -/
structure RepairStep where
  txIndex : Nat
  txHash : String
  answer : Except IngestionError SdkTransactionResult
  replaced : Bool

def specialResolutionRefetchAttempts : Nat := 25

def extendedPayloadRefetchMaxBlockBytes : Nat := 16 * 1024 * 1024

section

variable {σ : Type} (node : Node σ)

/-- `try_complete_transaction`: the block it leaves where it returns true. -/
def tryCompleteTransaction (txIndex : Nat) (block : SdkBlockResult) (s : σ) :
    Except IngestionError (Option SdkBlockResult) × List RepairStep × σ :=
  match block.txs[txIndex]?.bind fun transaction =>
      nonEmptyString transaction.hash with
  | none => (.ok none, [], s)
  | some txHash =>
      match node.getTransaction txHash s with
      | (.error e, s) =>
          (.error e, [⟨txIndex, txHash, .error e, false⟩], s)
      | (.ok transaction, s) =>
          if transaction.hasIncompleteExtendedPayload then
            (.ok none, [⟨txIndex, txHash, .ok transaction, false⟩], s)
          else
            (.ok (some { block with txs := block.txs.set txIndex transaction }),
              [⟨txIndex, txHash, .ok transaction, true⟩], s)

/-- How the inner loop ends. -/
inductive Repair where
  | complete (block : SdkBlockResult)
  | unresolved (incomplete : IncompleteExtendedPayload)
  | failed (error : IngestionError)

theorem incompleteExtendedPayload_lt {block : SdkBlockResult}
    {incomplete : IncompleteExtendedPayload}
    (h : incompleteExtendedPayload block = some incomplete) :
    incomplete.txIndex < block.txs.length := by
  obtain ⟨⟨transaction, i⟩, hmem, hkind⟩ := List.exists_of_findSome?_eq_some h
  obtain ⟨kind, -, rfl⟩ := Option.map_eq_some_iff.mp hkind
  exact List.snd_lt_of_mem_zipIdx hmem

theorem tryCompleteTransaction_length {txIndex : Nat} {block : SdkBlockResult}
    {s s' : σ} {block' : SdkBlockResult} {steps : List RepairStep}
    (h : tryCompleteTransaction node txIndex block s =
      (.ok (some block'), steps, s')) :
    block'.txs.length = block.txs.length := by
  simp only [tryCompleteTransaction] at h
  split at h
  · cases h
  · split at h
    · cases h
    · split at h
      · cases h
      · cases h
        exact List.length_set

/-- A replacement uses up one of the positions. -/
theorem card_sdiff_insert_lt {block block' : SdkBlockResult}
    {incomplete : IncompleteExtendedPayload} {completed : Finset Nat}
    {steps : List RepairStep} {s s' : σ}
    (hfound : incompleteExtendedPayload block = some incomplete)
    (hseen : incomplete.txIndex ∉ completed)
    (htry : tryCompleteTransaction node incomplete.txIndex block s =
      (.ok (some block'), steps, s')) :
    (Finset.range block'.txs.length \
        insert incomplete.txIndex completed).card <
      (Finset.range block.txs.length \ completed).card := by
  rw [tryCompleteTransaction_length node htry]
  have hsubset : Finset.range block.txs.length \
      insert incomplete.txIndex completed ⊆
      Finset.range block.txs.length \ completed :=
    Finset.sdiff_subset_sdiff subset_rfl (Finset.subset_insert _ _)
  have hlt := incompleteExtendedPayload_lt hfound
  refine Finset.card_lt_card ((Finset.ssubset_iff_of_subset hsubset).mpr
    ⟨incomplete.txIndex, ?_, ?_⟩)
  · exact Finset.mem_sdiff.mpr ⟨Finset.mem_range.mpr hlt, hseen⟩
  · simp

/-- The inner loop, with the set of the positions it replaced. -/
def repairBlock (block : SdkBlockResult) (completedTxIndexes : Finset Nat)
    (s : σ) : Repair × List RepairStep × σ :=
  match hfound : incompleteExtendedPayload block with
  | none => (.complete block, [], s)
  | some incomplete =>
      if hseen : incomplete.txIndex ∈ completedTxIndexes then
        (.unresolved incomplete, [], s)
      else
        match htry : tryCompleteTransaction node incomplete.txIndex block s with
        | (.error e, steps, s) => (.failed e, steps, s)
        | (.ok none, steps, s) => (.unresolved incomplete, steps, s)
        | (.ok (some block'), steps, s) =>
            have := card_sdiff_insert_lt node hfound hseen htry
            let (result, later, s) := repairBlock block'
              (insert incomplete.txIndex completedTxIndexes) s
            (result, steps ++ later, s)
termination_by (Finset.range block.txs.length \ completedTxIndexes).card

/-- A request for the block and what came of it. -/
structure Attempt where
  answer : Except IngestionError BlockPayload
  fetched : Option SdkBlockResult
  steps : List RepairStep

/-- The error after the last attempt. -/
def incompletePayloadError (height : Nat)
    (incomplete : Option IncompleteExtendedPayload) : IngestionError :=
  .eventPayloadDecode height ((incomplete.map (·.txIndex)).getD 0) 0
    ((incomplete.map (·.eventKind)).getD "extended")

/-- The loop over the attempts; `left` of them are still to come. -/
def fetchAttempts (height : Nat) :
    (left attempt maxAttempts : Nat) → Option IncompleteExtendedPayload → σ →
    Except IngestionError SdkBlockResult × List Attempt × σ
  | 0, _, _, incomplete, s =>
      (.error (incompletePayloadError height incomplete), [], s)
  | left + 1, attempt, maxAttempts, _, s =>
      match node.getBlockByHeightPayload s with
      | (.error e, s) => (.error e, [⟨.error e, none, []⟩], s)
      | (.ok payload, s) =>
          let maxAttempts :=
            if attempt = 1 ∧ extendedPayloadRefetchMaxBlockBytes <
              payload.byteLen then 1 else maxAttempts
          match node.decodeBlockResult payload.rawValue with
          | .error e => (.error e, [⟨.ok payload, none, []⟩], s)
          | .ok fetched =>
              match repairBlock node fetched ∅ s with
              | (.complete block, steps, s) =>
                  (.ok block, [⟨.ok payload, some fetched, steps⟩], s)
              | (.failed e, steps, s) =>
                  (.error e, [⟨.ok payload, some fetched, steps⟩], s)
              | (.unresolved incomplete, steps, s) =>
                  let this : Attempt := ⟨.ok payload, some fetched, steps⟩
                  if attempt < maxAttempts then
                    let (result, later, s) := fetchAttempts height left
                      (attempt + 1) maxAttempts (some incomplete) s
                    (result, this :: later, s)
                  else
                    (.error (incompletePayloadError height (some incomplete)),
                      [this], s)

/-- `fetch_decoded_block_for_projection`, with the requests it made. -/
def fetchDecodedBlockForProjection (height : Nat) (s : σ) :
    Except IngestionError SdkBlockResult × List Attempt × σ :=
  fetchAttempts node height specialResolutionRefetchAttempts 1
    specialResolutionRefetchAttempts none s

end

end Explorer.Ref
