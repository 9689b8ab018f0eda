import Explorer.Lib.Results
import Explorer.Proofs.LegacyAgree
import Explorer.Ref.ExtendedEvents

/-!
# Which typed payloads reach the projection

A block that passed the repair gate is projected. Three parts of the code
recognise a legacy event, each in its own way: the gate by the raw kind in any
letter case, the flags of the loop by the kind or the name in any letter case,
and the dispatch by the kind or the name as it is spelled. Where they disagree
a typed payload is lost, and `typedPayloadsKept_iff` says exactly when.
-/

namespace Explorer.Ref

open Explorer.Lib

/-! ## The property -/

/-- The payload of the event has the key. -/
def EventProjection.carries (event : EventProjection) (key : String) : Bool :=
  (event.payloadJson.bind fun json => json.get key).isSome

/-- The event is a resolution of the governance contract. -/
def EventProjection.isGovernanceResolution (event : EventProjection) : Bool :=
  event.eventKind == "SpecialResolution" &&
    event.contract.any fun contract => eqIgnoreAsciiCase contract "governance"

/-- The transaction has a typed resolution of the governance contract. -/
def SdkTransactionResult.HasTypedResolution
    (transaction : SdkTransactionResult) : Prop :=
  ∃ event ∈ transaction.extendedEvents,
    eqIgnoreAsciiCase event.kind "SpecialResolution" ∧
      eqIgnoreAsciiCase event.contract "governance" ∧
      event.data.isSpecialResolution

/-- The first extended event of the kind is typed. -/
def SdkTransactionResult.FirstTyped (transaction : SdkTransactionResult)
    (kind : String) (typed : SdkEventData → Bool) : Prop :=
  ∃ event, transaction.firstExtended kind = some event ∧ typed event.data

/-- A legacy event of the kind, in any letter case. -/
def SdkTransactionResult.HasLegacy (transaction : SdkTransactionResult)
    (kind : String) : Prop :=
  ∃ event ∈ transaction.events,
    eqIgnoreAsciiCase (legacyEventKindName event) kind

/-- A legacy event of the kind as it is spelled. -/
def SdkTransactionResult.HasExact (transaction : SdkTransactionResult)
    (kind : String) : Prop :=
  ∃ event ∈ transaction.events, legacyEventKindName event = kind

/-- The projection has the typed payloads of the transaction. -/
structure TypedPayloadsKept (transaction : SdkTransactionResult)
    (events : List EventProjection) : Prop where
  resolution : transaction.HasTypedResolution →
    ∀ event ∈ events, event.isGovernanceResolution →
      event.carries "special_resolution_event"
  series : transaction.FirstTyped "TokenSeriesCreate"
      SdkEventData.isTokenSeriesCreate →
    ∃ event ∈ events, event.carries "token_series_event"
  create : transaction.HasLegacy "TokenCreate" →
    transaction.FirstTyped "TokenCreate" SdkEventData.isTokenCreate →
    events.countP (fun event => event.carries "token_create_event") = 1

/-- The legacy event is dispatched as a resolution of the governance
contract. -/
def SdkEventResult.isGovernanceResolution (event : SdkEventResult) : Bool :=
  legacyEventKindName event == "SpecialResolution" &&
    eqIgnoreAsciiCase ((nonEmptyString event.contract).getD "unknown")
      "governance"

/-- The three parts of the code come to the same. -/
structure Recognised (transaction : SdkTransactionResult) : Prop where
  resolution : transaction.HasTypedResolution →
    (∃ event ∈ transaction.events, event.isGovernanceResolution) →
    ∃ event ∈ transaction.extendedEvents,
      eqIgnoreAsciiCase event.kind "SpecialResolution" ∧
        (specialResolutionPayload event.data).isSome
  series : transaction.FirstTyped "TokenSeriesCreate"
      SdkEventData.isTokenSeriesCreate →
    transaction.HasLegacy "TokenSeriesCreate" →
    transaction.HasExact "TokenSeriesCreate"
  create : transaction.HasLegacy "TokenCreate" →
    transaction.FirstTyped "TokenCreate" SdkEventData.isTokenCreate →
    transaction.HasExact "TokenCreate" ∧
      ((transaction.firstExtended "TokenCreate").bind
        fun event => tokenCreatePayload event.data).isSome

/-! ## What one event carries -/

/-- The keys of the typed payloads. -/
def typedKeys : List String :=
  ["special_resolution_event", "token_create_event", "token_series_event"]

/-- The kinds that have them. -/
def typedKinds : List String :=
  ["SpecialResolution", "TokenCreate", "TokenSeriesCreate"]

def Untyped (json : Json) : Prop := ∀ key ∈ typedKeys, json.get key = none

theorem get_setKey_of_ne {key k : String} (h : key ≠ k) (value json : Json) :
    (setKey k value json).get key = json.get key := by
  cases json with
  | obj fields =>
      simp only [setKey, Json.get, Json.lookup_setField]
      rw [if_neg h]
  | _ => rfl

theorem get_setKey_self (key : String) (value : Json) (fields : Json.Fields) :
    (setKey key value (.obj fields)).get key = some value := by
  simp [setKey, Json.get]

theorem untyped_setKey {k : String} {value json : Json} (hk : k ∉ typedKeys)
    (h : Untyped json) : Untyped (setKey k value json) := by
  intro key hkey
  have hne : key ≠ k := by
    rintro rfl
    exact hk hkey
  rw [get_setKey_of_ne hne, h key hkey]

theorem get_textObject_of_notMem {key : String}
    {fields : List (String × String)} (h : key ∉ fields.map Prod.fst) :
    (textObject fields).get key = none := by
  simp only [textObject, Json.object, Json.get]
  rw [Json.lookup_foldl_setField]
  · rfl
  · rw [List.map_map]
    exact h

theorem untyped_textObject {fields : List (String × String)}
    (h : ∀ key ∈ typedKeys, key ∉ fields.map Prod.fst) :
    Untyped (textObject fields) :=
  fun key hkey => get_textObject_of_notMem (h key hkey)

/-- What the dispatch leaves of the typed payloads of the context. -/
structure PartsCarry (eventKind payloadContract : String)
    (context : TxExtendedEventContext) (parts : LiveParts) : Prop where
  resolution : (parts.payload.get "special_resolution_event").isSome =
    (eventKind == "SpecialResolution" && context.specialResolution.isSome)
  create : (parts.payload.get "token_create_event").isSome =
    (eventKind == "TokenCreate" && context.tokenCreate.isSome &&
      !context.tokenCreateConsumed)
  series : (parts.payload.get "token_series_event").isSome =
    (eventKind == "TokenSeriesCreate" && context.tokenSeriesCreate.isSome)
  contract : eventKind = "SpecialResolution" → parts.contract = payloadContract
  context : parts.context = { context with
    tokenCreateConsumed := context.tokenCreateConsumed ||
      (eventKind == "TokenCreate" && context.tokenCreate.isSome) }

/-- The branches of all other kinds. -/
theorem partsCarry_of_untyped {eventKind payloadContract : String}
    {context : TxExtendedEventContext} {parts : LiveParts}
    (hkind : eventKind ∉ typedKinds) (hpayload : Untyped parts.payload)
    (hcontext : parts.context = context) :
    PartsCarry eventKind payloadContract context parts := by
  have hresolution : eventKind ≠ "SpecialResolution" := by
    rintro rfl
    exact hkind (by decide)
  have hcreate : eventKind ≠ "TokenCreate" := by
    rintro rfl
    exact hkind (by decide)
  have hseries : eventKind ≠ "TokenSeriesCreate" := by
    rintro rfl
    exact hkind (by decide)
  refine ⟨?_, ?_, ?_, fun h => absurd h hresolution, ?_⟩
  · rw [hpayload _ (by decide), beq_eq_false_iff_ne.mpr hresolution]
    rfl
  · rw [hpayload _ (by decide), beq_eq_false_iff_ne.mpr hcreate]
    rfl
  · rw [hpayload _ (by decide), beq_eq_false_iff_ne.mpr hseries]
    rfl
  · rw [hcontext, beq_eq_false_iff_ne.mpr hcreate]
    simp

theorem partsCarry_of_ok {eventKind payloadContract : String}
    {context : TxExtendedEventContext} {built parts : LiveParts}
    (hkind : eventKind ∉ typedKinds)
    (h : (.ok built : Except IngestionError LiveParts) = .ok parts)
    (hpayload : Untyped built.payload) (hcontext : built.context = context) :
    PartsCarry eventKind payloadContract context parts := by
  cases h
  exact partsCarry_of_untyped hkind hpayload hcontext

/-- A branch that decodes data adds keys of its own. -/
theorem partsCarry_of_bind {α : Type} {eventKind payloadContract : String}
    {context : TxExtendedEventContext} {parts : LiveParts}
    {decoded : Except IngestionError α} {build : α → LiveParts}
    (hkind : eventKind ∉ typedKinds)
    (h : (decoded >>= fun value => pure (build value)) = .ok parts)
    (hpayload : ∀ value, Untyped (build value).payload)
    (hcontext : ∀ value, (build value).context = context) :
    PartsCarry eventKind payloadContract context parts := by
  cases decoded with
  | error e => cases h
  | ok value =>
      cases h
      exact partsCarry_of_untyped hkind (hpayload value) (hcontext value)

theorem not_typedKind {p : String → Bool} {eventKind : String}
    (h : p eventKind = true) (hp : ∀ kind ∈ typedKinds, p kind = false) :
    eventKind ∉ typedKinds := by
  intro hmem
  rw [hp eventKind hmem] at h
  cases h

theorem not_typedKind_of_ne {eventKind : String}
    (hresolution : eventKind ≠ "SpecialResolution")
    (hcreate : eventKind ≠ "TokenCreate")
    (hseries : eventKind ≠ "TokenSeriesCreate") : eventKind ∉ typedKinds := by
  simp [typedKinds, hresolution, hcreate, hseries]

theorem untyped_base (eventKind payloadContract : String) :
    Untyped (textObject
      [("event_kind", eventKind), ("contract", payloadContract)]) :=
  untyped_textObject (show ∀ key ∈ typedKeys,
    key ∉ ["event_kind", "contract"] by decide)

theorem take_none {context context' : TxExtendedEventContext}
    (h : context.takeTokenCreateForEvent = (none, context')) :
    (context.tokenCreate.isSome && !context.tokenCreateConsumed) = false ∧
      context' = { context with
        tokenCreateConsumed := context.tokenCreateConsumed ||
          context.tokenCreate.isSome } := by
  obtain ⟨resolution, create, consumed, series, mint⟩ := context
  cases create with
  | none =>
      cases h
      exact ⟨rfl, by simp⟩
  | some data =>
      cases consumed with
      | true =>
          cases h
          exact ⟨rfl, rfl⟩
      | false => cases h

theorem take_some {context context' : TxExtendedEventContext}
    {data : SdkTokenCreateData}
    (h : context.takeTokenCreateForEvent = (some data, context')) :
    (context.tokenCreate.isSome && !context.tokenCreateConsumed) = true ∧
      context' = { context with
        tokenCreateConsumed := context.tokenCreateConsumed ||
          context.tokenCreate.isSome } := by
  obtain ⟨resolution, create, consumed, series, mint⟩ := context
  cases create with
  | none => cases h
  | some data =>
      cases consumed with
      | true => cases h
      | false =>
          cases h
          exact ⟨rfl, rfl⟩

/-- What the context has for the key of a typed payload. -/
def TxExtendedEventContext.holds (context : TxExtendedEventContext)
    (key : String) : Bool :=
  if key = "special_resolution_event" then context.specialResolution.isSome
  else if key = "token_create_event" then
    context.tokenCreate.isSome && !context.tokenCreateConsumed
  else context.tokenSeriesCreate.isSome

/-- The branches of a typed kind: of the typed keys the payload can have that of
the kind alone, and has it when the context has the data. -/
theorem partsCarry_of_typed {eventKind payloadContract key : String}
    {context : TxExtendedEventContext} {parts : LiveParts}
    (hkind : (eventKind, key) ∈ typedKinds.zip typedKeys)
    (hown : (parts.payload.get key).isSome = context.holds key)
    (hother : ∀ k ∈ typedKeys, k ≠ key → parts.payload.get k = none)
    (hcontract : eventKind = "SpecialResolution" →
      parts.contract = payloadContract)
    (hcontext : parts.context = { context with
      tokenCreateConsumed := context.tokenCreateConsumed ||
        (eventKind == "TokenCreate" && context.tokenCreate.isSome) }) :
    PartsCarry eventKind payloadContract context parts := by
  have hthree : eventKind = "SpecialResolution" ∧
        key = "special_resolution_event" ∨
      eventKind = "TokenCreate" ∧ key = "token_create_event" ∨
      eventKind = "TokenSeriesCreate" ∧ key = "token_series_event" := by
    simpa [typedKinds, typedKeys] using hkind
  rcases hthree with ⟨rfl, rfl⟩ | ⟨rfl, rfl⟩ | ⟨rfl, rfl⟩
  all_goals
    refine ⟨?_, ?_, ?_, hcontract, hcontext⟩
    all_goals
      first
        | rw [hown]
          simp [TxExtendedEventContext.holds]
        | rw [hother _ (by decide) (by decide)]
          simp

/-- A typed kind without its payload. -/
theorem partsCarry_without {eventKind payloadContract : String} (key : String)
    {context : TxExtendedEventContext} {parts : LiveParts}
    (hkind : (eventKind, key) ∈ typedKinds.zip typedKeys)
    (hnone : context.holds key = false) (hpayload : Untyped parts.payload)
    (hcontract : eventKind = "SpecialResolution" →
      parts.contract = payloadContract)
    (hcontext : parts.context = { context with
      tokenCreateConsumed := context.tokenCreateConsumed ||
        (eventKind == "TokenCreate" && context.tokenCreate.isSome) }) :
    PartsCarry eventKind payloadContract context parts := by
  refine partsCarry_of_typed hkind ?_ (fun k hk _ => hpayload k hk) hcontract
    hcontext
  rw [hpayload key (List.of_mem_zip hkind).2, hnone]
  rfl

/-- A typed kind with its payload. -/
theorem partsCarry_with {eventKind payloadContract : String} (key : String)
    {context : TxExtendedEventContext} {parts : LiveParts} {value : Json}
    {fields : Json.Fields}
    (hkind : (eventKind, key) ∈ typedKinds.zip typedKeys)
    (hsome : context.holds key = true) (hbase : Untyped (.obj fields))
    (hpayload : parts.payload = setKey key value (.obj fields))
    (hcontract : eventKind = "SpecialResolution" →
      parts.contract = payloadContract)
    (hcontext : parts.context = { context with
      tokenCreateConsumed := context.tokenCreateConsumed ||
        (eventKind == "TokenCreate" && context.tokenCreate.isSome) }) :
    PartsCarry eventKind payloadContract context parts := by
  refine partsCarry_of_typed hkind ?_ (fun k hk hne => ?_) hcontract hcontext
  · rw [hpayload, get_setKey_self, hsome]
    rfl
  · rw [hpayload, get_setKey_of_ne hne, hbase k hk]

theorem liveParts_carry {sdk : LegacySdk} {place : EventPlace}
    {event : SdkEventResult} {context : TxExtendedEventContext}
    {eventKind payloadContract : String} {rawData : Option String}
    {parts : LiveParts}
    (h : liveParts sdk place event context eventKind payloadContract rawData =
      .ok parts) : PartsCarry eventKind payloadContract context parts := by
  have hbase := untyped_base eventKind payloadContract
  revert h
  fun_cases liveParts with
  | case1 payload plain hk =>
      intro h
      exact partsCarry_of_ok (not_typedKind hk (by decide)) h hbase rfl
  | case2 payload plain hk rawData =>
      intro h
      refine partsCarry_of_bind (not_typedKind hk (by decide)) h
        (fun value => ?_) fun _ => rfl
      have hevent : Untyped (setKey "token_event" (textObject [
          ("token", value.token), ("value", value.valueRaw),
          ("value_raw", value.valueRaw), ("chain_name", value.chainName)])
          (setKey "token_id" (.str value.valueRaw) payload)) :=
        untyped_setKey (by decide) (untyped_setKey (by decide) hbase)
      dsimp only
      split
      · exact untyped_setKey (by decide) hevent
      · exact hevent
  | case3 payload plain _ hk =>
      intro h
      exact partsCarry_of_ok (by rw [hk]; decide) h hbase rfl
  | case4 payload plain _ hk rawData =>
      intro h
      exact partsCarry_of_bind (by rw [hk]; decide) h (fun value =>
        untyped_setKey (by decide) (untyped_setKey (by decide) hbase))
        fun _ => rfl
  | case5 payload plain _ _ hk =>
      intro h
      exact partsCarry_of_ok (not_typedKind hk (by decide)) h hbase rfl
  | case6 payload plain _ _ hk rawData =>
      intro h
      exact partsCarry_of_bind (not_typedKind hk (by decide)) h (fun value =>
        untyped_setKey (by decide) (untyped_setKey (by decide) hbase))
        fun _ => rfl
  | case7 payload plain _ _ _ hk =>
      intro h
      refine partsCarry_of_ok ?_ h hbase rfl
      rcases hk with hk | hk <;> rw [hk] <;> decide
  | case8 payload plain _ _ _ hk rawData =>
      intro h
      refine partsCarry_of_bind ?_ h
        (fun value => untyped_setKey (by decide) hbase) fun _ => rfl
      rcases hk with hk | hk <;> rw [hk] <;> decide
  | case9 payload plain _ _ _ _ hk =>
      intro h
      exact partsCarry_of_ok (by rw [hk]; decide) h hbase rfl
  | case10 payload plain _ _ _ _ hk rawData =>
      intro h
      exact partsCarry_of_ok (by rw [hk]; decide) h
        (untyped_setKey (by decide) hbase) rfl
  | case11 payload plain _ _ _ _ _ hk =>
      intro h
      exact partsCarry_of_ok (by rw [hk]; decide) h hbase rfl
  | case12 payload plain _ _ _ _ _ hk rawData =>
      intro h
      exact partsCarry_of_ok (by rw [hk]; decide) h
        (untyped_setKey (by decide) hbase) rfl
  | case13 rawData payload plain _ _ _ _ _ _ hk hnone =>
      intro h
      have hparts := Except.ok.inj h
      subst hparts
      exact partsCarry_without "special_resolution_event"
        (by rw [hk]; decide) (congrArg Option.isSome hnone) hbase
        (fun _ => rfl) (by simp [plain, hk])
  | case14 rawData payload plain _ _ _ _ _ _ hk data hdata =>
      intro h
      have hparts := Except.ok.inj h
      subst hparts
      exact partsCarry_with "special_resolution_event"
        (by rw [hk]; decide) (congrArg Option.isSome hdata)
        hbase rfl (fun _ => rfl) (by simp [plain, hk])
  | case15 rawData payload plain _ _ _ _ _ _ _ hk context' htake =>
      intro h
      have hparts := Except.ok.inj h
      subst hparts
      obtain ⟨hleft, hcontext⟩ := take_none htake
      exact partsCarry_without "token_create_event"
        (by rw [hk]; decide) hleft hbase
        (fun _ => rfl) (by rw [hcontext, hk]; simp)
  | case16 rawData payload plain _ _ _ _ _ _ _ hk data context' htake
      tokenCreate =>
      intro h
      have hparts := Except.ok.inj h
      subst hparts
      obtain ⟨hleft, hcontext⟩ := take_some htake
      exact partsCarry_with "token_create_event"
        (by rw [hk]; decide) hleft
        (untyped_setKey (by decide) hbase) rfl (fun _ => rfl)
        (by rw [hcontext, hk]; simp)
  | case17 rawData payload plain _ _ _ _ _ _ _ _ hk hnone =>
      intro h
      have hparts := Except.ok.inj h
      subst hparts
      exact partsCarry_without "token_series_event"
        (by rw [hk]; decide) (congrArg Option.isSome hnone) hbase
        (fun _ => rfl) (by simp [plain, hk])
  | case18 rawData payload plain _ _ _ _ _ _ _ _ hk data hdata seriesId
      withSeries =>
      intro h
      have hparts := Except.ok.inj h
      subst hparts
      have huntyped : Untyped withSeries ∧
          ∃ fields, withSeries = .obj fields := by
        simp only [withSeries, seriesId]
        cases tokenSeriesIdentity data with
        | none => exact ⟨hbase, _, rfl⟩
        | some id => exact ⟨untyped_setKey (by decide) hbase, _, rfl⟩
      obtain ⟨huntyped, fields, hfields⟩ := huntyped
      rw [hfields] at huntyped ⊢
      exact partsCarry_with "token_series_event"
        (by rw [hk]; decide) (congrArg Option.isSome hdata)
        huntyped rfl (fun hkind => absurd (hk.symm.trans hkind) (by decide))
        (by simp [plain, hk])
  | case19 payload plain _ _ _ _ _ _ _ _ _ hk =>
      intro h
      exact partsCarry_of_ok (not_typedKind hk (by decide)) h hbase rfl
  | case20 payload plain _ _ _ _ _ _ _ _ _ hk rawData =>
      intro h
      exact partsCarry_of_bind (not_typedKind hk (by decide)) h
        (fun value => untyped_setKey (by decide) hbase) fun _ => rfl
  | case21 rawData payload plain _ _ _ _ _ _ hresolution hcreate hseries _ hk =>
      intro h
      exact partsCarry_of_ok
        (not_typedKind_of_ne hresolution hcreate hseries) h hbase rfl
  | case22 rawData payload plain _ _ _ _ _ _ hresolution hcreate hseries _ _ =>
      intro h
      refine partsCarry_of_ok
        (not_typedKind_of_ne hresolution hcreate hseries) h ?_ rfl
      exact untyped_textObject (show ∀ key ∈ typedKeys,
        key ∉ ["contract", "kind", "name", "data"] by decide)

/-- What the projection of one event has of the typed payloads. -/
structure EventCarries (event : SdkEventResult)
    (context context' : TxExtendedEventContext) (projection : EventProjection) :
    Prop where
  kind : projection.eventKind = legacyEventKindName event
  resolution : projection.carries "special_resolution_event" =
    (legacyEventKindName event == "SpecialResolution" &&
      context.specialResolution.isSome)
  create : projection.carries "token_create_event" =
    (legacyEventKindName event == "TokenCreate" &&
      context.tokenCreate.isSome && !context.tokenCreateConsumed)
  series : projection.carries "token_series_event" =
    (legacyEventKindName event == "TokenSeriesCreate" &&
      context.tokenSeriesCreate.isSome)
  governance : projection.isGovernanceResolution =
    event.isGovernanceResolution
  context : context' = { context with
    tokenCreateConsumed := context.tokenCreateConsumed ||
      (legacyEventKindName event == "TokenCreate" &&
        context.tokenCreate.isSome) }

theorem eventToProjection_carries {sdk : LegacySdk} {place : EventPlace}
    {record : TransactionRecord} {event : SdkEventResult}
    {context context' : TxExtendedEventContext} {projection : EventProjection}
    (h : eventToProjection sdk place record event context =
      .ok (projection, context')) :
    EventCarries event context context' projection := by
  rw [eventToProjection] at h
  generalize hparts : liveParts sdk place event context
    (legacyEventKindName event) ((nonEmptyString event.contract).getD "unknown")
    _ = parts at h
  cases parts with
  | error e => cases h
  | ok parts =>
      have hcarry := liveParts_carry hparts
      cases hindex : eventIndexToI32 place with
      | error e =>
          rw [hindex] at h
          cases h
      | ok index =>
          rw [hindex] at h
          have hpayload : projection.payloadJson = some parts.payload := by
            cases h
            rfl
          have hkind : projection.eventKind = legacyEventKindName event := by
            cases h
            dsimp only
          have hcontract : projection.contract = some parts.contract := by
            cases h
            rfl
          have hcontext : context' = parts.context := by
            cases h
            rfl
          have hcarries : ∀ key, projection.carries key =
              (parts.payload.get key).isSome := by
            intro key
            rw [EventProjection.carries, hpayload, Option.bind_some]
          refine ⟨hkind, (hcarries _).trans hcarry.resolution,
            (hcarries _).trans hcarry.create, (hcarries _).trans hcarry.series,
            ?_, hcontext.trans hcarry.context⟩
          rw [EventProjection.isGovernanceResolution,
            SdkEventResult.isGovernanceResolution, hkind, hcontract,
            Option.any_some]
          by_cases hresolution :
              legacyEventKindName event = "SpecialResolution"
          · rw [hcarry.contract hresolution]
          · rw [beq_eq_false_iff_ne.mpr hresolution, Bool.false_and,
              Bool.false_and]

/-! ## The loop -/

/-- An event of the kind, as it is spelled, is among the events. -/
def exactIn (events : List SdkEventResult) (kind : String) : Bool :=
  events.any fun event => legacyEventKindName event == kind

/-- The same in any letter case. -/
def legacyIn (events : List SdkEventResult) (kind : String) : Bool :=
  events.any fun event => eqIgnoreAsciiCase (legacyEventKindName event) kind

/-- What the loop has after some events. -/
structure EventsKeep (start : TxExtendedEventContext)
    (done : List SdkEventResult) (loop : EventLoop) : Prop where
  context : loop.context = { start with
    tokenCreateConsumed :=
      exactIn done "TokenCreate" && start.tokenCreate.isSome }
  resolution : ∀ event ∈ loop.events, event.isGovernanceResolution →
    event.carries "special_resolution_event" = start.specialResolution.isSome
  governance : loop.events.any EventProjection.isGovernanceResolution =
    done.any SdkEventResult.isGovernanceResolution
  series : (loop.events.any fun event => event.carries "token_series_event") =
    (exactIn done "TokenSeriesCreate" && start.tokenSeriesCreate.isSome)
  create : loop.events.countP
      (fun event => event.carries "token_create_event") =
    (exactIn done "TokenCreate" && start.tokenCreate.isSome).toNat

theorem exactIn_append (done : List SdkEventResult) (event : SdkEventResult)
    (kind : String) :
    exactIn (done ++ [event]) kind =
      (exactIn done kind || legacyEventKindName event == kind) := by
  simp [exactIn]

theorem eventsKeep_push {start : TxExtendedEventContext}
    {done : List SdkEventResult} {loop loop' : EventLoop} {sdk : LegacySdk}
    {record : TransactionRecord} {place : EventPlace} {event : SdkEventResult}
    (h : EventsKeep start done loop)
    (hpush : loop.push sdk record place event = .ok loop') :
    EventsKeep start (done ++ [event]) loop' := by
  rw [EventLoop.push] at hpush
  cases hone : eventToProjection sdk place record event loop.context with
  | error e =>
      rw [hone] at hpush
      cases hpush
  | ok pair =>
      obtain ⟨projection, context⟩ := pair
      rw [hone] at hpush
      cases hpush
      have hcarry := eventToProjection_carries hone
      have hcontext := h.context
      refine ⟨?_, ?_, ?_, ?_, ?_⟩
      · show context = _
        rw [hcarry.context, hcontext, exactIn_append]
        cases exactIn done "TokenCreate" <;>
          cases start.tokenCreate.isSome <;> simp
      · intro p hp hgov
        rcases List.mem_append.mp hp with hp | hp
        · exact h.resolution p hp hgov
        · rw [List.mem_singleton] at hp
          subst hp
          rw [hcarry.resolution, hcontext]
          rw [EventProjection.isGovernanceResolution, hcarry.kind,
            Bool.and_eq_true] at hgov
          rw [hgov.1, Bool.true_and]
      · simp only [List.any_append, List.any_cons, List.any_nil, Bool.or_false,
          h.governance, hcarry.governance]
      · simp only [List.any_append, List.any_cons, List.any_nil, Bool.or_false,
          h.series, hcarry.series, exactIn_append, hcontext]
        rw [Bool.and_or_distrib_right]
      · rw [List.countP_append, List.countP_singleton, h.create, hcarry.create,
          exactIn_append, hcontext]
        cases exactIn done "TokenCreate" <;>
          cases start.tokenCreate.isSome <;>
          cases legacyEventKindName event == "TokenCreate" <;> simp

/-- A numeric kind leaves no row and is none of the kinds. -/
theorem eventsKeep_skip {start : TxExtendedEventContext}
    {done : List SdkEventResult} {loop : EventLoop} {event : SdkEventResult}
    (h : EventsKeep start done loop)
    (hnumeric : isNumericLegacyEventKind (legacyEventKindName event) = true) :
    EventsKeep start (done ++ [event]) loop := by
  have hkind : ∀ kind, isNumericLegacyEventKind kind = false →
      exactIn (done ++ [event]) kind = exactIn done kind := by
    intro kind hk
    rw [exactIn_append]
    have hne : legacyEventKindName event ≠ kind := by
      rintro rfl
      rw [hk] at hnumeric
      cases hnumeric
    rw [beq_eq_false_iff_ne.mpr hne, Bool.or_false]
  have hgov : event.isGovernanceResolution = false := by
    have hne : legacyEventKindName event ≠ "SpecialResolution" := by
      intro heq
      rw [heq] at hnumeric
      exact absurd hnumeric (by decide)
    rw [SdkEventResult.isGovernanceResolution, beq_eq_false_iff_ne.mpr hne,
      Bool.false_and]
  refine ⟨?_, h.resolution, ?_, ?_, ?_⟩
  · rw [h.context, hkind _ (by decide)]
  · rw [h.governance, List.any_append, List.any_cons, List.any_nil, hgov]
    simp
  · rw [h.series, hkind _ (by decide)]
  · rw [h.create, hkind _ (by decide)]

theorem push_flags {loop loop' : EventLoop} {sdk : LegacySdk}
    {record : TransactionRecord} {place : EventPlace} {event : SdkEventResult}
    (h : loop.push sdk record place event = .ok loop') :
    loop'.hasLegacySpecialResolution = loop.hasLegacySpecialResolution ∧
      loop'.hasLegacyTokenSeriesCreate = loop.hasLegacyTokenSeriesCreate := by
  rw [EventLoop.push] at h
  cases hone : eventToProjection sdk place record event loop.context with
  | error e =>
      rw [hone] at h
      cases h
  | ok pair =>
      rw [hone] at h
      cases h
      exact ⟨rfl, rfl⟩

theorem eventsKeep_flags {start : TxExtendedEventContext}
    {done : List SdkEventResult} {loop : EventLoop}
    (h : EventsKeep start done loop) (resolution series : Bool) :
    EventsKeep start done { loop with
      hasLegacySpecialResolution := resolution
      hasLegacyTokenSeriesCreate := series } :=
  ⟨h.context, h.resolution, h.governance, h.series, h.create⟩

/-- What one turn of the loop does. -/
theorem eventsKeep_step {start : TxExtendedEventContext}
    {done : List SdkEventResult} {loop loop' : EventLoop} {sdk : LegacySdk}
    {record : TransactionRecord} {height txIndex : Nat}
    {entry : SdkEventResult × Nat} (h : EventsKeep start done loop)
    (hresolution : loop.hasLegacySpecialResolution =
      legacyIn done "SpecialResolution")
    (hseries : loop.hasLegacyTokenSeriesCreate =
      legacyIn done "TokenSeriesCreate")
    (hstep : loop.step sdk record height txIndex entry = .ok loop') :
    EventsKeep start (done ++ [entry.1]) loop' ∧
      loop'.hasLegacySpecialResolution =
        legacyIn (done ++ [entry.1]) "SpecialResolution" ∧
      loop'.hasLegacyTokenSeriesCreate =
        legacyIn (done ++ [entry.1]) "TokenSeriesCreate" := by
  obtain ⟨event, index⟩ := entry
  have happend : ∀ kind, legacyIn (done ++ [event]) kind =
      (legacyIn done kind ||
        eqIgnoreAsciiCase (legacyEventKindName event) kind) := by
    intro kind
    simp [legacyIn]
  rw [happend, happend, ← hresolution, ← hseries]
  rw [EventLoop.step] at hstep
  split at hstep
  · rename_i hnumeric
    cases hstep
    exact ⟨eventsKeep_skip (eventsKeep_flags h _ _) hnumeric, rfl, rfl⟩
  · exact ⟨eventsKeep_push (eventsKeep_flags h _ _) hstep, push_flags hstep⟩

theorem eventsKeep_foldlM {start : TxExtendedEventContext} {sdk : LegacySdk}
    {record : TransactionRecord} {height txIndex : Nat}
    {entries : List (SdkEventResult × Nat)} :
    ∀ {done : List SdkEventResult} {loop loop' : EventLoop},
      EventsKeep start done loop →
      loop.hasLegacySpecialResolution = legacyIn done "SpecialResolution" →
      loop.hasLegacyTokenSeriesCreate = legacyIn done "TokenSeriesCreate" →
      entries.foldlM (EventLoop.step sdk record height txIndex) loop =
        .ok loop' →
      EventsKeep start (done ++ entries.map Prod.fst) loop' ∧
        loop'.hasLegacySpecialResolution =
          legacyIn (done ++ entries.map Prod.fst) "SpecialResolution" ∧
        loop'.hasLegacyTokenSeriesCreate =
          legacyIn (done ++ entries.map Prod.fst) "TokenSeriesCreate" := by
  induction entries with
  | nil =>
      intro done loop loop' h hresolution hseries hrun
      cases hrun
      rw [List.map_nil, List.append_nil]
      exact ⟨h, hresolution, hseries⟩
  | cons entry entries ih =>
      intro done loop loop' h hresolution hseries hrun
      rw [List.foldlM_cons] at hrun
      cases hstep : loop.step sdk record height txIndex entry with
      | error e =>
          rw [hstep] at hrun
          cases hrun
      | ok next =>
          rw [hstep] at hrun
          obtain ⟨hkeep, hr, hs⟩ :=
            eventsKeep_step h hresolution hseries hstep
          have hlast := ih hkeep hr hs hrun
          rw [List.append_assoc] at hlast
          exact hlast

/-! ## The whole transaction -/

/-- The events that stand in for missing legacy events. -/
structure Synthetic (transaction : SdkTransactionResult)
    (start : TxExtendedEventContext) (added : List SdkEventResult) : Prop where
  resolution : (∃ event ∈ added, event.isGovernanceResolution) →
    start.specialResolution.isSome
  series : exactIn added "TokenSeriesCreate" =
    (!legacyIn transaction.events "TokenSeriesCreate" &&
      start.tokenSeriesCreate.isSome)
  create : exactIn added "TokenCreate" = false

theorem synthetic_series_kind (transaction : SdkTransactionResult)
    (data : SdkTokenSeriesCreateData) :
    legacyEventKindName (syntheticTokenSeriesCreate transaction data) =
      "TokenSeriesCreate" := by
  simp only [legacyEventKindName, syntheticTokenSeriesCreate]
  decide +kernel

theorem synthetic_resolution_kind (sdk : LegacySdk)
    (transaction : SdkTransactionResult) (data : SdkSpecialResolutionData) :
    legacyEventKindName (syntheticSpecialResolution sdk transaction data) =
      "SpecialResolution" := by
  simp only [legacyEventKindName, syntheticSpecialResolution]
  decide +kernel

theorem exactIn_append_list (front back : List SdkEventResult)
    (kind : String) :
    exactIn (front ++ back) kind =
      (exactIn front kind || exactIn back kind) := by
  rw [exactIn, List.any_append]
  rfl

theorem exactIn_eq_false {events : List SdkEventResult} {kind kind' : String}
    (h : ∀ event ∈ events, legacyEventKindName event = kind)
    (hne : kind ≠ kind') : exactIn events kind' = false := by
  rw [exactIn, List.any_eq_false]
  intro event hevent
  rw [h event hevent, beq_iff_eq]
  exact hne

theorem eventsKeep_nil (start : TxExtendedEventContext)
    (hstart : start.tokenCreateConsumed = false) :
    EventsKeep start [] ⟨[], start, false, false⟩ := by
  refine ⟨?_, fun event h => absurd h List.not_mem_nil, rfl, ?_, ?_⟩
  · obtain ⟨resolution, create, consumed, series, mint⟩ := start
    cases hstart
    simp [exactIn]
  · simp [exactIn]
  · simp [exactIn]

/-- The resolution that was left out. -/
theorem eventsKeep_resolution {sdk : LegacySdk} {record : TransactionRecord}
    {height txIndex next : Nat} {transaction : SdkTransactionResult}
    {start : TxExtendedEventContext} {done : List SdkEventResult}
    {loop : EventLoop} {r : EventLoop × Nat}
    (hkeep : EventsKeep start done loop)
    (h : loop.addSpecialResolution sdk record height txIndex next transaction =
      .ok r) :
    ∃ added, EventsKeep start (done ++ added) r.1 ∧
      r.1.hasLegacyTokenSeriesCreate = loop.hasLegacyTokenSeriesCreate ∧
      (∀ event ∈ added, legacyEventKindName event = "SpecialResolution") ∧
      (added ≠ [] → start.specialResolution.isSome) := by
  have hcontext : loop.context.specialResolution = start.specialResolution := by
    rw [hkeep.context]
  rw [EventLoop.addSpecialResolution] at h
  split at h
  · rename_i data hflag hdata
    obtain ⟨loop', hpush, h⟩ := bind_eq_ok h
    cases h
    refine ⟨[_], eventsKeep_push hkeep hpush, (push_flags hpush).2, ?_, ?_⟩
    · intro event hevent
      rw [List.mem_singleton.mp hevent]
      exact synthetic_resolution_kind sdk transaction data
    · intro _
      rw [← hcontext, hdata]
      rfl
  · cases h
    refine ⟨[], ?_, rfl, nofun, fun h => absurd rfl h⟩
    rw [List.append_nil]
    exact hkeep

/-- The series that was left out. -/
theorem eventsKeep_series {sdk : LegacySdk} {record : TransactionRecord}
    {height txIndex next : Nat} {transaction : SdkTransactionResult}
    {start : TxExtendedEventContext} {done : List SdkEventResult}
    {loop loop' : EventLoop} (hkeep : EventsKeep start done loop)
    (h : loop.addTokenSeriesCreate sdk record height txIndex next transaction =
      .ok loop') :
    ∃ added, EventsKeep start (done ++ added) loop' ∧
      (∀ event ∈ added, legacyEventKindName event = "TokenSeriesCreate") ∧
      exactIn added "TokenSeriesCreate" =
        (!loop.hasLegacyTokenSeriesCreate &&
          start.tokenSeriesCreate.isSome) := by
  have hcontext : loop.context.tokenSeriesCreate = start.tokenSeriesCreate := by
    rw [hkeep.context]
  rw [EventLoop.addTokenSeriesCreate] at h
  split at h
  · rename_i data hflag hdata
    refine ⟨[_], eventsKeep_push hkeep h, ?_, ?_⟩
    · intro event hevent
      rw [List.mem_singleton.mp hevent]
      exact synthetic_series_kind transaction data
    · rw [exactIn, List.any_cons, synthetic_series_kind, hflag, ← hcontext,
        hdata]
      simp
  · rename_i hother
    cases h
    refine ⟨[], ?_, nofun, ?_⟩
    · rw [List.append_nil]
      exact hkeep
    · cases hflag : loop.hasLegacyTokenSeriesCreate with
      | true => rfl
      | false =>
          cases hdata : start.tokenSeriesCreate with
          | none => rfl
          | some data =>
              rw [← hcontext] at hdata
              exact absurd hdata (hother data hflag)

theorem projections_keep {sdk : LegacySdk} {blockHeight : Int}
    {record : TransactionRecord} {txIndex : Nat}
    {transaction : SdkTransactionResult} {events : List EventProjection}
    (h : transactionEventsToProjections sdk blockHeight record txIndex
      transaction = .ok events) :
    ∃ loop added, loop.events = events ∧
      EventsKeep (.fromTransaction transaction) (transaction.events ++ added)
        loop ∧
      Synthetic transaction (.fromTransaction transaction) added := by
  have hstart := eventsKeep_nil (.fromTransaction transaction) rfl
  rw [transactionEventsToProjections] at h
  generalize TxExtendedEventContext.fromTransaction transaction = start
    at hstart h
  split at h
  · cases h
  · obtain ⟨loop, hrun, h⟩ := bind_eq_ok h
    obtain ⟨⟨loop₁, next⟩, hresolution, h⟩ := bind_eq_ok h
    obtain ⟨loop₂, hseries, h⟩ := bind_eq_ok h
    cases h
    obtain ⟨hkeep, -, hflag⟩ := eventsKeep_foldlM hstart rfl rfl hrun
    rw [List.nil_append, List.zipIdx_map_fst] at hkeep hflag
    obtain ⟨added₁, hkeep₁, hflag₁, hkinds₁, hsome⟩ :=
      eventsKeep_resolution hkeep hresolution
    obtain ⟨added₂, hkeep₂, hkinds₂, hexact⟩ :=
      eventsKeep_series hkeep₁ hseries
    rw [List.append_assoc] at hkeep₂
    refine ⟨loop₂, added₁ ++ added₂, rfl, hkeep₂, ?_, ?_, ?_⟩
    · rintro ⟨event, hevent, hgovernance⟩
      rcases List.mem_append.mp hevent with hevent | hevent
      · exact hsome (List.ne_nil_of_mem hevent)
      · rw [SdkEventResult.isGovernanceResolution, hkinds₂ event hevent]
          at hgovernance
        simp at hgovernance
    · rw [exactIn_append_list, hexact, hflag₁, hflag,
        exactIn_eq_false hkinds₁ (by decide), Bool.false_or]
    · rw [exactIn_append_list, exactIn_eq_false hkinds₁ (by decide),
        exactIn_eq_false hkinds₂ (by decide), Bool.false_or]

theorem specialResolution_isSome_iff (transaction : SdkTransactionResult) :
    (TxExtendedEventContext.fromTransaction
      transaction).specialResolution.isSome ↔
      ∃ event ∈ transaction.extendedEvents,
        eqIgnoreAsciiCase event.kind "SpecialResolution" ∧
          (specialResolutionPayload event.data).isSome := by
  simp only [TxExtendedEventContext.fromTransaction, List.findSome?_isSome_iff,
    List.mem_filter, and_assoc]

/-- In a complete transaction the typed series is usable. -/
theorem tokenSeriesCreate_isSome {transaction : SdkTransactionResult}
    (hcomplete : transaction.hasIncompleteExtendedPayload = false)
    (htyped : transaction.FirstTyped "TokenSeriesCreate"
      SdkEventData.isTokenSeriesCreate) :
    (TxExtendedEventContext.fromTransaction
      transaction).tokenSeriesCreate.isSome := by
  obtain ⟨event, hfirst, htyped⟩ := htyped
  rw [SdkTransactionResult.hasIncompleteExtendedPayload, Bool.or_eq_false_iff]
    at hcomplete
  have hshell := hcomplete.2
  simp only [SdkTransactionResult.hasIncompleteTokenSeriesCreate, isShell,
    hfirst, htyped, Bool.true_and, Option.isNone_eq_false_iff] at hshell
  simp only [TxExtendedEventContext.fromTransaction, hfirst, Option.bind_some]
  exact hshell

theorem hasExact_iff {transaction : SdkTransactionResult} {kind : String} :
    transaction.HasExact kind ↔ exactIn transaction.events kind = true := by
  simp [SdkTransactionResult.HasExact, exactIn]

theorem hasLegacy_iff {transaction : SdkTransactionResult} {kind : String} :
    transaction.HasLegacy kind ↔ legacyIn transaction.events kind = true := by
  simp [SdkTransactionResult.HasLegacy, legacyIn]

/-- A transaction that passed the gate keeps its typed payloads exactly when
the gate, the flags and the dispatch recognise its legacy events alike. -/
theorem typedPayloadsKept_iff (sdk : LegacySdk) (blockHeight : Int)
    (record : TransactionRecord) (txIndex : Nat)
    (transaction : SdkTransactionResult) (events : List EventProjection)
    (hcomplete : transaction.hasIncompleteExtendedPayload = false)
    (h : transactionEventsToProjections sdk blockHeight record txIndex
      transaction = .ok events) :
    TypedPayloadsKept transaction events ↔ Recognised transaction := by
  obtain ⟨loop, added, rfl, hkeep, hadded⟩ := projections_keep h
  have hgov : (∃ event ∈ loop.events, event.isGovernanceResolution) ↔
      ∃ event ∈ transaction.events ++ added,
        event.isGovernanceResolution := by
    rw [← List.any_eq_true, ← List.any_eq_true, hkeep.governance]
  have hseries : (∃ event ∈ loop.events,
        event.carries "token_series_event") ↔
      exactIn (transaction.events ++ added) "TokenSeriesCreate" ∧
        (TxExtendedEventContext.fromTransaction
          transaction).tokenSeriesCreate.isSome := by
    rw [← List.any_eq_true, hkeep.series, Bool.and_eq_true]
  have hcreate : loop.events.countP
        (fun event => event.carries "token_create_event") = 1 ↔
      exactIn transaction.events "TokenCreate" ∧
        (TxExtendedEventContext.fromTransaction
          transaction).tokenCreate.isSome := by
    rw [hkeep.create, exactIn_append_list, hadded.create, Bool.or_false,
      ← Bool.and_eq_true]
    cases exactIn transaction.events "TokenCreate" &&
      (TxExtendedEventContext.fromTransaction
        transaction).tokenCreate.isSome <;> simp
  constructor
  · intro hkept
    refine ⟨?_, ?_, ?_⟩
    · rintro htyped ⟨event, hevent, hgovernance⟩
      obtain ⟨p, hp, hpgov⟩ := hgov.mpr
        ⟨event, List.mem_append_left _ hevent, hgovernance⟩
      rw [← specialResolution_isSome_iff, ← hkeep.resolution p hp hpgov]
      exact hkept.resolution htyped p hp hpgov
    · intro htyped hlegacy
      obtain ⟨hexact, -⟩ := hseries.mp (hkept.series htyped)
      rw [exactIn_append_list, hadded.series, hasLegacy_iff.mp hlegacy,
        Bool.not_true, Bool.false_and, Bool.or_false] at hexact
      exact hasExact_iff.mpr hexact
    · intro hlegacy htyped
      obtain ⟨hexact, hsome⟩ := hcreate.mp (hkept.create hlegacy htyped)
      exact ⟨hasExact_iff.mpr hexact, hsome⟩
  · intro hrec
    refine ⟨?_, ?_, ?_⟩
    · intro htyped p hp hpgov
      rw [hkeep.resolution p hp hpgov]
      obtain ⟨event, hevent, hgovernance⟩ := hgov.mp ⟨p, hp, hpgov⟩
      rcases List.mem_append.mp hevent with hevent | hevent
      · rw [specialResolution_isSome_iff]
        exact hrec.resolution htyped ⟨event, hevent, hgovernance⟩
      · exact hadded.resolution ⟨event, hevent, hgovernance⟩
    · intro htyped
      have hsome := tokenSeriesCreate_isSome hcomplete htyped
      refine hseries.mpr ⟨?_, hsome⟩
      rw [exactIn_append_list, hadded.series, hsome, Bool.and_true]
      cases hlegacy : legacyIn transaction.events "TokenSeriesCreate" with
      | false => simp
      | true =>
          have hexact := hrec.series htyped (hasLegacy_iff.mpr hlegacy)
          rw [hasExact_iff.mp hexact, Bool.true_or]
    · intro hlegacy htyped
      obtain ⟨hexact, hsome⟩ := hrec.create hlegacy htyped
      exact hcreate.mpr ⟨hasExact_iff.mp hexact, hsome⟩

/-! ## Transactions of one event -/

/-- A transaction with one legacy and one extended event. -/
def oneEvent (kind name extendedKind : String) (data : SdkEventData) :
    SdkTransactionResult where
  hash := "AB"
  gasPayer := "P2K"
  events := [⟨"P2K", "governance", kind, name, ""⟩]
  extendedEvents := [⟨"governance", extendedKind, data, .null⟩]
  rest := .null

/-- Resolution `id`, without calls. -/
def resolutionData (id : Nat) : SdkEventData :=
  .specialResolution ⟨id, none, [], by decide⟩

def tokenCreateData : SdkEventData := .tokenCreate ⟨"X", "0", 0, true, 0, []⟩

def tokenSeriesData : SdkEventData :=
  .tokenSeriesCreate ⟨"X", "7", 0, 0, "P2K", 0, 0, []⟩

/-- The rows of the transaction, when it is projected. -/
def projected (transaction : SdkTransactionResult) : List EventProjection :=
  ((transactionEventsToProjections byteSdk 7 orderTransaction 0
    transaction).toOption).getD []

theorem projected_ok {transaction : SdkTransactionResult}
    (h : (transactionEventsToProjections byteSdk 7 orderTransaction 0
      transaction).isOk = true) :
    transactionEventsToProjections byteSdk 7 orderTransaction 0 transaction =
      .ok (projected transaction) := by
  rw [projected]
  cases hrun : transactionEventsToProjections byteSdk 7 orderTransaction 0
      transaction with
  | error e =>
      rw [hrun] at h
      cases h
  | ok events => rfl

theorem typedPayloadsKept_iff_of_resolution :
    ∃ events, transactionEventsToProjections byteSdk 7 orderTransaction 0
        (oneEvent "SpecialResolution" "" "SpecialResolution"
          (resolutionData 5)) = .ok events ∧
      TypedPayloadsKept (oneEvent "SpecialResolution" "" "SpecialResolution"
        (resolutionData 5)) events := by
  have hok := @projected_ok (oneEvent "SpecialResolution" ""
    "SpecialResolution" (resolutionData 5)) (by decide +kernel)
  refine ⟨_, hok, (typedPayloadsKept_iff _ _ _ _ _ _ (by decide +kernel)
    hok).mpr ⟨fun _ _ => ?_, fun _ h => ?_, fun h _ => ?_⟩⟩
  · exact ⟨_, List.mem_singleton_self _, by decide +kernel, rfl⟩
  · obtain ⟨event, hevent, hkind⟩ := h
    rw [List.mem_singleton.mp hevent] at hkind
    exact absurd hkind (by decide +kernel)
  · obtain ⟨event, hevent, hkind⟩ := h
    rw [List.mem_singleton.mp hevent] at hkind
    exact absurd hkind (by decide +kernel)

/-- A legacy resolution that only its name tells passes the gate with a shell;
a creation or a series that is spelled in small letters passes it and has no
branch in the dispatch. -/
theorem typed_payloads_lost :
    (∃ events, transactionEventsToProjections byteSdk 7 orderTransaction 0
        (oneEvent "" "SpecialResolution" "SpecialResolution"
          (resolutionData 0)) = .ok events ∧
      (oneEvent "" "SpecialResolution" "SpecialResolution"
        (resolutionData 0)).hasIncompleteExtendedPayload = false ∧
      ¬TypedPayloadsKept (oneEvent "" "SpecialResolution" "SpecialResolution"
        (resolutionData 0)) events) ∧
    (∃ events, transactionEventsToProjections byteSdk 7 orderTransaction 0
        (oneEvent "tokencreate" "" "TokenCreate" tokenCreateData) =
          .ok events ∧
      (oneEvent "tokencreate" "" "TokenCreate"
        tokenCreateData).hasIncompleteExtendedPayload = false ∧
      ¬TypedPayloadsKept (oneEvent "tokencreate" "" "TokenCreate"
        tokenCreateData) events) ∧
    (∃ events, transactionEventsToProjections byteSdk 7 orderTransaction 0
        (oneEvent "tokenseriescreate" "" "TokenSeriesCreate"
          tokenSeriesData) = .ok events ∧
      (oneEvent "tokenseriescreate" "" "TokenSeriesCreate"
        tokenSeriesData).hasIncompleteExtendedPayload = false ∧
      ¬TypedPayloadsKept (oneEvent "tokenseriescreate" "" "TokenSeriesCreate"
        tokenSeriesData) events) := by
  refine ⟨⟨_, projected_ok (by decide +kernel), by decide +kernel, ?_⟩,
    ⟨_, projected_ok (by decide +kernel), by decide +kernel, ?_⟩,
    ⟨_, projected_ok (by decide +kernel), by decide +kernel, ?_⟩⟩
  · intro h
    have hlost : (projected (oneEvent "" "SpecialResolution"
        "SpecialResolution" (resolutionData 0))).any (fun event =>
          event.isGovernanceResolution &&
            !event.carries "special_resolution_event") = true := by
      decide +kernel
    obtain ⟨event, hevent, hboth⟩ := List.any_eq_true.mp hlost
    rw [Bool.and_eq_true, Bool.not_eq_true'] at hboth
    have hcarries := h.resolution
      ⟨_, List.mem_singleton_self _, by decide +kernel, by decide +kernel, rfl⟩
      event hevent hboth.1
    rw [hboth.2] at hcarries
    cases hcarries
  · intro h
    have hcount := h.create
      ⟨_, List.mem_singleton_self _, by decide +kernel⟩ ⟨_, rfl, rfl⟩
    exact absurd hcount (by decide +kernel)
  · intro h
    have hnone : (projected (oneEvent "tokenseriescreate" ""
        "TokenSeriesCreate" tokenSeriesData)).any
          (fun event => event.carries "token_series_event") = false := by
      decide +kernel
    obtain ⟨event, hevent, hcarries⟩ := h.series ⟨_, rfl, rfl⟩
    exact absurd hcarries (List.any_eq_false.mp hnone event hevent)

end Explorer.Ref
