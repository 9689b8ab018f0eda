import Explorer.Proofs.TypedPayloads

/-!
# The numbers of the projected events

An event of a transaction is stored under the place it has there, plus one. The
events whose kind is a number leave a gap, and the events that stand in for
missing legacy events come behind the last place. So the numbers rise, none is
used twice, and a legacy event keeps its number whatever is around it.
-/

namespace Explorer.Ref

open Explorer.Lib

/-- The projection of an event at a place of the transaction, with whatever is
left of the extended payloads. -/
def ProjectsAt (sdk : LegacySdk) (record : TransactionRecord)
    (height txIndex : Nat) (entry : SdkEventResult × Nat)
    (projection : EventProjection) : Prop :=
  ∃ context context', eventToProjection sdk ⟨height, txIndex, entry.2⟩ record
    entry.1 context = .ok (projection, context')

/-- The projection has the number of its event: the place, plus one. -/
def NumberedAt (sdk : LegacySdk) (record : TransactionRecord)
    (height txIndex : Nat) (entry : SdkEventResult × Nat)
    (projection : EventProjection) : Prop :=
  ProjectsAt sdk record height txIndex entry projection ∧
    projection.eventIndex = entry.2 + 1

/-- The legacy events that are stored, with their places. -/
def storedEvents (transaction : SdkTransactionResult) :
    List (SdkEventResult × Nat) :=
  transaction.events.zipIdx.filter fun entry =>
    !isNumericLegacyEventKind (legacyEventKindName entry.1)

/-- The typed payload of a `TokenCreate` is in the event, under either key. -/
def EventProjection.hasTokenCreate (event : EventProjection) : Bool :=
  event.carries "token_create" || event.carries "token_create_event"

/-- The projections of a transaction: those of the legacy events, and those
that stand in for a resolution and for a series. -/
structure EventNumbering (sdk : LegacySdk) (record : TransactionRecord)
    (height txIndex : Nat) (transaction : SdkTransactionResult)
    (legacy : List EventProjection)
    (resolution series : Option EventProjection) : Prop where
  inOrder : List.Forall₂ (NumberedAt sdk record height txIndex)
    (storedEvents transaction) legacy
  ofResolution : ∀ projection ∈ resolution,
    legacyIn transaction.events "SpecialResolution" = false ∧
      (transaction.events.length : Int) < projection.eventIndex ∧
      ∃ data place, (TxExtendedEventContext.fromTransaction
          transaction).specialResolution = some data ∧
        ProjectsAt sdk record height txIndex
          (syntheticSpecialResolution sdk transaction data, place) projection
  ofSeries : ∀ projection ∈ series,
    legacyIn transaction.events "TokenSeriesCreate" = false ∧
      (transaction.events.length : Int) < projection.eventIndex ∧
      ∃ data place, (TxExtendedEventContext.fromTransaction
          transaction).tokenSeriesCreate = some data ∧
        ProjectsAt sdk record height txIndex
          (syntheticTokenSeriesCreate transaction data, place) projection
  increasing : (legacy ++ resolution.toList ++ series.toList).Pairwise
    fun a b => a.eventIndex < b.eventIndex
  fits : ∀ projection ∈ legacy ++ resolution.toList ++ series.toList,
    projection.eventIndex < 2 ^ 31
  create : (legacy ++ resolution.toList ++ series.toList).countP
    EventProjection.hasTokenCreate ≤ 1

/-! ## The two keys of a `TokenCreate` -/

/-- Both keys are there, or neither. -/
def SameCreate (json : Json) : Prop :=
  json.get "token_create" = json.get "token_create_event"

theorem sameCreate_setKey {k : String} {value json : Json}
    (hk : k ≠ "token_create") (hk' : k ≠ "token_create_event")
    (h : SameCreate json) : SameCreate (setKey k value json) := by
  rw [SameCreate, get_setKey_of_ne hk.symm, get_setKey_of_ne hk'.symm, h]

theorem sameCreate_textObject {fields : List (String × String)}
    (h : "token_create" ∉ fields.map Prod.fst)
    (h' : "token_create_event" ∉ fields.map Prod.fst) :
    SameCreate (textObject fields) := by
  rw [SameCreate, get_textObject_of_notMem h, get_textObject_of_notMem h']

theorem sameCreate_base (eventKind payloadContract : String) :
    SameCreate (textObject
      [("event_kind", eventKind), ("contract", payloadContract)]) :=
  sameCreate_textObject
    (show "token_create" ∉ ["event_kind", "contract"] by decide)
    (show "token_create_event" ∉ ["event_kind", "contract"] by decide)

theorem sameCreate_of_ok {built parts : LiveParts}
    (h : (.ok built : Except IngestionError LiveParts) = .ok parts)
    (hpayload : SameCreate built.payload) : SameCreate parts.payload := by
  cases h
  exact hpayload

theorem sameCreate_of_bind {α : Type} {parts : LiveParts}
    {decoded : Except IngestionError α} {build : α → LiveParts}
    (h : (decoded >>= fun value => pure (build value)) = .ok parts)
    (hpayload : ∀ value, SameCreate (build value).payload) :
    SameCreate parts.payload := by
  cases decoded with
  | error e => cases h
  | ok value =>
      cases h
      exact hpayload value

theorem liveParts_sameCreate {sdk : LegacySdk} {place : EventPlace}
    {event : SdkEventResult} {context : TxExtendedEventContext}
    {eventKind payloadContract : String} {rawData : Option String}
    {parts : LiveParts}
    (h : liveParts sdk place event context eventKind payloadContract rawData =
      .ok parts) : SameCreate parts.payload := by
  have hbase := sameCreate_base eventKind payloadContract
  have hset : ∀ {k : String} {value json : Json}, k ≠ "token_create" →
      k ≠ "token_create_event" → SameCreate json →
      SameCreate (setKey k value json) := sameCreate_setKey
  revert h
  fun_cases liveParts with
  | case2 payload plain hk rawData =>
      intro h
      refine sameCreate_of_bind h fun value => ?_
      have hevent : SameCreate (setKey "token_event" (textObject [
          ("token", value.token), ("value", value.valueRaw),
          ("value_raw", value.valueRaw), ("chain_name", value.chainName)])
          (setKey "token_id" (.str value.valueRaw) payload)) :=
        hset (by decide) (by decide) (hset (by decide) (by decide) hbase)
      dsimp only
      split
      · exact hset (by decide) (by decide) hevent
      · exact hevent
  | case4 payload plain _ hk rawData =>
      intro h
      exact sameCreate_of_bind h fun value =>
        hset (by decide) (by decide) (hset (by decide) (by decide) hbase)
  | case6 payload plain _ _ hk rawData =>
      intro h
      exact sameCreate_of_bind h fun value =>
        hset (by decide) (by decide) (hset (by decide) (by decide) hbase)
  | case8 payload plain _ _ _ hk rawData =>
      intro h
      exact sameCreate_of_bind h fun value => hset (by decide) (by decide) hbase
  | case10 payload plain _ _ _ _ hk rawData =>
      intro h
      exact sameCreate_of_ok h (hset (by decide) (by decide) hbase)
  | case12 payload plain _ _ _ _ _ hk rawData =>
      intro h
      exact sameCreate_of_ok h (hset (by decide) (by decide) hbase)
  | case14 rawData payload plain _ _ _ _ _ _ hk data hdata =>
      intro h
      exact sameCreate_of_ok h (hset (by decide) (by decide) hbase)
  | case16 rawData payload plain _ _ _ _ _ _ _ hk data context' htake
      tokenCreate =>
      intro h
      refine sameCreate_of_ok h ?_
      rw [SameCreate, get_setKey_of_ne (by decide)]
      exact (get_setKey_self _ _ _).trans (get_setKey_self _ _ _).symm
  | case18 rawData payload plain _ _ _ _ _ _ _ _ hk data hdata seriesId
      withSeries =>
      intro h
      have hseries : SameCreate withSeries := by
        simp only [withSeries, seriesId]
        cases tokenSeriesIdentity data with
        | none => exact hbase
        | some id => exact hset (by decide) (by decide) hbase
      clear_value withSeries
      exact sameCreate_of_ok h (hset (by decide) (by decide) hseries)
  | case20 payload plain _ _ _ _ _ _ _ _ _ hk rawData =>
      intro h
      exact sameCreate_of_bind h fun value => hset (by decide) (by decide) hbase
  | case22 rawData payload plain _ _ _ _ _ _ hresolution hcreate hseries _ _ =>
      intro h
      exact sameCreate_of_ok h (sameCreate_textObject
        (show "token_create" ∉ ["contract", "kind", "name", "data"] by decide)
        (show "token_create_event" ∉ ["contract", "kind", "name", "data"]
          by decide))
  | _ =>
      intro h
      exact sameCreate_of_ok h hbase

/-- What a projection has of its place. -/
theorem eventToProjection_place {sdk : LegacySdk} {place : EventPlace}
    {record : TransactionRecord} {event : SdkEventResult}
    {context context' : TxExtendedEventContext} {projection : EventProjection}
    (h : eventToProjection sdk place record event context =
      .ok (projection, context')) :
    projection.eventIndex = place.eventIndex + 1 ∧
      projection.hasTokenCreate = projection.carries "token_create_event" := by
  rw [eventToProjection] at h
  obtain ⟨parts, hparts, h⟩ := bind_eq_ok h
  obtain ⟨index, hindex, h⟩ := bind_eq_ok h
  have hsame := liveParts_sameCreate hparts
  rw [eventIndexToI32] at hindex
  split at hindex
  · cases hindex
    cases h
    refine ⟨rfl, ?_⟩
    rw [EventProjection.hasTokenCreate, EventProjection.carries,
      EventProjection.carries, Option.bind_some, Option.bind_some, hsame,
      Bool.or_self]
  · cases hindex

/-! ## The loop -/

theorem push_numbered {loop loop' : EventLoop} {sdk : LegacySdk}
    {record : TransactionRecord} {height txIndex index : Nat}
    {event : SdkEventResult}
    (h : loop.push sdk record ⟨height, txIndex, index⟩ event = .ok loop') :
    ∃ projection, loop'.events = loop.events ++ [projection] ∧
      NumberedAt sdk record height txIndex (event, index) projection := by
  rw [EventLoop.push] at h
  obtain ⟨⟨projection, context⟩, hone, h⟩ := bind_eq_ok h
  cases h
  have hplace := (eventToProjection_place hone).1
  exact ⟨projection, rfl, ⟨_, _, hone⟩, hplace⟩

/-- A turn of the loop leaves out a numeric kind and numbers any other. -/
theorem step_numbered {loop loop' : EventLoop} {sdk : LegacySdk}
    {record : TransactionRecord} {height txIndex : Nat}
    {entry : SdkEventResult × Nat}
    (h : loop.step sdk record height txIndex entry = .ok loop') :
    (isNumericLegacyEventKind (legacyEventKindName entry.1) = true ∧
        loop'.events = loop.events) ∨
      (isNumericLegacyEventKind (legacyEventKindName entry.1) = false ∧
        ∃ projection, loop'.events = loop.events ++ [projection] ∧
          NumberedAt sdk record height txIndex entry projection) := by
  obtain ⟨event, index⟩ := entry
  rw [EventLoop.step] at h
  split at h
  · rename_i hnumeric
    cases h
    exact .inl ⟨hnumeric, rfl⟩
  · rename_i hnumeric
    obtain ⟨projection, hevents, hone⟩ := push_numbered h
    exact .inr ⟨Bool.eq_false_iff.mpr hnumeric, projection, hevents, hone⟩

/-- The loop projects the events that are no numbers, in their order. -/
theorem foldlM_numbered {sdk : LegacySdk} {record : TransactionRecord}
    {height txIndex : Nat} {entries : List (SdkEventResult × Nat)} :
    ∀ {loop loop' : EventLoop},
      entries.foldlM (EventLoop.step sdk record height txIndex) loop =
        .ok loop' →
      ∃ projections, loop'.events = loop.events ++ projections ∧
        List.Forall₂ (NumberedAt sdk record height txIndex)
          (entries.filter fun entry =>
            !isNumericLegacyEventKind (legacyEventKindName entry.1))
          projections := by
  induction entries with
  | nil =>
      intro loop loop' h
      cases h
      exact ⟨[], (List.append_nil _).symm, .nil⟩
  | cons entry entries ih =>
      intro loop loop' h
      rw [List.foldlM_cons] at h
      obtain ⟨next, hstep, h⟩ := bind_eq_ok h
      obtain ⟨projections, hevents, hforall⟩ := ih h
      rcases step_numbered hstep with ⟨hnumeric, hsame⟩ |
        ⟨hnumeric, projection, hpush, hone⟩
      · refine ⟨projections, by rw [hevents, hsame], ?_⟩
        rw [List.filter_cons_of_neg (by simp [hnumeric])]
        exact hforall
      · refine ⟨projection :: projections, ?_, ?_⟩
        · rw [hevents, hpush, List.append_assoc, List.singleton_append]
        · rw [List.filter_cons_of_pos (by simp [hnumeric])]
          exact .cons hone hforall

/-! ## The events without a legacy event -/

theorem addSpecialResolution_numbered {loop : EventLoop} {sdk : LegacySdk}
    {record : TransactionRecord} {height txIndex next : Nat}
    {transaction : SdkTransactionResult} {r : EventLoop × Nat}
    (h : loop.addSpecialResolution sdk record height txIndex next transaction =
      .ok r) :
    ∃ resolution : Option EventProjection,
      r.1.events = loop.events ++ resolution.toList ∧
      r.2 = next + resolution.toList.length ∧
      ∀ projection ∈ resolution, loop.hasLegacySpecialResolution = false ∧
        ∃ data, loop.context.specialResolution = some data ∧
          NumberedAt sdk record height txIndex
            (syntheticSpecialResolution sdk transaction data, next)
            projection := by
  rw [EventLoop.addSpecialResolution] at h
  split at h
  · rename_i data hflag hdata
    obtain ⟨loop', hpush, h⟩ := bind_eq_ok h
    cases h
    obtain ⟨projection, hevents, hone⟩ := push_numbered hpush
    refine ⟨some projection, hevents, rfl, fun p hp => ?_⟩
    cases hp
    exact ⟨hflag, data, hdata, hone⟩
  · cases h
    refine ⟨none, (List.append_nil _).symm, rfl, fun p hp => ?_⟩
    cases hp

theorem addTokenSeriesCreate_numbered {loop loop' : EventLoop}
    {sdk : LegacySdk} {record : TransactionRecord} {height txIndex next : Nat}
    {transaction : SdkTransactionResult}
    (h : loop.addTokenSeriesCreate sdk record height txIndex next transaction =
      .ok loop') :
    ∃ series : Option EventProjection,
      loop'.events = loop.events ++ series.toList ∧
      ∀ projection ∈ series, loop.hasLegacyTokenSeriesCreate = false ∧
        ∃ data, loop.context.tokenSeriesCreate = some data ∧
          NumberedAt sdk record height txIndex
            (syntheticTokenSeriesCreate transaction data, next)
            projection := by
  rw [EventLoop.addTokenSeriesCreate] at h
  split at h
  · rename_i data hflag hdata
    obtain ⟨projection, hevents, hone⟩ := push_numbered h
    refine ⟨some projection, hevents, fun p hp => ?_⟩
    cases hp
    exact ⟨hflag, data, hdata, hone⟩
  · cases h
    refine ⟨none, (List.append_nil _).symm, fun p hp => ?_⟩
    cases hp

/-! ## The whole transaction -/

theorem numbers_of_numberedAt {sdk : LegacySdk} {record : TransactionRecord}
    {height txIndex : Nat} {entries : List (SdkEventResult × Nat)}
    {projections : List EventProjection}
    (h : List.Forall₂ (NumberedAt sdk record height txIndex) entries
      projections) :
    projections.map EventProjection.eventIndex =
      entries.map fun entry => (entry.2 : Int) + 1 := by
  induction h with
  | nil => rfl
  | cons hone _ ih => rw [List.map_cons, List.map_cons, hone.2, ih]

theorem storedEvents_increasing (transaction : SdkTransactionResult) :
    (storedEvents transaction).Pairwise fun a b => a.2 < b.2 := by
  refine List.Pairwise.filter _ ?_
  rw [← List.pairwise_map (f := Prod.snd) (R := fun a b : Nat => a < b),
    List.zipIdx_map_snd]
  exact List.pairwise_lt_range'

theorem storedEvents_place {transaction : SdkTransactionResult}
    {entry : SdkEventResult × Nat} (h : entry ∈ storedEvents transaction) :
    entry.2 < transaction.events.length :=
  List.snd_lt_of_mem_zipIdx (List.mem_of_mem_filter h)

/-- The numbers of the stored legacy events rise up to the number of events. -/
theorem legacy_numbers {sdk : LegacySdk} {record : TransactionRecord}
    {height txIndex : Nat} {transaction : SdkTransactionResult}
    {legacy : List EventProjection}
    (h : List.Forall₂ (NumberedAt sdk record height txIndex)
      (storedEvents transaction) legacy) :
    (legacy.Pairwise fun a b => a.eventIndex < b.eventIndex) ∧
      ∀ projection ∈ legacy,
        projection.eventIndex ≤ transaction.events.length := by
  have hnumbers := numbers_of_numberedAt h
  constructor
  · have hmap : ((storedEvents transaction).map fun entry =>
        (entry.2 : Int) + 1).Pairwise (· < ·) := by
      rw [List.pairwise_map]
      refine (storedEvents_increasing transaction).imp fun hlt => ?_
      omega
    rw [← hnumbers, List.pairwise_map] at hmap
    exact hmap
  · intro projection hmem
    have hindex := List.mem_map_of_mem
      (f := EventProjection.eventIndex) hmem
    rw [hnumbers] at hindex
    obtain ⟨entry, hentry, heq⟩ := List.mem_map.mp hindex
    have hplace := storedEvents_place hentry
    omega

/-- The payload of a creation goes to one event. -/
theorem countP_hasTokenCreate_le {sdk : LegacySdk} {blockHeight : Int}
    {record : TransactionRecord} {txIndex : Nat}
    {transaction : SdkTransactionResult} {events : List EventProjection}
    (h : transactionEventsToProjections sdk blockHeight record txIndex
      transaction = .ok events)
    (hsame : ∀ event ∈ events,
      event.hasTokenCreate = event.carries "token_create_event") :
    events.countP EventProjection.hasTokenCreate ≤ 1 := by
  obtain ⟨loop, added, rfl, hkeep, -⟩ := projections_keep h
  rw [List.countP_congr (q := fun event => event.carries "token_create_event")
    fun event hevent => by rw [hsame event hevent], hkeep.create]
  exact Bool.toNat_le _

theorem pairwise_toList {α : Type} (r : α → α → Prop) (o : Option α) :
    o.toList.Pairwise r := by
  cases o with
  | none => exact .nil
  | some a => exact List.pairwise_singleton r a

/-- Numbers that rise go on rising over one number behind them. -/
theorem pairwise_append_toList {events : List EventProjection}
    {added : Option EventProjection}
    (h : events.Pairwise fun a b => a.eventIndex < b.eventIndex)
    (hlast : ∀ event ∈ events, ∀ last ∈ added,
      event.eventIndex < last.eventIndex) :
    (events ++ added.toList).Pairwise fun a b =>
      a.eventIndex < b.eventIndex :=
  List.pairwise_append.mpr ⟨h, pairwise_toList _ _,
    fun event hevent last hmem =>
      hlast event hevent last (Option.mem_toList.mp hmem)⟩

/-- The parts of a projected transaction, each with its place. -/
structure ProjectedParts (sdk : LegacySdk) (record : TransactionRecord)
    (height txIndex : Nat) (transaction : SdkTransactionResult)
    (legacy : List EventProjection)
    (resolution series : Option EventProjection) : Prop where
  inOrder : List.Forall₂ (NumberedAt sdk record height txIndex)
    (storedEvents transaction) legacy
  ofResolution : ∀ projection ∈ resolution,
    legacyIn transaction.events "SpecialResolution" = false ∧
      ∃ data, (TxExtendedEventContext.fromTransaction
          transaction).specialResolution = some data ∧
        NumberedAt sdk record height txIndex
          (syntheticSpecialResolution sdk transaction data,
            transaction.events.length) projection
  ofSeries : ∀ projection ∈ series,
    legacyIn transaction.events "TokenSeriesCreate" = false ∧
      ∃ data, (TxExtendedEventContext.fromTransaction
          transaction).tokenSeriesCreate = some data ∧
        NumberedAt sdk record height txIndex
          (syntheticTokenSeriesCreate transaction data,
            transaction.events.length + resolution.toList.length) projection

theorem projections_parts {sdk : LegacySdk} {blockHeight : Int}
    {record : TransactionRecord} {txIndex : Nat}
    {transaction : SdkTransactionResult} {events : List EventProjection}
    (h : transactionEventsToProjections sdk blockHeight record txIndex
      transaction = .ok events) :
    ∃ legacy resolution series,
      events = legacy ++ Option.toList resolution ++ Option.toList series ∧
        ProjectedParts sdk record blockHeight.toNat txIndex transaction legacy
          resolution series := by
  have hstart := eventsKeep_nil (.fromTransaction transaction) rfl
  rw [transactionEventsToProjections] at h
  split at h
  · cases h
  · obtain ⟨loop, hrun, h⟩ := bind_eq_ok h
    obtain ⟨⟨loop₁, next⟩, hresolution, h⟩ := bind_eq_ok h
    obtain ⟨loop₂, hseries, h⟩ := bind_eq_ok h
    cases h
    obtain ⟨hkeep, hflag, hflag'⟩ := eventsKeep_foldlM hstart rfl rfl hrun
    rw [List.nil_append, List.zipIdx_map_fst] at hkeep hflag hflag'
    obtain ⟨added, hkeep₁, hflag₁, -, -⟩ :=
      eventsKeep_resolution hkeep hresolution
    obtain ⟨legacy, hlegacy, hnumbered⟩ := foldlM_numbered hrun
    obtain ⟨resolution, hevents, hnext, hone⟩ :=
      addSpecialResolution_numbered hresolution
    obtain ⟨series, hevents', hone'⟩ := addTokenSeriesCreate_numbered hseries
    dsimp only at hnext
    rw [hkeep.context, hflag] at hone
    rw [hkeep₁.context, hflag₁, hflag', hnext] at hone'
    refine ⟨legacy, resolution, series, ?_, hnumbered, hone, hone'⟩
    rw [hevents', hevents, hlegacy, List.nil_append]

section

variable {sdk : LegacySdk} {record : TransactionRecord} {height txIndex : Nat}
  {transaction : SdkTransactionResult} {legacy : List EventProjection}
  {resolution series : Option EventProjection}

theorem resolution_number
    (h : ProjectedParts sdk record height txIndex transaction legacy
      resolution series) {projection : EventProjection}
    (hmem : projection ∈ resolution) :
    projection.eventIndex = transaction.events.length + 1 := by
  obtain ⟨-, data, -, -, hindex⟩ := h.ofResolution projection hmem
  exact hindex

theorem series_number
    (h : ProjectedParts sdk record height txIndex transaction legacy
      resolution series) {projection : EventProjection}
    (hmem : projection ∈ series) :
    projection.eventIndex =
      transaction.events.length + resolution.toList.length + 1 := by
  obtain ⟨-, data, -, -, hindex⟩ := h.ofSeries projection hmem
  rw [hindex, Nat.cast_add]

/-- Up to the resolution a number is at most that of the events before the
series. -/
theorem number_le
    (h : ProjectedParts sdk record height txIndex transaction legacy
      resolution series) {projection : EventProjection}
    (hmem : projection ∈ legacy ++ resolution.toList) :
    projection.eventIndex ≤
      transaction.events.length + resolution.toList.length := by
  rcases List.mem_append.mp hmem with hmem | hmem
  · have := (legacy_numbers h.inOrder).2 projection hmem
    omega
  · rw [resolution_number h (Option.mem_toList.mp hmem)]
    have := List.length_pos_of_mem hmem
    omega

theorem parts_increasing
    (h : ProjectedParts sdk record height txIndex transaction legacy
      resolution series) :
    (legacy ++ resolution.toList ++ series.toList).Pairwise
      fun a b => a.eventIndex < b.eventIndex := by
  obtain ⟨hrise, hle⟩ := legacy_numbers h.inOrder
  refine pairwise_append_toList (pairwise_append_toList hrise ?_) ?_
  · intro event hevent last hlast
    have := hle event hevent
    have := resolution_number h hlast
    omega
  · intro event hevent last hlast
    have := number_le h hevent
    have := series_number h hlast
    omega

theorem parts_number_le
    (h : ProjectedParts sdk record height txIndex transaction legacy
      resolution series) :
    ∀ event ∈ legacy ++ resolution.toList ++ series.toList,
      event.eventIndex ≤ transaction.events.length + 2 := by
  have hlength : resolution.toList.length ≤ 1 := by
    cases resolution with
    | none => exact Nat.zero_le 1
    | some projection => exact Nat.le_refl 1
  intro event hevent
  rcases List.mem_append.mp hevent with hevent | hevent
  · have := number_le h hevent
    omega
  · have := series_number h (Option.mem_toList.mp hevent)
    omega

/-- Each of the projections is that of some event. -/
theorem parts_numberedAt
    (h : ProjectedParts sdk record height txIndex transaction legacy
      resolution series) :
    ∀ event ∈ legacy ++ resolution.toList ++ series.toList,
      ∃ entry, NumberedAt sdk record height txIndex entry event := by
  intro event hevent
  rcases List.mem_append.mp hevent with hevent | hevent
  · rcases List.mem_append.mp hevent with hevent | hevent
    · obtain ⟨i, hi, rfl⟩ := List.mem_iff_getElem.mp hevent
      exact ⟨_, List.forall₂_iff_get.mp h.inOrder |>.2 i
        (h.inOrder.length_eq ▸ hi) hi⟩
    · obtain ⟨-, data, -, hone⟩ :=
        h.ofResolution event (Option.mem_toList.mp hevent)
      exact ⟨_, hone⟩
  · obtain ⟨-, data, -, hone⟩ :=
      h.ofSeries event (Option.mem_toList.mp hevent)
    exact ⟨_, hone⟩

end

theorem projections_numbered (sdk : LegacySdk) (blockHeight : Int)
    (record : TransactionRecord) (txIndex : Nat)
    (transaction : SdkTransactionResult) (events : List EventProjection)
    (hlength : transaction.events.length < 2 ^ 31 - 2)
    (h : transactionEventsToProjections sdk blockHeight record txIndex
      transaction = .ok events) :
    ∃ legacy resolution series,
      events = legacy ++ Option.toList resolution ++ Option.toList series ∧
        EventNumbering sdk record blockHeight.toNat txIndex transaction legacy
          resolution series := by
  obtain ⟨legacy, resolution, series, rfl, hparts⟩ := projections_parts h
  refine ⟨legacy, resolution, series, rfl, hparts.inOrder, ?_, ?_,
    parts_increasing hparts, ?_, countP_hasTokenCreate_le h ?_⟩
  · intro projection hmem
    obtain ⟨hnone, data, hdata, hprojects, -⟩ :=
      hparts.ofResolution projection hmem
    have := resolution_number hparts hmem
    exact ⟨hnone, by omega, data, _, hdata, hprojects⟩
  · intro projection hmem
    obtain ⟨hnone, data, hdata, hprojects, -⟩ :=
      hparts.ofSeries projection hmem
    have := series_number hparts hmem
    exact ⟨hnone, by omega, data, _, hdata, hprojects⟩
  · intro event hevent
    have := parts_number_le hparts event hevent
    omega
  · intro event hevent
    obtain ⟨entry, ⟨context, context', hprojects⟩, -⟩ :=
      parts_numberedAt hparts event hevent
    exact (eventToProjection_place hprojects).2

/-- A number, a creation and another event, next to the typed payloads of a
resolution and of a series. -/
def mixedTransaction : SdkTransactionResult where
  hash := "AB"
  gasPayer := "P2K"
  events := [⟨"P2K", "token", "72", "", ""⟩,
    ⟨"P2K", "token", "TokenCreate", "", ""⟩,
    ⟨"P2K", "entry", "Custom", "", ""⟩]
  extendedEvents := [⟨"governance", "SpecialResolution", resolutionData 5,
      .null⟩, ⟨"token", "TokenCreate", tokenCreateData, .null⟩,
    ⟨"token", "TokenSeriesCreate", tokenSeriesData, .null⟩]
  rest := .null

theorem projections_numbered_mixed :
    (projected mixedTransaction).map EventProjection.eventIndex =
        [2, 3, 4, 5] ∧
      ∃ legacy resolution series,
        projected mixedTransaction =
            legacy ++ Option.toList resolution ++ Option.toList series ∧
          EventNumbering byteSdk orderTransaction 7 0 mixedTransaction legacy
            resolution series := by
  refine ⟨by decide +kernel, ?_⟩
  exact projections_numbered byteSdk 7 orderTransaction 0 mixedTransaction _
    (by decide) (projected_ok (by decide +kernel))

end Explorer.Ref
