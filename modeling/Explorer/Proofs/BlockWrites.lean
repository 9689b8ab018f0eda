import Explorer.Proofs.DimensionCalls
import Explorer.Ref.BlockWrites

/-!
# Two ways to write a block

Whichever way the events of a block are written, the ids of their dimensions
are asked for in the same order, so each event has the same cells. The arrays
hold the cells column by column, and `unnest` puts them together again. From
there on both ways write these cells under their keys, one in the order of the
input and one in the order of the keys.
-/

namespace Explorer.Ref

open Explorer.Lib

variable {pg : Postgres}

/-! ## The cells of an event -/

/-- The columns an event dictates. -/
def EventProjection.cells (event : EventProjection) (refs : EventRefs)
    (payloadFormat : Option Nat) : EventCells :=
  { timestampUnixSeconds := event.timestampUnixSeconds
    eventIndex := event.eventIndex
    tokenId := event.tokenId
    burned := event.burned
    addressId := refs.addressId
    chainId := event.chainId
    contractId := refs.contractId
    transactionId := event.transactionId
    eventKindId := refs.eventKindId
    targetAddressId := refs.targetAddressId
    payloadFormat := payloadFormat
    payloadJson := event.payloadJson
    rawData := event.rawData
    eventName := event.eventName
    nftId := none }

/-- The order of the statement, on cells. -/
def EventCells.order (c : EventCells) : Int ×ₗ Int :=
  toLex (c.transactionId, c.eventIndex)

/-- The rows of the transactions `ids` are the cells, each once, and all other
rows are what they were. -/
structure EventsLeft (ids : List Int) (cells : List EventCells)
    (t t' : SerialTable EventCells) : Prop where
  ok : t'.Ok EventCells.key
  listed : ∀ c, t'.Holds c ∧ c.transactionId ∈ ids ↔ c ∈ cells
  others : t'.rows.filter (fun r => !decide (r.cells.transactionId ∈ ids)) =
    t.rows.filter fun r => !decide (r.cells.transactionId ∈ ids)

section

variable {t t' t'' : SerialTable EventCells} {ids : List Int}
  {cells cells' : List EventCells}

/-- The rows that no transaction of the list owns. -/
theorem EventsLeft.mem_other (h : EventsLeft ids cells t t')
    {r : Stored EventCells} (hr : r.cells.transactionId ∉ ids) :
    r ∈ t'.rows ↔ r ∈ t.rows := by
  have hmem : r ∈ t'.rows.filter
      (fun r => !decide (r.cells.transactionId ∈ ids)) ↔
      r ∈ t.rows.filter fun r => !decide (r.cells.transactionId ∈ ids) := by
    rw [h.others]
  simpa [List.mem_filter, hr] using hmem

theorem EventsLeft.holds_other (h : EventsLeft ids cells t t')
    {c : EventCells} (hc : c.transactionId ∉ ids) :
    t'.Holds c ↔ t.Holds c := by
  simp only [SerialTable.Holds, List.mem_map]
  constructor
  · rintro ⟨r, hr, rfl⟩
    exact ⟨r, (h.mem_other hc).mp hr, rfl⟩
  · rintro ⟨r, hr, rfl⟩
    exact ⟨r, (h.mem_other hc).mpr hr, rfl⟩

/-- Transactions one after the other. -/
theorem EventsLeft.trans {ids' : List Int} (h : EventsLeft ids cells t t')
    (h' : EventsLeft ids' cells' t' t'') (hdisjoint : ∀ i ∈ ids, i ∉ ids') :
    EventsLeft (ids ++ ids') (cells ++ cells') t t'' := by
  refine ⟨h'.ok, fun c => ?_, ?_⟩
  · rw [List.mem_append, List.mem_append, ← h.listed c, ← h'.listed c]
    constructor
    · rintro ⟨hholds, hid | hid⟩
      · exact .inl ⟨(h'.holds_other (hdisjoint _ hid)).mp hholds, hid⟩
      · exact .inr ⟨hholds, hid⟩
    · rintro (⟨hholds, hid⟩ | ⟨hholds, hid⟩)
      · exact ⟨(h'.holds_other (hdisjoint _ hid)).mpr hholds, .inl hid⟩
      · exact ⟨hholds, .inr hid⟩
  · have hboth : ∀ r : Stored EventCells,
        (!decide (r.cells.transactionId ∈ ids ++ ids')) =
          ((!decide (r.cells.transactionId ∈ ids)) &&
            !decide (r.cells.transactionId ∈ ids')) := by
      intro r
      rw [← Bool.not_or, ← Bool.decide_or]
      simp only [List.mem_append]
    simp only [hboth, ← List.filter_filter]
    rw [h'.others, List.filter_comm, h.others, List.filter_comm]

/-- Two ways that leave the same leave the same rows up to their ids. -/
theorem EventsLeft.perm (h : EventsLeft ids cells t t')
    (h' : EventsLeft ids cells t t'') :
    (t'.rows.map Stored.cells).Perm (t''.rows.map Stored.cells) := by
  rw [List.perm_ext_iff_of_nodup h.ok.nodup_cells h'.ok.nodup_cells]
  intro c
  by_cases hc : c.transactionId ∈ ids
  · have hleft := h.listed c
    have hright := h'.listed c
    rw [and_iff_left hc] at hleft hright
    exact hleft.trans hright.symm
  · exact (h.holds_other hc).trans (h'.holds_other hc).symm

end

/-! ## The branches -/

/-- What a batch of events has to be. -/
structure BatchOk (ids : List Int) (events : List (Int × EventProjection)) :
    Prop where
  own : ∀ x ∈ events, x.2.transactionId = x.1
  listed : ∀ x ∈ events, x.1 ∈ ids
  keys : (events.map fun x => (x.1, x.2.eventIndex)).Nodup

section

variable {ids : List Int} {events : List (Int × EventProjection)}
  {db : BlockDb pg} {out : List EventCells × BlockTx Unit}

end

/-- What the caller of `insert_block_events` promises. -/
structure BatchesOk (batches : List (Int × List EventProjection)) : Prop where
  transactions : (batches.map Prod.fst).Nodup
  indexes : ∀ b ∈ batches, (b.2.map EventProjection.eventIndex).Nodup
  own : ∀ b ∈ batches, ∀ event ∈ b.2, event.transactionId = b.1

section

variable {batches : List (Int × List EventProjection)} {db : BlockDb pg}

theorem mem_batchEvents {x : Int × EventProjection} :
    x ∈ batchEvents batches ↔ ∃ b ∈ batches, x.2 ∈ b.2 ∧ x.1 = b.1 := by
  rw [batchEvents, List.mem_flatMap]
  constructor
  · rintro ⟨b, hb, hx⟩
    obtain ⟨event, hevent, rfl⟩ := List.mem_map.mp hx
    exact ⟨b, hb, hevent, rfl⟩
  · rintro ⟨b, hb, hevent, hid⟩
    refine ⟨b, hb, List.mem_map.mpr ⟨x.2, hevent, ?_⟩⟩
    rw [← hid]

theorem batchEvents_cons (b : Int × List EventProjection) :
    batchEvents (b :: batches) =
      b.2.map (fun event => (b.1, event)) ++ batchEvents batches := by
  rw [batchEvents, List.flatMap_cons]
  rfl

theorem BatchesOk.tail {b : Int × List EventProjection}
    (h : BatchesOk (b :: batches)) : BatchesOk batches where
  transactions := (List.nodup_cons.mp h.transactions).2
  indexes := fun b' hb' => h.indexes b' (List.mem_cons_of_mem _ hb')
  own := fun b' hb' => h.own b' (List.mem_cons_of_mem _ hb')

/-- The events of one transaction. -/
theorem BatchesOk.head {b : Int × List EventProjection}
    (h : BatchesOk (b :: batches)) :
    BatchOk [b.1] (b.2.map fun event => (b.1, event)) where
  own := by
    intro x hx
    obtain ⟨event, hevent, rfl⟩ := List.mem_map.mp hx
    exact h.own b List.mem_cons_self event hevent
  listed := by
    intro x hx
    obtain ⟨event, -, rfl⟩ := List.mem_map.mp hx
    exact List.mem_singleton_self _
  keys := by
    rw [List.map_map]
    have hmap := (h.indexes b List.mem_cons_self).map
      (f := fun i => (b.1, i)) (fun i j hij => (Prod.mk.inj hij).2)
    rwa [List.map_map] at hmap

theorem BatchesOk.all (h : BatchesOk batches) :
    BatchOk (batches.map Prod.fst) (batchEvents batches) where
  own := by
    intro x hx
    obtain ⟨b, hb, hevent, hid⟩ := mem_batchEvents.mp hx
    rw [h.own b hb x.2 hevent, hid]
  listed := by
    intro x hx
    obtain ⟨b, hb, -, hid⟩ := mem_batchEvents.mp hx
    exact hid ▸ List.mem_map_of_mem hb
  keys := by
    induction batches with
    | nil => exact List.nodup_nil
    | cons b batches ih =>
        rw [batchEvents_cons, List.map_append, List.nodup_append]
        refine ⟨h.head.keys, ih h.tail, fun k hk k' hk' => ?_⟩
        rintro rfl
        obtain ⟨x, hx, rfl⟩ := List.mem_map.mp hk
        obtain ⟨event, -, rfl⟩ := List.mem_map.mp hx
        obtain ⟨x', hx', hkey⟩ := List.mem_map.mp hk'
        obtain ⟨b', hb', -, hid⟩ := mem_batchEvents.mp hx'
        have hsame : b'.1 = b.1 := hid.symm.trans (congrArg Prod.fst hkey)
        refine (List.nodup_cons.mp h.transactions).1 ?_
        exact hsame ▸ List.mem_map_of_mem hb'

end

/-! ## The ids of an event -/

/-- The ids stand for what the event names, and the other columns are its
own. -/
structure EventDictates (dims : BlockTx Unit) (event : EventProjection)
    (c : EventCells) : Prop where
  columns : c = event.cells
    ⟨c.eventKindId, c.addressId, c.targetAddressId, c.contractId⟩
    c.payloadFormat
  format : payloadFormatCode event.payloadFormat = .ok c.payloadFormat
  kind : (Key.eventKind event.eventKind, c.eventKindId) ∈ dims.view.names
  address : (Key.address event.chainId (event.address.getD "NULL"),
    c.addressId) ∈ dims.view.names
  target : RefKnown dims.view ((event.targetAddress.bind usableAddress).map
    fun address => Key.address event.chainId address) c.targetAddressId
  contract : (Key.contract event.chainId (event.contract.getD "unknown"),
    c.contractId) ∈ dims.view.names

/-- The dimensions stay in order and lose no row. -/
structure DimsGrow (dims dims' : BlockTx Unit) : Prop where
  ok : TxOk ∅ dims'
  names : ∀ x ∈ dims.view.names, x ∈ dims'.view.names

theorem DimsGrow.trans {dims dims' dims'' : BlockTx Unit}
    (h : DimsGrow dims dims') (h' : DimsGrow dims' dims'') :
    DimsGrow dims dims'' :=
  ⟨h'.ok, fun x hx => h'.names x (h.names x hx)⟩

theorem EventDictates.mono {dims dims' : BlockTx Unit}
    {event : EventProjection} {c : EventCells} (h : EventDictates dims event c)
    (hgrow : DimsGrow dims dims') : EventDictates dims' event c :=
  ⟨h.columns, h.format, hgrow.names _ h.kind, hgrow.names _ h.address,
    h.target.mono hgrow.names, hgrow.names _ h.contract⟩

end Explorer.Ref
