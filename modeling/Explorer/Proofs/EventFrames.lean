import Explorer.Ref.EventTables

/-!
# What each side effect writes

A side effect writes the columns it is there for and leaves the rest of the
database. Events keep their transaction, their index and all that the upsert
gave them; only `burned` and `nft_id` move. The results about supply,
ownership and projecting again read off here which statements concern them.
-/

namespace Explorer.Ref

open Explorer.Lib

/-- A projection that no round of a loop changes. -/
theorem foldl_keeps {σ α β : Type} {f : σ → α → σ} {g : σ → β}
    (h : ∀ s a, g (f s a) = g s) (l : List α) (s : σ) :
    g (l.foldl f s) = g s := by
  induction l generalizing s with
  | nil => rfl
  | cons a l ih => rw [List.foldl_cons, ih, h]

/-- What the upsert gave an event. -/
def TokenEventRow.core (r : TokenEventRow) : Int × TokenEvent :=
  (r.transactionId, r.event)

namespace EventDb

variable (sql : SqlServer) (s : EventDb) (tx : Int)

/-- The tables that the statements on contracts and tokens leave alone. -/
def butTokens : List TokenEventRow × List NftRow × List SeriesRow ×
    SerialTable OwnershipCells × List (String × Int) :=
  (s.events, s.nfts, s.series, s.ownerships, s.addressTransactions)

theorem fillContracts_butTokens (hashes : List String) :
    (s.fillContracts hashes).butTokens = s.butTokens :=
  foldl_keeps (f := fillContract) (g := butTokens) (fun _ _ => rfl) hashes s

theorem fillContracts_tokens (hashes : List String) :
    (s.fillContracts hashes).tokens = s.tokens :=
  foldl_keeps (f := fillContract) (g := tokens) (fun _ _ => rfl) hashes s

theorem upsertTokens_butTokens :
    (s.upsertTokens sql tx).butTokens = s.butTokens := by
  rw [upsertTokens]
  refine (foldl_keeps (f := upsertToken) (g := butTokens)
    (fun _ _ => rfl) _ _).trans ?_
  exact s.fillContracts_butTokens _

/-! ## The stages of the side effects -/

variable (batch : EventBatch)

/-- Tokens, contracts and new series. -/
def withTokens : EventDb :=
  let s := s.upsertTokens sql batch.transactionId
  if batch.events.any fun e =>
      e.kind == .contractDeploy || e.kind == .contractUpgrade then
    s.applyContractStrings batch.transactionId
  else s

def withSeries : EventDb :=
  if batch.events.any fun e => e.kind == .tokenSeriesCreate then
    (s.withTokens sql batch).upsertSeries batch.transactionId
  else s.withTokens sql batch

/-- NFTs, their links and their owners. -/
def withNfts : EventDb :=
  if (batch.events.any fun e => e.tokenId.isSome && e.kind.isNftSideEffect) &&
      (s.withSeries sql batch).hasNftCandidates batch.transactionId then
    (s.withSeries sql batch).applyNftSideEffects batch.transactionId
  else s.withSeries sql batch

def withMints : EventDb :=
  if batch.events.any fun e => e.mintSeriesId.isSome then
    (s.withNfts sql batch).applyMintExtended sql batch.transactionId
  else s.withNfts sql batch

def withSupply : EventDb :=
  if batch.events.any fun e => e.tokenId.isSome &&
      (e.kind == .tokenMint || e.kind == .tokenBurn) then
    (s.withMints sql batch).applySeriesLifecycle batch.transactionId
  else s.withMints sql batch

theorem applyBlockEventSideEffects_eq :
    s.applyBlockEventSideEffects sql batch =
      if batch.events.any fun e => e.tokenId.isSome then
        (s.withSupply sql batch).applyBurnMarkers batch.transactionId
      else s.withSupply sql batch :=
  rfl

/-! ## Frames -/

theorem withTokens_butTokens : (s.withTokens sql batch).butTokens = s.butTokens := by
  rw [withTokens]
  split
  · exact (fillContracts_butTokens _ _).trans (s.upsertTokens_butTokens sql _)
  · exact s.upsertTokens_butTokens sql _

theorem withTokens_tokens :
    (s.withTokens sql batch).tokens =
      (s.upsertTokens sql batch.transactionId).tokens := by
  rw [withTokens]
  split
  · exact fillContracts_tokens _ _
  · rfl

/-- The tables that the statements on series leave alone. -/
def butSeries : List TokenEventRow × List ContractRow × List TokenRow ×
    List NftRow × SerialTable OwnershipCells × List (String × Int) :=
  (s.events, s.contracts, s.tokens, s.nfts, s.ownerships,
    s.addressTransactions)

theorem foldl_insertSeries_butSeries (ks : List SeriesKey) :
    (ks.foldl insertSeries s).butSeries = s.butSeries :=
  foldl_keeps (f := insertSeries) (g := butSeries) (fun _ _ => rfl) ks s

theorem withSeries_butSeries :
    (s.withSeries sql batch).butSeries = (s.withTokens sql batch).butSeries := by
  rw [withSeries]
  split
  · exact foldl_insertSeries_butSeries _ _
  · rfl

/-- What no side effect changes. -/
def fixed : List (Int × TokenEvent) × List (String × Int) :=
  (s.events.map TokenEventRow.core, s.addressTransactions)

theorem linkEvents_fixed : (s.linkEvents tx).fixed = s.fixed := by
  have hcore : (s.linkEvents tx).events.map TokenEventRow.core =
      s.events.map TokenEventRow.core := by
    rw [linkEvents, List.map_map]
    refine List.map_congr_left fun r _ => ?_
    rw [Function.comp_apply]
    split <;> rfl
  rw [fixed, hcore]
  rfl

theorem markBurned_fixed (k : TokenKey) : (s.markBurned k).fixed = s.fixed := by
  have hcore : (s.markBurned k).events.map TokenEventRow.core =
      s.events.map TokenEventRow.core := by
    rw [markBurned, List.map_map]
    refine List.map_congr_left fun r _ => ?_
    rw [Function.comp_apply]
    split <;> rfl
  rw [fixed, hcore]
  rfl

/-- The tables beside NFTs and series. -/
def butNfts : List TokenEventRow × List ContractRow × List TokenRow ×
    SerialTable OwnershipCells × List (String × Int) :=
  (s.events, s.contracts, s.tokens, s.ownerships, s.addressTransactions)

theorem applyMintExtended_butNfts :
    (s.applyMintExtended sql tx).butNfts = s.butNfts :=
  foldl_keeps (f := insertSeries) (g := butNfts) (fun _ _ => rfl) _ s

theorem applyLifecycleEvent_butNfts (e : LifecycleEvent) :
    (s.applyLifecycleEvent e).butNfts = s.butNfts := by
  rw [applyLifecycleEvent]
  split <;> split <;> rfl

theorem applySeriesLifecycle_butNfts :
    (s.applySeriesLifecycle tx).butNfts = s.butNfts :=
  foldl_keeps (f := applyLifecycleEvent) (g := butNfts)
    (fun s e => s.applyLifecycleEvent_butNfts e) _ s

theorem foldl_insertNft_butNfts (ks : List TokenKey) :
    (ks.foldl insertNft s).butNfts = s.butNfts :=
  foldl_keeps (f := insertNft) (g := butNfts) (fun _ _ => rfl) ks s

theorem insertNfts_butNfts : (s.insertNfts tx).butNfts = s.butNfts :=
  s.foldl_insertNft_butNfts _

theorem withMints_butNfts :
    (s.withMints sql batch).butNfts = (s.withNfts sql batch).butNfts := by
  rw [withMints]
  split
  · exact applyMintExtended_butNfts _ _ _
  · rfl

theorem withSupply_butNfts :
    (s.withSupply sql batch).butNfts = (s.withNfts sql batch).butNfts := by
  rw [withSupply]
  split
  · exact (applySeriesLifecycle_butNfts _ _).trans (s.withMints_butNfts sql _)
  · exact s.withMints_butNfts sql batch

/-- What the burn markers leave alone. -/
def butMarks : List ContractRow × List TokenRow × List SeriesRow ×
    SerialTable OwnershipCells × List (String × Int) :=
  (s.contracts, s.tokens, s.series, s.ownerships, s.addressTransactions)

theorem applyBurnMarkers_butMarks :
    (s.applyBurnMarkers tx).butMarks = s.butMarks :=
  foldl_keeps (f := markBurned) (g := butMarks) (fun _ _ => rfl) _ s

theorem applyBurnMarkers_fixed : (s.applyBurnMarkers tx).fixed = s.fixed :=
  foldl_keeps (f := markBurned) (g := fixed)
    (fun s k => s.markBurned_fixed k) _ s

theorem withSeries_fixed : (s.withSeries sql batch).fixed = s.fixed := by
  have htokens := s.withTokens_butTokens sql batch
  have hseries := s.withSeries_butSeries sql batch
  simp only [butTokens, butSeries, Prod.mk.injEq] at htokens hseries
  rw [fixed, hseries.1, htokens.1, hseries.2.2.2.2.2, htokens.2.2.2.2]
  rfl

theorem applyNftSideEffects_fixed :
    (s.applyNftSideEffects tx).fixed = s.fixed := by
  have hinsert := s.insertNfts_butNfts tx
  simp only [butNfts, Prod.mk.injEq] at hinsert
  refine ((s.insertNfts tx).linkEvents_fixed tx).trans ?_
  rw [fixed, hinsert.1, hinsert.2.2.2.2]
  rfl

theorem withNfts_fixed : (s.withNfts sql batch).fixed = s.fixed := by
  rw [withNfts]
  split
  · exact (applyNftSideEffects_fixed _ _).trans (s.withSeries_fixed sql batch)
  · exact s.withSeries_fixed sql batch

theorem withSupply_fixed : (s.withSupply sql batch).fixed = s.fixed := by
  have hsupply := s.withSupply_butNfts sql batch
  simp only [butNfts, Prod.mk.injEq] at hsupply
  refine Eq.trans ?_ (s.withNfts_fixed sql batch)
  rw [fixed, hsupply.1, hsupply.2.2.2.2]
  rfl

theorem applyBlockEventSideEffects_fixed :
    (s.applyBlockEventSideEffects sql batch).fixed = s.fixed := by
  rw [applyBlockEventSideEffects_eq]
  split
  · exact (applyBurnMarkers_fixed _ _).trans (s.withSupply_fixed sql batch)
  · exact s.withSupply_fixed sql batch

theorem applyBlockEventSideEffects_ownerships :
    (s.applyBlockEventSideEffects sql batch).ownerships =
      (s.withNfts sql batch).ownerships := by
  have hsupply := s.withSupply_butNfts sql batch
  simp only [butNfts, Prod.mk.injEq] at hsupply
  rw [applyBlockEventSideEffects_eq]
  split
  · have hmarks := (s.withSupply sql batch).applyBurnMarkers_butMarks
      batch.transactionId
    simp only [butMarks, Prod.mk.injEq] at hmarks
    rw [hmarks.2.2.2.1, hsupply.2.2.2.1]
  · exact hsupply.2.2.2.1

end EventDb

/-! ## The rows of a block -/

/-- What the caller of `project_block_events` promises of its batches. -/
structure EventBatchesOk (batches : List EventBatch) : Prop where
  transactions : (batches.map EventBatch.transactionId).Nodup
  indexes : ∀ b ∈ batches, (b.events.map TokenEvent.eventIndex).Nodup

theorem mem_batchRows {batches : List EventBatch} {r : TokenEventRow} :
    r ∈ EventDb.batchRows batches ↔
      ∃ b ∈ batches, ∃ e ∈ b.events, r = ⟨b.transactionId, e, e.burned, none⟩ := by
  rw [EventDb.batchRows, List.mem_flatMap]
  constructor
  · rintro ⟨b, hb, hr⟩
    obtain ⟨e, he, rfl⟩ := List.mem_map.mp hr
    exact ⟨b, hb, e, he, rfl⟩
  · rintro ⟨b, hb, e, he, rfl⟩
    exact ⟨b, hb, List.mem_map.mpr ⟨e, he, rfl⟩⟩

theorem EventBatchesOk.keys {batches : List EventBatch}
    (h : EventBatchesOk batches) :
    ((EventDb.batchRows batches).map TokenEventRow.key).Nodup := by
  have hpairs : (EventDb.batchRows batches).map TokenEventRow.key =
      batches.flatMap fun b => (b.events.map TokenEvent.eventIndex).map
        fun i => (b.transactionId, i) := by
    rw [EventDb.batchRows, List.map_flatMap]
    refine List.flatMap_congr fun b _ => ?_
    rw [List.map_map, List.map_map]
    rfl
  rw [hpairs, List.nodup_flatMap]
  refine ⟨fun b hb => ?_, ?_⟩
  · exact (h.indexes b hb).map fun i j hij => (Prod.mk.inj hij).2
  · refine (List.pairwise_map.mp h.transactions).imp ?_
    intro b b' hne k hk hk'
    obtain ⟨i, -, rfl⟩ := List.mem_map.mp hk
    obtain ⟨j, -, heq⟩ := List.mem_map.mp hk'
    exact hne (Prod.mk.inj heq).1.symm

namespace EventDb

variable (s : EventDb) {batches : List EventBatch}

theorem insertBlockEvents_events :
    (s.insertBlockEvents batches).events =
      (batchRows batches).foldl
        (fun t r => upsertRow (fun y => y.key == r.key) r t)
        (s.events.filter fun r =>
          !(decide (r.transactionId ∈ batches.map EventBatch.transactionId) &&
            !decide (r.key ∈ (batchRows batches).map TokenEventRow.key))) := by
  rw [insertBlockEvents]
  generalize batchRows batches = rows
  generalize hcleared : (s.events.filter fun r =>
    !(decide (r.transactionId ∈ batches.map EventBatch.transactionId) &&
      !decide (r.key ∈ rows.map TokenEventRow.key))) = cleared
  clear hcleared
  induction rows generalizing s cleared with
  | nil => rfl
  | cons r rows ih => exact ih (s.fillContract r.event.contract) _

theorem mem_insertBlockEvents (h : EventBatchesOk batches) {x : TokenEventRow} :
    x ∈ (s.insertBlockEvents batches).events ↔ x ∈ batchRows batches ∨
      (x ∈ s.events ∧
        x.transactionId ∉ batches.map EventBatch.transactionId) := by
  rw [insertBlockEvents_events, mem_foldl_upsertRow h.keys, List.mem_filter]
  constructor
  · rintro (hx | ⟨⟨hx, hkept⟩, hkey⟩)
    · exact .inl hx
    · refine .inr ⟨hx, fun hid => ?_⟩
      simp [hid, hkey] at hkept
  · rintro (hx | ⟨hx, hid⟩)
    · exact .inl hx
    · refine .inr ⟨⟨hx, by simp [hid]⟩, fun hkey => hid ?_⟩
      obtain ⟨r, hr, heq⟩ := List.mem_map.mp hkey
      obtain ⟨b, hb, e, -, rfl⟩ := mem_batchRows.mp hr
      have hsame : b.transactionId = x.transactionId := congrArg Prod.fst heq
      exact hsame ▸ List.mem_map_of_mem hb

/-- The rows of the transaction are its events. -/
def Stores (s : EventDb) (b : EventBatch) : Prop :=
  ∀ e, (b.transactionId, e) ∈ s.fixed.1 ↔ e ∈ b.events

theorem insertBlockEvents_stores (h : EventBatchesOk batches)
    {b : EventBatch} (hb : b ∈ batches) :
    (s.insertBlockEvents batches).Stores b := by
  intro e
  rw [fixed, List.mem_map]
  constructor
  · rintro ⟨r, hr, hcore⟩
    have htx : r.transactionId = b.transactionId := congrArg Prod.fst hcore
    rcases (s.mem_insertBlockEvents h).mp hr with hr | ⟨-, hid⟩
    · obtain ⟨b', hb', e', he', rfl⟩ := mem_batchRows.mp hr
      have hsame := List.inj_on_of_nodup_map h.transactions hb' hb htx
      subst hsame
      cases hcore
      exact he'
    · exact absurd (htx ▸ List.mem_map_of_mem hb) hid
  · intro he
    refine ⟨⟨b.transactionId, e, e.burned, none⟩, ?_, rfl⟩
    exact (s.mem_insertBlockEvents h).mpr
      (.inl (mem_batchRows.mpr ⟨b, hb, e, he, rfl⟩))

/-- The events of the transaction, whatever their marks and links. -/
theorem Stores.mem_eventsOf {s : EventDb} {b : EventBatch} (h : s.Stores b)
    {e : TokenEvent} :
    (∃ r ∈ s.eventsOf b.transactionId, r.event = e) ↔ e ∈ b.events := by
  rw [← h e, fixed, List.mem_map]
  constructor
  · rintro ⟨r, hr, rfl⟩
    obtain ⟨hr, htx⟩ := List.mem_filter.mp hr
    refine ⟨r, hr, ?_⟩
    rw [TokenEventRow.core, beq_iff_eq.mp htx]
  · rintro ⟨r, hr, hcore⟩
    have htx : r.transactionId = b.transactionId := congrArg Prod.fst hcore
    refine ⟨r, List.mem_filter.mpr ⟨hr, ?_⟩, congrArg Prod.snd hcore⟩
    rw [htx]
    exact beq_self_eq_true _

theorem insertBlockEvents_rest (batches : List EventBatch) :
    ((s.insertBlockEvents batches).tokens, (s.insertBlockEvents batches).nfts,
      (s.insertBlockEvents batches).series,
      (s.insertBlockEvents batches).ownerships,
      (s.insertBlockEvents batches).addressTransactions) =
    (s.tokens, s.nfts, s.series, s.ownerships, s.addressTransactions) :=
  foldl_keeps (f := upsertEvent) (g := fun s => (s.tokens, s.nfts, s.series,
    s.ownerships, s.addressTransactions)) (fun _ _ => rfl) _ _

end EventDb

end Explorer.Ref
