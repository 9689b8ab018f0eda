import Explorer.Proofs.EventStages

/-!
# What a projection leaves behind

After a block the rows agree with the events that are stored. An event that
is linked has its NFT, a mint that names a series has put its NFT into one,
the contracts and series that events name are there, an NFT with a stored
burn is marked wherever it is named, and its owner changed last no earlier
than its events say. `Projected` holds all of this, with the transactions
whose side effects are still to come, and the side effects of the next one
carry it on: it holds after every run, and after a block projected again.
-/

namespace Explorer.Ref

open Explorer.Lib

/-- What follows a change of owner is no earlier. -/
theorem OwnershipEnds.lastChange {k : TokenKey}
    {old new : Option (Stored OwnershipCells)} {last : Option TokenEvent}
    (h : OwnershipEnds k old new last) :
    (∀ o, old = some o → ∃ o', new = some o' ∧
      o.cells.lastChange ≤ o'.cells.lastChange) ∧
    ∀ e, last = some e → ∃ o', new = some o' ∧
      e.timestamp ≤ o'.cells.lastChange := by
  cases h with
  | unnamed => exact ⟨fun o ho => ⟨o, ho, le_rfl⟩, fun e he => by cases he⟩
  | later hold hlater =>
      refine ⟨fun o ho => ⟨o, ho, le_rfl⟩, fun e he => ?_⟩
      cases he
      exact ⟨_, hold, hlater.le⟩
  | owned hstored =>
      refine ⟨fun o ho => ⟨_, rfl, (hstored o ho).1⟩, fun e he => ?_⟩
      cases he
      exact ⟨_, rfl, le_rfl⟩

namespace EventDb

/-! ## One statement at a time -/

/-- No statement of the side effects breaks the property. -/
structure KeptByStatements (P : EventDb → Prop) : Prop where
  contract : ∀ s hash, P s → P (s.fillContract hash)
  token : ∀ s t, P s → P (s.upsertToken t)
  series : ∀ s k, P s → P (s.insertSeries k)
  nft : ∀ s k, P s → P (s.insertNft k)
  links : ∀ s tx, P s → P (s.linkEvents tx)
  owners : ∀ s tx, P s → P (s.applyOwnership tx)
  placed : ∀ (s : EventDb) (f : TokenKey → Option SeriesKey), P s →
    P { s with nfts := s.nfts.map fun n =>
      { n with series := (f n.key).or n.series } }
  round : ∀ s e, P s → P (s.applyLifecycleEvent e)
  mark : ∀ s k, P s → P (s.markBurned k)

variable {P : EventDb → Prop} {sql : SqlServer} {s : EventDb} {b : EventBatch}

theorem KeptByStatements.withSeries (h : KeptByStatements P) (hs : P s) :
    P (s.withSeries sql b) := by
  have hcontracts : ∀ (hashes : List String) {t : EventDb}, P t →
      P (t.fillContracts hashes) :=
    fun hashes _ ht => hashes.foldlRecOn fillContract ht
      fun t ht hash _ => h.contract t hash ht
  have htokens : P (s.upsertTokens sql b.transactionId) :=
    List.foldlRecOn _ upsertToken (hcontracts _ hs)
      fun t ht row _ => h.token t row ht
  have hstrings : P (s.withTokens sql b) := by
    unfold withTokens
    split
    · exact hcontracts _ htokens
    · exact htokens
  unfold EventDb.withSeries
  split
  · exact List.foldlRecOn _ insertSeries hstrings
      fun t ht k _ => h.series t k ht
  · exact hstrings

theorem KeptByStatements.withNfts (h : KeptByStatements P)
    (hs : P (s.withSeries sql b)) : P (s.withNfts sql b) := by
  unfold EventDb.withNfts
  split
  · exact h.owners _ _ (h.links _ _ (List.foldlRecOn _ insertNft hs
      fun t ht k _ => h.nft t k ht))
  · exact hs

theorem KeptByStatements.withMints (h : KeptByStatements P)
    (hs : P (s.withNfts sql b)) : P (s.withMints sql b) := by
  unfold EventDb.withMints
  split
  · rw [applyMintExtended_eq]
    exact h.placed _ _ (List.foldlRecOn _ insertSeries hs
      fun t ht k _ => h.series t k ht)
  · exact hs

theorem KeptByStatements.withMarks (h : KeptByStatements P)
    (hs : P (s.withMints sql b)) : P (s.applyBlockEventSideEffects sql b) := by
  have hsupply : P (s.withSupply sql b) := by
    unfold EventDb.withSupply
    split
    · exact List.foldlRecOn _ applyLifecycleEvent hs
        fun t ht e _ => h.round t e ht
    · exact hs
  rw [applyBlockEventSideEffects_eq]
  split
  · exact List.foldlRecOn _ markBurned hsupply
      fun t ht k _ => h.mark t k ht
  · exact hsupply

theorem KeptByStatements.sideEffects (h : KeptByStatements P) (hs : P s) :
    P (s.applyBlockEventSideEffects sql b) :=
  h.withMarks (h.withMints (h.withNfts (h.withSeries hs)))

/-! ## Rows that stay -/

/-- The NFTs and series of one state are in the other, and an NFT that is in a
series is in one there. -/
structure RowsStay (s t : EventDb) : Prop where
  nfts : ∀ n ∈ s.nfts, ∃ n' ∈ t.nfts, n'.key = n.key ∧
    (n.series.isSome = true → n'.series.isSome = true)
  series : ∀ k ∈ s.series.map SeriesRow.key, k ∈ t.series.map SeriesRow.key

theorem RowsStay.refl (s : EventDb) : s.RowsStay s :=
  ⟨fun n hn => ⟨n, hn, rfl, id⟩, fun _ => id⟩

theorem RowsStay.trans {t u : EventDb} (h : s.RowsStay t) (h' : t.RowsStay u) :
    s.RowsStay u := by
  refine ⟨fun n hn => ?_, fun k hk => h'.series k (h.series k hk)⟩
  obtain ⟨n', hn', hkey, hsome⟩ := h.nfts n hn
  obtain ⟨n'', hn'', hkey', hsome'⟩ := h'.nfts n' hn'
  exact ⟨n'', hn'', hkey'.trans hkey, fun hs => hsome' (hsome hs)⟩

/-- An update of NFTs that leaves none out of its series. -/
theorem RowsStay.mapNfts {f : NftRow → NftRow}
    (hf : ∀ n, (f n).key = n.key ∧
      (n.series.isSome = true → (f n).series.isSome = true)) :
    s.RowsStay { s with nfts := s.nfts.map f } :=
  ⟨fun n hn => ⟨f n, List.mem_map_of_mem hn, hf n⟩, fun _ => id⟩

theorem insertSeries_rowsStay (s : EventDb) (k : SeriesKey) :
    s.RowsStay (s.insertSeries k) := by
  refine ⟨fun n hn => ⟨n, hn, rfl, id⟩, fun k' hk' => ?_⟩
  unfold insertSeries
  dsimp only
  split
  · exact hk'
  · rw [List.map_append]
    exact List.mem_append_left _ hk'

theorem insertNft_rowsStay (s : EventDb) (k : TokenKey) :
    s.RowsStay (s.insertNft k) := by
  refine ⟨fun n hn => ⟨n, ?_, rfl, id⟩, fun _ => id⟩
  unfold insertNft
  dsimp only
  split
  · exact hn
  · exact List.mem_append_left _ hn

theorem applyLifecycleEvent_rowsStay (s : EventDb) (e : LifecycleEvent) :
    s.RowsStay (s.applyLifecycleEvent e) := by
  constructor
  · intro n hn
    rw [applyLifecycleEvent_nfts]
    refine ⟨_, List.mem_map_of_mem hn, ?_⟩
    split <;> exact ⟨rfl, id⟩
  · intro k hk
    unfold applyLifecycleEvent
    split <;> split
    · rw [changeSupply_keys]
      exact hk
    · exact hk
    · rw [changeSupply_keys]
      exact hk
    · exact hk

theorem rowsStay_kept (s : EventDb) : KeptByStatements s.RowsStay where
  contract := fun _ _ h => ⟨h.nfts, h.series⟩
  token := fun _ _ h => ⟨h.nfts, h.series⟩
  series := fun t k h => h.trans (t.insertSeries_rowsStay k)
  nft := fun t k h => h.trans (t.insertNft_rowsStay k)
  links := fun _ _ h => ⟨h.nfts, h.series⟩
  owners := fun _ _ h => ⟨h.nfts, h.series⟩
  placed := by
    intro t f h
    refine h.trans (RowsStay.mapNfts fun n => ⟨rfl, fun hsome => ?_⟩)
    dsimp only
    rw [Option.isSome_or, hsome, Bool.or_true]
  round := fun t e h => h.trans (t.applyLifecycleEvent_rowsStay e)
  mark := by
    intro t k h
    have hmap : t.RowsStay { t with nfts := t.nfts.map fun n =>
        if n.key == k then { n with burned := some true } else n } :=
      RowsStay.mapNfts fun n => by split <;> exact ⟨rfl, id⟩
    exact h.trans ⟨hmap.nfts, hmap.series⟩

/-! ## Keys, supplies and amounts -/

/-- One row for each NFT, no supply below zero, and no amount but one. -/
structure CellsOk (s : EventDb) : Prop where
  nfts : (s.nfts.map NftRow.key).Nodup
  supplies : ∀ r ∈ s.series, 0 ≤ r.currentSupply
  amounts : ∀ r ∈ s.ownerships.rows, r.cells.amount = 1

theorem CellsOk.mapNfts (h : s.CellsOk) {f : NftRow → NftRow}
    (hf : ∀ n, (f n).key = n.key) :
    ({ s with nfts := s.nfts.map f } : EventDb).CellsOk := by
  refine ⟨?_, h.supplies, h.amounts⟩
  rw [List.map_map, show NftRow.key ∘ f = NftRow.key from funext hf]
  exact h.nfts

theorem CellsOk.insertSeries (h : s.CellsOk) (k : SeriesKey) :
    (s.insertSeries k).CellsOk := by
  unfold EventDb.insertSeries
  split
  · exact h
  · refine ⟨h.nfts, fun r hr => ?_, h.amounts⟩
    rcases List.mem_append.mp hr with hr | hr
    · exact h.supplies r hr
    · rw [List.mem_singleton.mp hr]

theorem CellsOk.changeSupply (h : s.CellsOk) (k : SeriesKey)
    {change : Int → Int} (hchange : ∀ n, 0 ≤ n → 0 ≤ change n) :
    (s.changeSupply k change).CellsOk := by
  refine ⟨h.nfts, fun r hr => ?_, h.amounts⟩
  obtain ⟨r', hr', rfl⟩ := List.mem_map.mp hr
  have hnonneg := h.supplies r' hr'
  split
  · exact hchange _ hnonneg
  · exact hnonneg

theorem CellsOk.setBurned (h : s.CellsOk) (k : TokenKey) (flag : Bool) :
    (s.setBurned k flag).CellsOk :=
  h.mapNfts fun n => by split <;> rfl

theorem CellsOk.applyLifecycleEvent (h : s.CellsOk) (e : LifecycleEvent) :
    (s.applyLifecycleEvent e).CellsOk := by
  unfold EventDb.applyLifecycleEvent
  split <;> split
  · exact (h.setBurned _ _).changeSupply _ fun n hn => by omega
  · exact h
  · refine (h.setBurned _ _).changeSupply _ fun n hn => ?_
    split <;> omega
  · exact h

theorem writeOwnership_amounts {old t : SerialTable OwnershipCells}
    (hold : ∀ r ∈ old.rows, r.cells.amount = 1)
    (h : ∀ r ∈ t.rows, r.cells.amount = 1) (x : TokenKey × TokenEvent) :
    ∀ r ∈ (writeOwnership old t x).rows, r.cells.amount = 1 := by
  have hupdate : ∀ (id : Int) (c : OwnershipCells), c.amount = 1 →
      ∀ r ∈ (t.update id c).rows, r.cells.amount = 1 := by
    intro id c hc r hr
    obtain ⟨r', hr', rfl⟩ := List.mem_map.mp hr
    split
    · exact hc
    · exact h r' hr'
  obtain ⟨k, e⟩ := x
  unfold writeOwnership
  dsimp only
  split
  · next anchor hanchor =>
      split
      · have hmem := List.argmin_mem hanchor
        exact hupdate _ _ (hold anchor (List.mem_of_mem_filter hmem))
      · exact h
  · split
    · exact hupdate _ _ rfl
    · intro r hr
      rcases List.mem_append.mp hr with hr | hr
      · exact h r hr
      · rw [List.mem_singleton.mp hr]

theorem cellsOk_kept : KeptByStatements CellsOk where
  contract := fun _ _ h => ⟨h.nfts, h.supplies, h.amounts⟩
  token := fun _ _ h => ⟨h.nfts, h.supplies, h.amounts⟩
  series := fun _ k h => h.insertSeries k
  nft := fun _ k h => ⟨insertNft_keys h.nfts k, h.supplies, h.amounts⟩
  links := fun _ _ h => ⟨h.nfts, h.supplies, h.amounts⟩
  owners := fun s tx h => ⟨h.nfts, h.supplies,
    List.foldlRecOn
      (motive := fun t : SerialTable OwnershipCells =>
        ∀ r ∈ t.rows, r.cells.amount = 1)
      (s.desiredOwnership tx) (writeOwnership s.ownerships) h.amounts
      fun _ ht x _ => writeOwnership_amounts h.amounts ht x⟩
  placed := fun _ _ h => h.mapNfts fun _ => rfl
  round := fun _ e h => h.applyLifecycleEvent e
  mark := fun s k h =>
    have hmap := h.mapNfts (f := fun n =>
      if n.key == k then { n with burned := some true } else n)
      fun n => by split <;> rfl
    ⟨hmap.nfts, hmap.supplies, hmap.amounts⟩

/-! ## Contracts -/

/-- A contract that is filled is not filled again. -/
theorem Filled.fillContract_eq {hash : String} (h : s.Filled hash) :
    s.fillContract hash = s := by
  obtain ⟨c, hc, hhash⟩ := h.stored
  have hany : (s.contracts.any fun c => c.hash == hash) = true :=
    List.any_eq_true.mpr ⟨c, hc, beq_iff_eq.mpr hhash⟩
  have hrows : (s.contracts.map fun c =>
      if c.hash == hash && isBlankColumn c.symbol then
        { c with symbol := some hash }
      else c) = s.contracts := by
    refine (List.map_congr_left fun c hc => ?_).trans (List.map_id _)
    split
    · next hboth =>
        rw [Bool.and_eq_true, beq_iff_eq] at hboth
        rw [id, ← h.symbol c hc hboth.1 hboth.2]
    · rfl
  rw [EventDb.fillContract, if_pos hany, hrows]

theorem fillContracts_eq {hashes : List String}
    (h : ∀ hash ∈ hashes, s.Filled hash) : s.fillContracts hashes = s := by
  induction hashes with
  | nil => rfl
  | cons hash hashes ih =>
      rw [fillContracts, List.foldl_cons,
        (h hash List.mem_cons_self).fillContract_eq]
      exact ih fun hash' hhash' => h hash' (List.mem_cons_of_mem _ hhash')

theorem fillContracts_filled {hashes : List String} {hash : String}
    (h : hash ∈ hashes) : (s.fillContracts hashes).Filled hash := by
  induction hashes generalizing s with
  | nil => cases h
  | cons hash' hashes ih =>
      rcases List.mem_cons.mp h with rfl | h
      · exact ((s.fillContract_filled hash).fillContracts hashes).1
      · exact ih h

/-- What the event asks of contracts and series is there. -/
structure Served (s : EventDb) (e : TokenEvent) : Prop where
  created : e.kind = .tokenCreate → ∀ v, e.create = some v → s.Filled v.symbol
  deployed : e.kind = .contractDeploy ∨ e.kind = .contractUpgrade →
    ∀ hash, e.contractHash = some hash → s.Filled hash
  series : e.kind = .tokenSeriesCreate → ∀ id, e.seriesId = some id →
    ⟨e.contract, id⟩ ∈ s.series.map SeriesRow.key

theorem Served.mono {t : EventDb} {e : TokenEvent} (h : s.Served e)
    (hfilled : ∀ hash, s.Filled hash → t.Filled hash)
    (hseries : ∀ k ∈ s.series.map SeriesRow.key,
      k ∈ t.series.map SeriesRow.key) : t.Served e where
  created := fun hkind v hv => hfilled _ (h.created hkind v hv)
  deployed := fun hkind hash hhash => hfilled _ (h.deployed hkind hash hhash)
  series := fun hkind id hid => hseries _ (h.series hkind id hid)

theorem sideEffects_rowsStay :
    s.RowsStay (s.applyBlockEventSideEffects sql b) :=
  s.rowsStay_kept.sideEffects (RowsStay.refl s)

theorem upsertTokens_filled {tx : Int} {r : TokenEventRow}
    (hr : r ∈ s.eventsOf tx) (hkind : r.event.kind = .tokenCreate)
    {v : TokenCreate} (hv : r.event.create = some v) :
    (s.upsertTokens sql tx).Filled v.symbol := by
  have hvalue : v ∈ s.tokenCreateValues tx :=
    List.mem_filterMap.mpr ⟨r, hr, by rw [if_pos hkind, hv]⟩
  have hfilled : (s.fillContracts ((s.tokenCreateValues tx).map
      TokenCreate.symbol).dedup).Filled v.symbol :=
    fillContracts_filled (List.mem_dedup.mpr (List.mem_map_of_mem hvalue))
  refine (hfilled.congr ?_).1
  exact foldl_keeps (f := upsertToken) (g := contracts) (fun _ _ => rfl) _ _

/-- The side effects serve the events of their transaction. -/
theorem sideEffects_served (hb : s.Waiting b) {e : TokenEvent}
    (he : e ∈ b.events) : (s.applyBlockEventSideEffects sql b).Served e := by
  obtain ⟨r, hr, rfl⟩ := hb.stores.mem_eventsOf.mpr he
  have hlater : ∀ hash, (s.withTokens sql b).Filled hash →
      (s.applyBlockEventSideEffects sql b).Filled hash :=
    fun hash h => (h.congr sideEffects_contracts).1
  have htokens := s.upsertTokens_butTokens sql b.transactionId
  simp only [butTokens, Prod.mk.injEq] at htokens
  refine ⟨fun hkind v hv => hlater _ ?_, fun hkind hash hhash => hlater _ ?_,
    fun hkind id hid => ?_⟩
  · have hfilled : (s.upsertTokens sql b.transactionId).Filled v.symbol :=
      upsertTokens_filled hr hkind hv
    unfold withTokens
    split
    · exact (hfilled.fillContracts _).1
    · exact hfilled
  · have hgate : (b.events.any fun e =>
        e.kind == .contractDeploy || e.kind == .contractUpgrade) = true := by
      refine List.any_eq_true.mpr ⟨r.event, he, ?_⟩
      rw [Bool.or_eq_true, beq_iff_eq, beq_iff_eq]
      exact hkind
    have hmem : r ∈ (s.upsertTokens sql b.transactionId).eventsOf
        b.transactionId := by
      rw [eventsOf, htokens.1]
      exact hr
    rw [withTokens, if_pos hgate]
    refine fillContracts_filled (List.mem_dedup.mpr (List.mem_filterMap.mpr
      ⟨r, hmem, ?_⟩))
    rw [if_pos hkind, hhash]
  · have hgate : (b.events.any fun e => e.kind == .tokenSeriesCreate) =
        true :=
      List.any_eq_true.mpr ⟨r.event, he, beq_iff_eq.mpr hkind⟩
    have hmem : r ∈ (s.withTokens sql b).eventsOf b.transactionId := by
      have hbut := s.withTokens_butTokens sql b
      simp only [butTokens, Prod.mk.injEq] at hbut
      rw [eventsOf, hbut.1]
      exact hr
    have hmade : ⟨r.event.contract, id⟩ ∈
        (s.withSeries sql b).series.map SeriesRow.key := by
      rw [withSeries, if_pos hgate]
      refine mem_foldl_insertSeries (.inr (List.mem_filterMap.mpr
        ⟨r, hmem, ?_⟩))
      rw [if_pos hkind, hid]
      rfl
    have hkept := (s.withSeries sql b).rowsStay_kept
    exact (hkept.withMarks (hkept.withMints
      (hkept.withNfts (RowsStay.refl _)))).series _ hmade

/-! ## Links -/

/-- A stored link is to the NFT that the event names. The NFT is there, in a
series where a mint put it into one, and with an owner no older than the
event. -/
structure Linked (s : EventDb) (e : TokenEvent) (k : TokenKey) : Prop where
  token : e.token = some k
  nft : ∃ n ∈ s.nfts, n.key = k
  minted : e.kind = .tokenMint → ∀ id, e.mintSeriesId = some id →
    ⟨e.contract, id⟩ ∈ s.series.map SeriesRow.key ∧
      ∃ n ∈ s.nfts, n.key = k ∧ n.series.isSome = true
  owned : e.kind.isOwnership = true →
    ∃ o, s.ownerships.find OwnershipCells.nft k = some o ∧
      e.timestamp ≤ o.cells.lastChange

theorem Linked.mono {t : EventDb} {e : TokenEvent} {k : TokenKey}
    (h : s.Linked e k) (hrows : s.RowsStay t)
    (howners : ∀ o, s.ownerships.find OwnershipCells.nft k = some o →
      ∃ o', t.ownerships.find OwnershipCells.nft k = some o' ∧
        o.cells.lastChange ≤ o'.cells.lastChange) : t.Linked e k where
  token := h.token
  nft := by
    obtain ⟨n, hn, rfl⟩ := h.nft
    obtain ⟨n', hn', hkey, -⟩ := hrows.nfts n hn
    exact ⟨n', hn', hkey⟩
  minted := by
    intro hkind id hid
    obtain ⟨hseries, n, hn, rfl, hsome⟩ := h.minted hkind id hid
    obtain ⟨n', hn', hkey, hsome'⟩ := hrows.nfts n hn
    exact ⟨hrows.series _ hseries, n', hn', hkey, hsome' hsome⟩
  owned := by
    intro hkind
    obtain ⟨o, ho, htime⟩ := h.owned hkind
    obtain ⟨o', ho', hlater⟩ := howners o ho
    exact ⟨o', ho', htime.trans hlater⟩

theorem linkNamed_eq_some {e : TokenEvent} {k : TokenKey} :
    s.linkNamed sql b e = some k ↔ e.token = some k ∧
      (s.upsertTokens sql b.transactionId).nonFungible e.contract = true ∧
      e.kind.isNftSideEffect = true := by
  unfold linkNamed
  constructor
  · intro h
    split at h
    · next hall =>
        rw [Bool.and_eq_true, Bool.and_eq_true] at hall
        exact ⟨h, hall.1.2, hall.2⟩
    · cases h
  · rintro ⟨htoken, hfungible, hkind⟩
    rw [tokenId_isSome htoken, hfungible, hkind]
    exact htoken

theorem mintSeries_isSome {values : List (TokenKey × SeriesKey)}
    {k : TokenKey} {series : SeriesKey} (h : (k, series) ∈ values) :
    (mintSeries sql values k).isSome = true := by
  have hfound : series ∈ (values.filter fun x => x.1 == k).map Prod.snd :=
    List.mem_map_of_mem (f := Prod.snd)
      (List.mem_filter.mpr ⟨h, beq_self_eq_true k⟩)
  unfold mintSeries
  dsimp only
  generalize (values.filter fun x => x.1 == k).map Prod.snd = found at hfound ⊢
  rw [List.getElem?_eq_getElem
    (Nat.mod_lt _ (List.length_pos_of_mem hfound))]
  rfl

/-- A mint that is linked and names a series puts its NFT into one. -/
theorem withMints_minted (hb : s.Waiting b) {e : TokenEvent}
    (he : e ∈ b.events) {k : TokenKey} (hlink : s.linkNamed sql b e = some k)
    (hkind : e.kind = .tokenMint) {id : String}
    (hid : e.mintSeriesId = some id) :
    ⟨e.contract, id⟩ ∈ (s.withMints sql b).series.map SeriesRow.key ∧
      ∃ n ∈ (s.withMints sql b).nfts, n.key = k ∧ n.series.isSome = true := by
  obtain ⟨n, hn, hkey⟩ := withNfts_any hb he hlink
  obtain ⟨r, hr, rfl⟩ := hb.stores.mem_eventsOf.mpr he
  obtain ⟨htoken, hfungible, -⟩ := linkNamed_eq_some.mp hlink
  have hvalue : (k, ⟨r.event.contract, id⟩) ∈
      (s.withNfts sql b).mintValues b.transactionId := by
    rw [mintValues_withNfts hb]
    refine List.mem_filterMap.mpr ⟨r, hr, ?_⟩
    rw [if_pos ⟨hkind, hfungible⟩, htoken, hid]
    rfl
  have hgate : (b.events.any fun e => e.mintSeriesId.isSome) = true :=
    List.any_eq_true.mpr ⟨r.event, he, by rw [hid]; rfl⟩
  rw [withMints, if_pos hgate, applyMintExtended_eq]
  generalize (s.withNfts sql b).mintValues b.transactionId = values at hvalue ⊢
  have hbut := foldl_insertSeries_butSeries (s.withNfts sql b)
    (values.map Prod.snd)
  simp only [butSeries, Prod.mk.injEq] at hbut
  rw [← hbut.2.2.2.1] at hn
  refine ⟨mem_foldl_insertSeries (.inr (List.mem_map_of_mem hvalue)), _,
    List.mem_map_of_mem hn, hkey, ?_⟩
  dsimp only
  rw [Option.isSome_or, hkey, mintSeries_isSome hvalue]
  rfl

/-- The side effects link the events of their transaction. -/
theorem sideEffects_linked (hb : s.Waiting b) (hok : b.Ok)
    (howners : s.ownerships.Ok OwnershipCells.nft) {e : TokenEvent}
    (he : e ∈ b.events) {k : TokenKey}
    (hlink : s.linkNamed sql b e = some k) :
    (s.applyBlockEventSideEffects sql b).Linked e k := by
  obtain ⟨htoken, hfungible, -⟩ := linkNamed_eq_some.mp hlink
  have hkept := (s.withMints sql b).rowsStay_kept
  have hrows : (s.withMints sql b).RowsStay
      (s.applyBlockEventSideEffects sql b) := hkept.withMarks (RowsStay.refl _)
  refine ⟨htoken, ?_, fun hkind id hid => ?_, fun hkind => ?_⟩
  · obtain ⟨n, hn, rfl⟩ := withMints_any hb he hlink
    obtain ⟨n', hn', hkey, -⟩ := hrows.nfts n hn
    exact ⟨n', hn', hkey⟩
  · obtain ⟨hseries, n, hn, rfl, hsome⟩ :=
      withMints_minted hb he hlink hkind hid
    obtain ⟨n', hn', hkey, hsome'⟩ := hrows.nfts n hn
    exact ⟨hrows.series _ hseries, n', hn', hkey, hsome' hsome⟩
  · have hends := (@sideEffects_ownership sql s b hok hb.stores howners).2 k
    have hnamed : e ∈ s.ownershipNamedOf sql b k :=
      mem_ownershipNamedOf.mpr ⟨he, htoken, hkind, hfungible⟩
    obtain ⟨last, hlast⟩ := Option.isSome_iff_exists.mp
      (List.getLast?_isSome.mpr (List.ne_nil_of_mem hnamed))
    obtain ⟨o, ho, htime⟩ := hends.lastChange.2 last hlast
    have hmem := (mem_ownershipNamedOf.mp (List.mem_of_getLast? hlast)).1
    exact ⟨o, ho, (hok.times e he last hmem).le.trans htime⟩

/-! ## Marks -/

/-- The marker burns the token: a burn of it is stored, and its contract is
not the one that the marker skips. -/
def Burns (s : EventDb) (k : TokenKey) : Prop :=
  s.hasBurn k = true ∧ s.notKcal k.contract = true

theorem token_contract {e : TokenEvent} {k : TokenKey}
    (h : e.token = some k) : e.contract = k.contract := by
  obtain ⟨id, -, rfl⟩ := Option.map_eq_some_iff.mp h
  rfl

/-- What the marker burns after the other side effects. -/
theorem mem_burnTokens_withSupply_iff (hb : s.Waiting b) {k : TokenKey} :
    k ∈ (s.withSupply sql b).burnTokens b.transactionId ↔
      (∃ e ∈ b.events, e.token = some k) ∧ s.Burns k := by
  rw [mem_burnTokens, s.withSupply_fixed sql b, Burns, hasBurn_iff]
  have hkcal : ∀ e ∈ b.events, e.token = some k →
      (s.withSupply sql b).notKcal e.contract = s.notKcal k.contract := by
    intro e he htoken
    rw [(hb.filled e he).withSupply.2, token_contract htoken]
  constructor
  · rintro ⟨e, he, htoken, hcontract, hburned⟩
    have hmem := (hb.stores e).mp he
    rw [hkcal e hmem htoken] at hcontract
    refine ⟨⟨e, hmem, htoken⟩, hburned.elim (fun hkind => ?_) id, hcontract⟩
    exact ⟨_, he, hkind, htoken⟩
  · rintro ⟨⟨e, he, htoken⟩, hburned, hcontract⟩
    refine ⟨e, (hb.stores e).mpr he, htoken, ?_, .inr hburned⟩
    rw [hkcal e he htoken]
    exact hcontract

/-- A round is of an NFT that the transaction names. -/
theorem lifecycleEvents_named (hb : s.Waiting b) {e : LifecycleEvent}
    (he : e ∈ (s.withMints sql b).lifecycleEvents b.transactionId) :
    ∃ e' ∈ b.events, e'.token = some e.nft := by
  obtain ⟨r, hr, hround⟩ := List.mem_filterMap.mp he
  rw [List.mem_insertionSort, withMints_eventsOf hb] at hr
  obtain ⟨r', hr', rfl⟩ := List.mem_map.mp hr
  split at hround
  · obtain ⟨n, hfind, hseries⟩ := Option.bind_eq_some_iff.mp hround
    obtain ⟨k, -, rfl⟩ := Option.map_eq_some_iff.mp hseries
    have hkey := List.find?_some hfind
    exact ⟨r'.event, hb.stores.mem_eventsOf.mp ⟨r', hr', rfl⟩,
      (linkNamed_eq_some.mp (beq_iff_eq.mp hkey).symm).1⟩
  · cases hround

theorem mem_foldl_applyLifecycleEvent {l : List LifecycleEvent} {n : NftRow}
    (hn : n ∈ (l.foldl applyLifecycleEvent s).nfts)
    (hkey : ∀ e ∈ l, e.nft ≠ n.key) : n ∈ s.nfts := by
  induction l generalizing s with
  | nil => exact hn
  | cons e l ih =>
      have hmem := ih hn fun e' he' => hkey e' (List.mem_cons_of_mem _ he')
      rw [applyLifecycleEvent_nfts] at hmem
      obtain ⟨n', hn', rfl⟩ := List.mem_map.mp hmem
      split
      · next hsame =>
          rw [if_pos hsame] at hkey
          exact absurd (beq_iff_eq.mp hsame).symm
            (hkey e List.mem_cons_self)
      · exact hn'

/-- An NFT that the transaction does not name keeps its flag. -/
theorem withSupply_flag (hb : s.Waiting b) {n : NftRow}
    (hn : n ∈ (s.withSupply sql b).nfts)
    (hkey : ∀ e ∈ b.events, e.token ≠ some n.key) :
    ∃ n' ∈ s.nfts, n'.key = n.key ∧ n'.burned = n.burned := by
  have hmints : n ∈ (s.withMints sql b).nfts := by
    unfold withSupply at hn
    split at hn
    · refine mem_foldl_applyLifecycleEvent hn fun e he heq => ?_
      obtain ⟨e', he', htoken⟩ := lifecycleEvents_named hb he
      exact hkey e' he' (heq ▸ htoken)
    · exact hn
  obtain ⟨n', hn', hsame⟩ : ∃ n' ∈ (s.withNfts sql b).nfts,
      n'.key = n.key ∧ n'.burned = n.burned := by
    unfold withMints at hmints
    split at hmints
    · rw [applyMintExtended_eq] at hmints
      obtain ⟨n', hn', rfl⟩ := List.mem_map.mp hmints
      have hbut := foldl_insertSeries_butSeries (s.withNfts sql b)
        (((s.withNfts sql b).mintValues b.transactionId).map Prod.snd)
      simp only [butSeries, Prod.mk.injEq] at hbut
      rw [hbut.2.2.2.1] at hn'
      exact ⟨n', hn', rfl, rfl⟩
    · exact ⟨n, hmints, rfl, rfl⟩
  refine ⟨n', ?_, hsame⟩
  unfold withNfts at hn'
  split at hn'
  · rcases mem_foldl_insertNft hn' with hn' | ⟨hk, -, -⟩
    · rw [withSeries_nfts] at hn'
      exact hn'
    · obtain ⟨r, hr, htoken⟩ := List.mem_filterMap.mp hk
      have hr := (List.mem_filter.mp hr).1
      rw [eventsOf, withSeries_events] at hr
      rw [hsame.1] at htoken
      exact absurd htoken
        (hkey _ (hb.stores.mem_eventsOf.mp ⟨r, hr, rfl⟩))
  · rw [withSeries_nfts] at hn'
    exact hn'

/-! ## The invariant -/

/-- A row of `events` is marked only for a token that the marker burns, and
all that name such a token are, unless a transaction that names it is still
to come. -/
structure Marked (s : EventDb) (todo : List EventBatch) : Prop where
  sound : ∀ r ∈ s.events, r.burned = r.event.burned ∨
    (r.burned = some true ∧ ∃ k, r.event.token = some k ∧ s.Burns k)
  complete : ∀ k, s.Burns k → (∃ b ∈ todo, ∃ e ∈ b.events, e.token = some k) ∨
    ((∀ r ∈ s.events, r.event.token = some k → r.burned = some true) ∧
      ∀ n ∈ s.nfts, n.key = k → n.burned = some true)

/-- The rows agree with the events that are stored, those of `todo` apart,
whose side effects are still to come. -/
structure Projected (s : EventDb) (todo : List EventBatch) : Prop where
  keys : (s.events.map TokenEventRow.key).Nodup
  cells : s.CellsOk
  owners : s.ownerships.Ok OwnershipCells.nft
  waiting : ∀ b ∈ todo, s.Waiting b
  filled : ∀ r ∈ s.events, s.Filled r.event.contract
  served : ∀ r ∈ s.events,
    r.transactionId ∉ todo.map EventBatch.transactionId → s.Served r.event
  linked : ∀ r ∈ s.events, ∀ k, r.nft = some k → s.Linked r.event k
  marks : s.Marked todo

variable {todo : List EventBatch}

theorem sideEffects_burns (hfilled : ∀ r ∈ s.events,
    s.Filled r.event.contract) {k : TokenKey} :
    (s.applyBlockEventSideEffects sql b).Burns k ↔ s.Burns k := by
  rw [Burns, Burns, hasBurn_iff, hasBurn_iff,
    applyBlockEventSideEffects_fixed]
  refine and_congr_right fun hburn => ?_
  obtain ⟨c, hc, -, htoken⟩ := hburn
  obtain ⟨r, hr, rfl⟩ := List.mem_map.mp hc
  have hcontract : s.Filled k.contract := by
    rw [← token_contract htoken]
    exact hfilled r hr
  have hkcal : (s.withTokens sql b).notKcal k.contract =
      s.notKcal k.contract := hcontract.withTokens.2
  rw [notKcal, sideEffects_contracts]
  rw [notKcal] at hkcal
  rw [hkcal]

theorem Marked.sideEffects (h : s.Marked (b :: todo)) (hb : s.Waiting b)
    (hfilled : ∀ r ∈ s.events, s.Filled r.event.contract) :
    (s.applyBlockEventSideEffects sql b).Marked todo := by
  have hburns : ∀ k, (s.applyBlockEventSideEffects sql b).Burns k ↔
      s.Burns k := fun k => sideEffects_burns hfilled
  constructor
  · intro r hr
    obtain ⟨r', hr', -, hevent, -, hmark⟩ := mem_sideEffects hb hr
    rw [hevent, hmark]
    by_cases hk : ∃ k ∈ (s.withSupply sql b).burnTokens b.transactionId,
        r'.event.token = some k
    · obtain ⟨k, hk, htoken⟩ := hk
      rw [htoken, marked_of_mem hk]
      exact .inr ⟨rfl, k, rfl, (hburns k).mpr
        ((mem_burnTokens_withSupply_iff hb).mp hk).2⟩
    · rw [marked_of_notMem fun k htoken hmem => hk ⟨k, hmem, htoken⟩]
      rcases h.sound r' hr' with hkept | ⟨hset, k, htoken, hburn⟩
      · exact .inl hkept
      · exact .inr ⟨hset, k, htoken, (hburns k).mpr hburn⟩
  · intro k hk
    rw [hburns] at hk
    by_cases hnamed : ∃ e ∈ b.events, e.token = some k
    · have hmem := (@mem_burnTokens_withSupply_iff sql _ _ hb _).mpr
        ⟨hnamed, hk⟩
      refine .inr ⟨fun r hr htoken => ?_, fun n hn hkey => ?_⟩
      · obtain ⟨r', -, -, hevent, -, hmark⟩ := mem_sideEffects hb hr
        rw [hmark, ← hevent, htoken, marked_of_mem hmem]
      · rw [sideEffects_eq_markers hb.stores, applyBurnMarkers,
          foldl_markBurned_eq] at hn
        obtain ⟨n', -, rfl⟩ := List.mem_map.mp hn
        dsimp only at hkey ⊢
        rw [hkey, marked_of_mem hmem]
    · have hnot : k ∉ (s.withSupply sql b).burnTokens b.transactionId :=
        fun hmem => hnamed ((mem_burnTokens_withSupply_iff hb).mp hmem).1
      rcases h.complete k hk with ⟨b', hb', e, he, htoken⟩ | ⟨hrows, hnfts⟩
      · rcases List.mem_cons.mp hb' with rfl | hb'
        · exact absurd ⟨e, he, htoken⟩ hnamed
        · exact .inl ⟨b', hb', e, he, htoken⟩
      · refine .inr ⟨fun r hr htoken => ?_, fun n hn hkey => ?_⟩
        · obtain ⟨r', hr', -, hevent, -, hmark⟩ := mem_sideEffects hb hr
          rw [hevent] at htoken
          rw [hmark, marked_of_notMem, hrows r' hr' htoken]
          intro k' htoken'
          rw [htoken] at htoken'
          cases htoken'
          exact hnot
        · rw [sideEffects_eq_markers hb.stores, applyBurnMarkers,
            foldl_markBurned_eq] at hn
          obtain ⟨n', hn', rfl⟩ := List.mem_map.mp hn
          dsimp only at hkey ⊢
          rw [marked_of_notMem fun k' hk' => by
            cases hk'
            exact hkey ▸ hnot]
          obtain ⟨n'', hn'', hkey', hflag⟩ := withSupply_flag hb hn'
            fun e he htoken => hnamed ⟨e, he, hkey ▸ htoken⟩
          rw [← hflag]
          exact hnfts n'' hn'' (hkey'.trans hkey)

/-- The side effects of one transaction. -/
theorem Projected.sideEffects (h : s.Projected (b :: todo)) (hok : b.Ok)
    (hids : ((b :: todo).map EventBatch.transactionId).Nodup) :
    (s.applyBlockEventSideEffects sql b).Projected todo := by
  have hb := h.waiting b List.mem_cons_self
  obtain ⟨howners, hends⟩ := @sideEffects_ownership sql s b hok hb.stores
    h.owners
  have hrows : s.RowsStay (s.applyBlockEventSideEffects sql b) :=
    sideEffects_rowsStay
  have hfilled : ∀ hash, s.Filled hash →
      (s.applyBlockEventSideEffects sql b).Filled hash :=
    fun hash hf => hf.sideEffects
  rw [List.map_cons, List.nodup_cons] at hids
  refine ⟨?_, cellsOk_kept.sideEffects h.cells, howners, ?_, ?_, ?_, ?_,
    h.marks.sideEffects hb h.filled⟩
  · rw [sideEffects_keys]
    exact h.keys
  · intro b' hb'
    refine (h.waiting b' (List.mem_cons_of_mem _ hb')).sideEffects hb ?_
    intro heq
    exact hids.1 (heq ▸ List.mem_map_of_mem hb')
  · intro r hr
    obtain ⟨r', hr', -, hevent, -⟩ := mem_sideEffects hb hr
    rw [hevent]
    exact hfilled _ (h.filled r' hr')
  · intro r hr hdone
    obtain ⟨r', hr', htx, hevent, -⟩ := mem_sideEffects hb hr
    rw [hevent]
    by_cases hthis : r'.transactionId = b.transactionId
    · refine sideEffects_served hb (hb.stores.mem_eventsOf.mp ⟨r', ?_, rfl⟩)
      exact List.mem_filter.mpr ⟨hr', beq_iff_eq.mpr hthis⟩
    · refine (h.served r' hr' ?_).mono hfilled hrows.series
      rw [List.map_cons, List.mem_cons, not_or]
      exact ⟨hthis, htx ▸ hdone⟩
  · intro r hr k hk
    obtain ⟨r', hr', -, hevent, hnft, -⟩ := mem_sideEffects hb hr
    rw [hevent]
    rw [hk] at hnft
    split at hnft
    · next hthis =>
        refine sideEffects_linked hb hok h.owners
          (hb.stores.mem_eventsOf.mp ⟨r', ?_, rfl⟩) hnft.symm
        exact List.mem_filter.mpr ⟨hr', beq_iff_eq.mpr hthis⟩
    · exact (h.linked r' hr' k hnft.symm).mono hrows (hends k).lastChange.1

theorem Projected.run (h : s.Projected todo) (hok : ∀ b ∈ todo, b.Ok)
    (hids : (todo.map EventBatch.transactionId).Nodup) :
    (todo.foldl (applyBlockEventSideEffects sql) s).Projected [] := by
  induction todo generalizing s with
  | nil => exact h
  | cons b todo ih =>
      refine ih (h.sideEffects (hok b List.mem_cons_self) hids)
        (fun b' hb' => hok b' (List.mem_cons_of_mem _ hb')) ?_
      rw [List.map_cons, List.nodup_cons] at hids
      exact hids.2

/-! ## Runs -/

theorem insertBlockEvents_filled {hash : String} (h : s.Filled hash)
    (batches : List EventBatch) :
    (s.insertBlockEvents batches).Filled hash ∧
      (s.insertBlockEvents batches).notKcal hash = s.notKcal hash := by
  refine List.foldlRecOn
    (motive := fun t : EventDb =>
      t.Filled hash ∧ t.notKcal hash = s.notKcal hash)
    (batchRows batches) upsertEvent (h.congr rfl) fun t ht r _ => ?_
  have hsame : (t.upsertEvent r).contracts =
      (t.fillContract r.event.contract).contracts := rfl
  obtain ⟨hfilled, hkcal⟩ :=
    (ht.1.fillContract r.event.contract).congr hsame
  refine ⟨hfilled, hkcal.trans ?_⟩
  exact (ht.1.notKcal_fillContract r.event.contract).trans ht.2

/-- The stored rows of the transactions say what the batches say. -/
def Repeats (s : EventDb) (batches : List EventBatch) : Prop :=
  ∀ r ∈ s.events, r.transactionId ∈ batches.map EventBatch.transactionId →
    ∃ b ∈ batches, r.transactionId = b.transactionId ∧ r.event ∈ b.events

variable {batches : List EventBatch}

/-- A row that is not of the batches was there before. -/
theorem mem_of_insertBlockEvents (hbatches : EventBatchesOk batches)
    {r : TokenEventRow} (hr : r ∈ (s.insertBlockEvents batches).events) :
    (∃ b ∈ batches, ∃ e ∈ b.events, r = ⟨b.transactionId, e, e.burned, none⟩) ∨
      r ∈ s.events :=
  ((s.mem_insertBlockEvents hbatches).mp hr).imp mem_batchRows.mp And.left

theorem insertBlockEvents_burns (h : s.Projected [])
    (hbatches : EventBatchesOk batches) {k : TokenKey} :
    (s.Repeats batches → s.Burns k →
      (s.insertBlockEvents batches).Burns k) ∧
    ((¬∃ b ∈ batches, ∃ e ∈ b.events, e.token = some k) →
      (s.insertBlockEvents batches).Burns k → s.Burns k) := by
  have hkcal : ∀ r ∈ s.events, r.event.token = some k →
      (s.insertBlockEvents batches).notKcal k.contract =
        s.notKcal k.contract := by
    intro r hr htoken
    rw [← token_contract htoken]
    exact (insertBlockEvents_filled (h.filled r hr) batches).2
  rw [Burns, Burns, hasBurn_iff, hasBurn_iff]
  constructor
  · rintro hrepeats ⟨⟨c, hc, hkind, htoken⟩, hcontract⟩
    obtain ⟨r, hr, rfl⟩ := List.mem_map.mp hc
    refine ⟨⟨r.core, ?_, hkind, htoken⟩, (hkcal r hr htoken).trans hcontract⟩
    by_cases htx : r.transactionId ∈ batches.map EventBatch.transactionId
    · obtain ⟨b, hb, hid, he⟩ := hrepeats r hr htx
      rw [TokenEventRow.core, hid]
      exact (s.insertBlockEvents_stores hbatches hb r.event).mpr he
    · exact List.mem_map_of_mem
        ((s.mem_insertBlockEvents hbatches).mpr (.inr ⟨hr, htx⟩))
  · rintro hnamed ⟨⟨c, hc, hkind, htoken⟩, hcontract⟩
    obtain ⟨r, hr, rfl⟩ := List.mem_map.mp hc
    rcases mem_of_insertBlockEvents hbatches hr with
      ⟨b, hb, e, he, rfl⟩ | hr
    · exact absurd ⟨b, hb, e, he, htoken⟩ hnamed
    · exact ⟨⟨r.core, List.mem_map_of_mem hr, hkind, htoken⟩,
        (hkcal r hr htoken).symm.trans hcontract⟩

/-- The rows of a block are in, new or again. -/
theorem Projected.insertBlockEvents (h : s.Projected [])
    (hbatches : EventBatchesOk batches) (hrepeats : s.Repeats batches) :
    (s.insertBlockEvents batches).Projected batches := by
  have hrest := s.insertBlockEvents_rest batches
  simp only [Prod.mk.injEq] at hrest
  obtain ⟨-, hnfts, hseries, howners, -⟩ := hrest
  have hrows : s.RowsStay (s.insertBlockEvents batches) :=
    ⟨fun n hn => ⟨n, hnfts ▸ hn, rfl, id⟩, fun k hk => hseries ▸ hk⟩
  have hfilled : ∀ hash, s.Filled hash →
      (s.insertBlockEvents batches).Filled hash :=
    fun hash hf => (insertBlockEvents_filled hf batches).1
  refine ⟨insertBlockEvents_keys batches h.keys, ⟨?_, ?_, ?_⟩, ?_,
    fun b hb => insertBlockEvents_waiting hbatches hb, ?_, ?_, ?_, ?_, ?_⟩
  · rw [hnfts]
    exact h.cells.nfts
  · rw [hseries]
    exact h.cells.supplies
  · rw [howners]
    exact h.cells.amounts
  · rw [howners]
    exact h.owners
  · intro r hr
    rcases mem_of_insertBlockEvents hbatches hr with
      ⟨b, hb, e, he, rfl⟩ | hr
    · exact (insertBlockEvents_waiting hbatches hb).filled e he
    · exact hfilled _ (h.filled r hr)
  · intro r hr hdone
    rcases mem_of_insertBlockEvents hbatches hr with
      ⟨b, hb, e, he, rfl⟩ | hr
    · exact absurd (List.mem_map_of_mem hb) hdone
    · exact (h.served r hr List.not_mem_nil).mono hfilled hrows.series
  · intro r hr k hk
    rcases mem_of_insertBlockEvents hbatches hr with
      ⟨b, hb, e, he, rfl⟩ | hr
    · cases hk
    · refine (h.linked r hr k hk).mono hrows fun o ho => ⟨o, ?_, le_rfl⟩
      rw [howners]
      exact ho
  · intro r hr
    rcases mem_of_insertBlockEvents hbatches hr with
      ⟨b, hb, e, he, rfl⟩ | hr
    · exact .inl rfl
    · rcases h.marks.sound r hr with hkept | ⟨hset, k, htoken, hburn⟩
      · exact .inl hkept
      · exact .inr ⟨hset, k, htoken,
          (insertBlockEvents_burns h hbatches).1 hrepeats hburn⟩
  · intro k hk
    by_cases hnamed : ∃ b ∈ batches, ∃ e ∈ b.events, e.token = some k
    · exact .inl hnamed
    · have hburn := (insertBlockEvents_burns h hbatches).2 hnamed hk
      rcases h.marks.complete k hburn with ⟨b, hb, -⟩ | ⟨hmarked, hflags⟩
      · cases hb
      · refine .inr ⟨fun r hr htoken => ?_, fun n hn => ?_⟩
        · rcases mem_of_insertBlockEvents hbatches hr with
            ⟨b, hb, e, he, rfl⟩ | hr
          · exact absurd ⟨b, hb, e, he, htoken⟩ hnamed
          · exact hmarked r hr htoken
        · rw [hnfts] at hn
          exact hflags n hn

/-- A block, new or again. -/
theorem Projected.projectBlockEvents (h : s.Projected [])
    (hbatches : EventBatchesOk batches) (hrepeats : s.Repeats batches)
    (hok : ∀ b ∈ batches, b.Ok) :
    (s.projectBlockEvents sql batches).Projected [] :=
  (h.insertBlockEvents hbatches hrepeats).run hok hbatches.transactions

end EventDb

/-- A history: no transaction twice, no index twice in a transaction, and one
time for its events. -/
structure HistoryOk (chain : List (SqlServer × List EventBatch)) : Prop where
  transactions : ((chain.flatMap Prod.snd).map EventBatch.transactionId).Nodup
  batches : ∀ b ∈ chain.flatMap Prod.snd, b.Ok

/-- What the stored rows are of, after a history. -/
structure EventDb.HoldsHistory (s : EventDb)
    (chain : List (SqlServer × List EventBatch)) : Prop where
  projected : s.Projected []
  stores : ∀ b ∈ chain.flatMap Prod.snd, s.Stores b
  known : ∀ r ∈ s.events, r.transactionId ∈
    (chain.flatMap Prod.snd).map EventBatch.transactionId

namespace EventDb

variable {sql : SqlServer} {s : EventDb} {batches : List EventBatch}

theorem emptyDb_projected : ({} : EventDb).Projected [] := by
  have hburns : ∀ k, ¬({} : EventDb).Burns k := by
    intro k hk
    cases hk.1
  refine ⟨List.nodup_nil, ⟨List.nodup_nil, ?_, ?_⟩, ?_, ?_, ?_, ?_, ?_, ?_, ?_⟩
  · exact fun r hr => by cases hr
  · exact fun r hr => by cases hr
  · exact ⟨List.nodup_nil, List.nodup_nil, fun r hr => by cases hr⟩
  · exact fun b hb => by cases hb
  · exact fun r hr => by cases hr
  · exact fun r hr => by cases hr
  · exact fun r hr => by cases hr
  · exact fun r hr => by cases hr
  · exact fun k hk => absurd hk (hburns k)

theorem projectBlockEvents_fixed (batches : List EventBatch) :
    (s.projectBlockEvents sql batches).fixed =
      (s.insertBlockEvents batches).fixed := by
  have hrun : ∀ t : EventDb,
      (batches.foldl (applyBlockEventSideEffects sql) t).fixed = t.fixed :=
    foldl_keeps (fun t b => t.applyBlockEventSideEffects_fixed sql b) batches
  exact hrun _

theorem eventBatchesOk_of_history
    {chain : List (SqlServer × List EventBatch)} (hchain : HistoryOk chain)
    {block : SqlServer × List EventBatch} (hblock : block ∈ chain) :
    EventBatchesOk block.2 := by
  have hsub : block.2.Sublist (chain.flatMap Prod.snd) := by
    obtain ⟨before, after, rfl⟩ := List.append_of_mem hblock
    rw [List.flatMap_append, List.flatMap_cons]
    exact (List.sublist_append_left _ _).trans
      (List.sublist_append_right _ _)
  refine ⟨hchain.transactions.sublist (hsub.map _), fun b hb => ?_⟩
  exact (hchain.batches b (hsub.subset hb)).indexes

/-- A new block after a history. -/
theorem HoldsHistory.projectBlockEvents
    {chain : List (SqlServer × List EventBatch)}
    {block : SqlServer × List EventBatch} (h : s.HoldsHistory chain)
    (hchain : HistoryOk (chain ++ [block])) :
    (s.projectBlockEvents block.1 block.2).HoldsHistory (chain ++ [block]) := by
  have hbatches : EventBatchesOk block.2 := eventBatchesOk_of_history hchain
    (List.mem_append_right _ List.mem_cons_self)
  have hflat : (chain ++ [block]).flatMap Prod.snd =
      chain.flatMap Prod.snd ++ block.2 := by
    rw [List.flatMap_append, List.flatMap_cons, List.flatMap_nil,
      List.append_nil]
  have hids := hchain.transactions
  have hok := hchain.batches
  rw [hflat] at hids hok
  rw [List.map_append] at hids
  have hnew : ∀ tx ∈ (chain.flatMap Prod.snd).map EventBatch.transactionId,
      tx ∉ block.2.map EventBatch.transactionId :=
    fun tx htx htx' => (List.nodup_append.mp hids).2.2 tx htx tx htx' rfl
  constructor
  · refine h.projected.projectBlockEvents hbatches (fun r hr htx => ?_)
      fun b hb => hok b (List.mem_append_right _ hb)
    exact absurd htx (hnew _ (h.known r hr))
  · rw [hflat]
    intro b hb
    rw [Stores, projectBlockEvents_fixed]
    rcases List.mem_append.mp hb with hb | hb
    · intro e
      rw [← h.stores b hb e, fixed, fixed, List.mem_map, List.mem_map]
      refine exists_congr fun r => ?_
      rw [s.mem_insertBlockEvents hbatches]
      have htx := hnew _ (List.mem_map_of_mem hb)
      constructor
      · rintro ⟨hr | ⟨hr, -⟩, hcore⟩
        · obtain ⟨b', hb', e', -, rfl⟩ := mem_batchRows.mp hr
          have hid : b'.transactionId = b.transactionId :=
            congrArg Prod.fst hcore
          exact absurd (hid ▸ List.mem_map_of_mem hb') htx
        · exact ⟨hr, hcore⟩
      · rintro ⟨hr, hcore⟩
        have hid : r.transactionId = b.transactionId := congrArg Prod.fst hcore
        exact ⟨.inr ⟨hr, hid ▸ htx⟩, hcore⟩
    · exact s.insertBlockEvents_stores hbatches hb
  · intro r hr
    have hcore : r.core ∈ (s.insertBlockEvents block.2).fixed.1 := by
      have hfixed : (s.projectBlockEvents block.1 block.2).fixed =
          (s.insertBlockEvents block.2).fixed := projectBlockEvents_fixed _
      rw [← hfixed]
      exact List.mem_map_of_mem hr
    obtain ⟨r', hr', hsame⟩ := List.mem_map.mp hcore
    have hid : r'.transactionId = r.transactionId := congrArg Prod.fst hsame
    rw [← hid, hflat, List.map_append, List.mem_append]
    rcases (s.mem_insertBlockEvents hbatches).mp hr' with hr' | ⟨hr', -⟩
    · obtain ⟨b, hb, e, -, rfl⟩ := mem_batchRows.mp hr'
      exact .inr (List.mem_map_of_mem hb)
    · exact .inl (h.known r' hr')

end EventDb

theorem HistoryOk.left {chain : List (SqlServer × List EventBatch)}
    {block : SqlServer × List EventBatch} (h : HistoryOk (chain ++ [block])) :
    HistoryOk chain := by
  refine ⟨?_, fun b hb => h.batches b ?_⟩
  · refine h.transactions.sublist (List.Sublist.map _ ?_)
    rw [List.flatMap_append]
    exact List.sublist_append_left _ _
  · rw [List.flatMap_append]
    exact List.mem_append_left _ hb

/-- What every history leaves behind. -/
theorem projectBlocks_holdsHistory
    {chain : List (SqlServer × List EventBatch)} (hchain : HistoryOk chain) :
    (({} : EventDb).projectBlocks chain).HoldsHistory chain := by
  induction chain using List.reverseRecOn with
  | nil =>
      refine ⟨EventDb.emptyDb_projected, fun b hb => ?_, fun r hr => ?_⟩
      · cases hb
      · cases hr
  | append_singleton chain block ih =>
      have h := (ih hchain.left).projectBlockEvents hchain
      rw [EventDb.projectBlocks, List.foldl_append]
      exact h

end Explorer.Ref
