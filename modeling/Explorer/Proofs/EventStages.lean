import Explorer.Proofs.NftOwnership

/-!
# A transaction, statement after statement

The statements of a transaction read what the ones before them left. Here is
what each leaves for the next, and what all of them leave together: contracts
that are filled once, links from the events to their NFTs, the rounds of the
lifecycle loop, and the rows that the marker marks. `Waiting` is the state of
a transaction whose rows are in and whose side effects have not run.
-/

namespace Explorer.Ref

open Explorer.Lib

namespace EventDb

/-! ## Contracts -/

/-- The contract has its row, and the row has its symbol. -/
structure Filled (s : EventDb) (hash : String) : Prop where
  stored : ∃ c ∈ s.contracts, c.hash = hash
  symbol : ∀ c ∈ s.contracts, c.hash = hash →
    isBlankColumn c.symbol = true → c.symbol = some hash

variable {s : EventDb}

theorem fillContract_filled (s : EventDb) (hash : String) :
    (s.fillContract hash).Filled hash := by
  unfold fillContract
  split
  · next hany =>
      obtain ⟨c, hc, hhash⟩ := List.any_eq_true.mp hany
      refine ⟨⟨_, List.mem_map_of_mem hc, ?_⟩, fun c' hc' hh hblank => ?_⟩
      · split <;> exact beq_iff_eq.mp hhash
      · obtain ⟨c'', hc'', rfl⟩ := List.mem_map.mp hc'
        split
        · rfl
        · next hnot =>
            rw [if_neg hnot] at hh hblank
            rw [hh, beq_self_eq_true, hblank] at hnot
            exact absurd rfl hnot
  · next hany =>
      refine ⟨⟨_, List.mem_append_right _ List.mem_cons_self, rfl⟩,
        fun c' hc' hh hblank => ?_⟩
      rcases List.mem_append.mp hc' with hc' | hc'
      · refine absurd (List.any_eq_true.mpr ⟨c', hc', ?_⟩) hany
        exact beq_iff_eq.mpr hh
      · rw [List.mem_singleton.mp hc']

/-- A contract that is filled is not written again. -/
theorem Filled.mem_fillContract_iff {hash other : String} (h : s.Filled hash)
    {c : ContractRow} (hhash : c.hash = hash) :
    c ∈ (s.fillContract other).contracts ↔ c ∈ s.contracts := by
  unfold fillContract
  split
  · rw [List.mem_map]
    constructor
    · rintro ⟨c', hc', rfl⟩
      split
      · next hboth =>
          rw [if_pos hboth] at hhash
          rw [Bool.and_eq_true, beq_iff_eq] at hboth
          have hsymbol := h.symbol c' hc' hhash hboth.2
          have hother : other = hash := hboth.1.symm.trans hhash
          rw [hother, ← hsymbol]
          exact hc'
      · exact hc'
    · intro hc
      refine ⟨c, hc, ?_⟩
      split
      · next hboth =>
          rw [Bool.and_eq_true, beq_iff_eq] at hboth
          have hsymbol := h.symbol c hc hhash hboth.2
          have hother : other = hash := hboth.1.symm.trans hhash
          rw [hother, ← hsymbol]
      · rfl
  · next hany =>
      rw [List.mem_append, List.mem_singleton]
      constructor
      · rintro (hc | rfl)
        · exact hc
        · obtain ⟨c, hc, hstored⟩ := h.stored
          refine absurd (List.any_eq_true.mpr ⟨c, hc, ?_⟩) hany
          exact beq_iff_eq.mpr (hstored.trans hhash.symm)
      · exact .inl

theorem Filled.fillContract {hash : String} (h : s.Filled hash)
    (other : String) : (s.fillContract other).Filled hash := by
  obtain ⟨c, hc, hhash⟩ := h.stored
  refine ⟨⟨c, (h.mem_fillContract_iff hhash).mpr hc, hhash⟩,
    fun c' hc' hhash' => ?_⟩
  exact h.symbol c' ((h.mem_fillContract_iff hhash').mp hc') hhash'

theorem Filled.notKcal_fillContract {hash : String} (h : s.Filled hash)
    (other : String) :
    (s.fillContract other).notKcal hash = s.notKcal hash := by
  unfold notKcal
  congr 1
  rw [Bool.eq_iff_iff, List.any_eq_true, List.any_eq_true]
  refine exists_congr fun c => ?_
  rw [Bool.and_eq_true, beq_iff_eq]
  constructor
  · rintro ⟨hc, hhash, hsymbol⟩
    exact ⟨(h.mem_fillContract_iff hhash).mp hc, hhash, hsymbol⟩
  · rintro ⟨hc, hhash, hsymbol⟩
    exact ⟨(h.mem_fillContract_iff hhash).mpr hc, hhash, hsymbol⟩

theorem Filled.fillContracts {hash : String} (h : s.Filled hash)
    (others : List String) :
    (s.fillContracts others).Filled hash ∧
      (s.fillContracts others).notKcal hash = s.notKcal hash := by
  unfold EventDb.fillContracts
  induction others generalizing s with
  | nil => exact ⟨h, rfl⟩
  | cons other others ih =>
      obtain ⟨hfilled, hkcal⟩ := ih (h.fillContract other)
      exact ⟨hfilled, hkcal.trans (h.notKcal_fillContract other)⟩

theorem Filled.congr {hash : String} (h : s.Filled hash) {s' : EventDb}
    (hcontracts : s'.contracts = s.contracts) :
    s'.Filled hash ∧ s'.notKcal hash = s.notKcal hash := by
  refine ⟨⟨?_, ?_⟩, ?_⟩
  · rw [hcontracts]
    exact h.stored
  · rw [hcontracts]
    exact h.symbol
  · rw [notKcal, notKcal, hcontracts]

/-! ## Links -/

variable (sql : SqlServer) (s) (b : EventBatch)

/-- A transaction whose rows are in and whose side effects have not run. -/
structure Waiting (s : EventDb) (b : EventBatch) : Prop where
  indexes : (b.events.map TokenEvent.eventIndex).Nodup
  stores : s.Stores b
  unlinked : ∀ r ∈ s.events, r.transactionId = b.transactionId → r.nft = none
  filled : ∀ e ∈ b.events, s.Filled e.contract

/-- The link that the side effects give an event. -/
def linkNamed (e : TokenEvent) : Option TokenKey :=
  if e.tokenId.isSome &&
      (s.upsertTokens sql b.transactionId).nonFungible e.contract &&
      e.kind.isNftSideEffect then e.token
  else none

/-- The series that its mints name. -/
def seriesNamed : List (TokenKey × SeriesKey) :=
  (s.eventsOf b.transactionId).filterMap fun r =>
    if r.event.kind = .tokenMint ∧
        (s.upsertTokens sql b.transactionId).nonFungible r.event.contract = true
    then r.event.token.bind fun k =>
      r.event.mintSeriesId.map fun id => (k, ⟨r.event.contract, id⟩)
    else none

variable {sql s b}

theorem withSeries_nfts : (s.withSeries sql b).nfts = s.nfts := by
  have htokens := s.withTokens_butTokens sql b
  have hseries := s.withSeries_butSeries sql b
  simp only [butTokens, butSeries, Prod.mk.injEq] at htokens hseries
  exact hseries.2.2.2.1.trans htokens.2.1

theorem withSeries_events : (s.withSeries sql b).events = s.events := by
  have htokens := s.withTokens_butTokens sql b
  have hseries := s.withSeries_butSeries sql b
  simp only [butTokens, butSeries, Prod.mk.injEq] at htokens hseries
  exact hseries.1.trans htokens.1

/-- The candidates are the events that get a link. -/
theorem isCandidate_withSeries (r : TokenEventRow) :
    (s.withSeries sql b).isCandidate r =
      (r.event.tokenId.isSome &&
        (s.upsertTokens sql b.transactionId).nonFungible r.event.contract &&
        r.event.kind.isNftSideEffect) := by
  rw [isCandidate, nonFungible_congr withSeries_upsertTokens.1]

theorem insertNft_keys (h : (s.nfts.map NftRow.key).Nodup) (k : TokenKey) :
    ((s.insertNft k).nfts.map NftRow.key).Nodup := by
  unfold insertNft
  split
  · exact h
  · next hnew =>
      rw [List.map_append, List.nodup_append]
      refine ⟨h, List.nodup_singleton _, ?_⟩
      rintro _ hk _ hk' rfl
      obtain ⟨n, hn, rfl⟩ := List.mem_map.mp hk
      rw [List.map_singleton, List.mem_singleton] at hk'
      exact hnew (List.any_eq_true.mpr ⟨n, hn, beq_iff_eq.mpr hk'⟩)

/-- A row among the NFTs that is new is one of those inserted, and blank. -/
theorem mem_foldl_insertNft {ks : List TokenKey} {n : NftRow}
    (hn : n ∈ (ks.foldl insertNft s).nfts) :
    n ∈ s.nfts ∨ (n.key ∈ ks ∧ n.key ∉ s.nfts.map NftRow.key ∧
      n = ⟨n.key, none, none⟩) := by
  induction ks generalizing s with
  | nil => exact .inl hn
  | cons k ks ih =>
      have hfirst : ∀ {n}, n ∈ (s.insertNft k).nfts → n ∈ s.nfts ∨
          (n.key = k ∧ n.key ∉ s.nfts.map NftRow.key ∧
            n = ⟨n.key, none, none⟩) := by
        intro n hn
        unfold insertNft at hn
        dsimp only at hn
        split at hn
        · exact .inl hn
        · next hnew =>
            rcases List.mem_append.mp hn with hn | hn
            · exact .inl hn
            · rw [List.mem_singleton.mp hn]
              refine .inr ⟨rfl, fun hk => hnew ?_, rfl⟩
              obtain ⟨n', hn', hkey⟩ := List.mem_map.mp hk
              exact List.any_eq_true.mpr ⟨n', hn', beq_iff_eq.mpr hkey⟩
      have hkept : ∀ n ∈ s.nfts, n ∈ (s.insertNft k).nfts := by
        intro n hn
        unfold insertNft
        dsimp only
        split
        · exact hn
        · exact List.mem_append_left _ hn
      rcases ih hn with hn | ⟨hk, hnew, hblank⟩
      · rcases hfirst hn with hn | ⟨hk, hnew⟩
        · exact .inl hn
        · exact .inr ⟨hk ▸ List.mem_cons_self, hnew⟩
      · refine .inr ⟨List.mem_cons_of_mem _ hk, fun hk => hnew ?_, hblank⟩
        obtain ⟨n', hn', hkey⟩ := List.mem_map.mp hk
        exact List.mem_map.mpr ⟨n', hkept n' hn', hkey⟩

/-- A link is given where the gate lets the statements run. -/
theorem gate_of_linkNamed (hb : s.Waiting b) {e : TokenEvent}
    (he : e ∈ b.events) {k : TokenKey} (hlink : s.linkNamed sql b e = some k) :
    ((b.events.any fun e => e.tokenId.isSome && e.kind.isNftSideEffect) &&
      (s.withSeries sql b).hasNftCandidates b.transactionId) = true := by
  unfold linkNamed at hlink
  split at hlink
  · next hall =>
      obtain ⟨r, hr, rfl⟩ := hb.stores.mem_eventsOf.mpr he
      have hcandidate : (s.withSeries sql b).isCandidate r = true := by
        rw [isCandidate_withSeries, hall]
      rw [Bool.and_eq_true, Bool.and_eq_true] at hall
      rw [Bool.and_eq_true]
      refine ⟨List.any_eq_true.mpr ⟨_, he, ?_⟩, ?_⟩
      · rw [hall.1.1, hall.2]
        rfl
      · unfold hasNftCandidates
        refine List.any_eq_true.mpr ⟨r, ?_, hcandidate⟩
        unfold eventsOf
        rw [withSeries_events]
        exact hr
  · cases hlink

/-- An NFT that an event is linked to has its row. -/
theorem withNfts_any (hb : s.Waiting b) {e : TokenEvent} (he : e ∈ b.events)
    {k : TokenKey} (hlink : s.linkNamed sql b e = some k) :
    ∃ n ∈ (s.withNfts sql b).nfts, n.key = k := by
  have hgate := gate_of_linkNamed hb he hlink
  obtain ⟨r, hr, rfl⟩ := hb.stores.mem_eventsOf.mpr he
  unfold linkNamed at hlink
  split at hlink
  · next hall =>
      have hcandidate : (s.withSeries sql b).isCandidate r = true := by
        rw [isCandidate_withSeries, hall]
      have hmem : r ∈ (s.withSeries sql b).eventsOf b.transactionId := by
        unfold eventsOf
        rw [withSeries_events]
        exact hr
      have hany := insertNfts_any hmem hcandidate hlink
      obtain ⟨n, hn, hkey⟩ := List.any_eq_true.mp hany
      refine ⟨n, ?_, beq_iff_eq.mp hkey⟩
      rw [withNfts, if_pos hgate]
      exact hn
  · cases hlink

theorem linkEvents_eventsOf (s : EventDb) (tx : Int) :
    (s.linkEvents tx).eventsOf tx = (s.eventsOf tx).map fun r =>
      if s.isCandidate r && s.nfts.any fun n => some n.key == r.event.token
      then { r with nft := r.event.token } else r := by
  unfold eventsOf linkEvents
  dsimp only
  rw [List.filter_map]
  have hkeeps : ((fun r : TokenEventRow => r.transactionId == tx) ∘ fun r =>
      if r.transactionId == tx && s.isCandidate r &&
          s.nfts.any fun n => some n.key == r.event.token then
        { r with nft := r.event.token } else r) =
      fun r => r.transactionId == tx := by
    funext r
    rw [Function.comp_apply]
    split <;> rfl
  rw [hkeeps]
  refine List.map_congr_left fun r hr => ?_
  rw [(List.mem_filter.mp hr).2, Bool.true_and]

/-- The rows of the transaction, linked. -/
theorem withNfts_eventsOf (hb : s.Waiting b) :
    (s.withNfts sql b).eventsOf b.transactionId =
      (s.eventsOf b.transactionId).map fun r =>
        { r with nft := s.linkNamed sql b r.event } := by
  have hsame : (s.withSeries sql b).eventsOf b.transactionId =
      s.eventsOf b.transactionId := by
    unfold eventsOf
    rw [withSeries_events]
  have hnone : ∀ r ∈ s.eventsOf b.transactionId, r.nft = none := by
    intro r hr
    obtain ⟨hr, htx⟩ := List.mem_filter.mp hr
    exact hb.unlinked r hr (beq_iff_eq.mp htx)
  by_cases hgate : ((b.events.any fun e =>
      e.tokenId.isSome && e.kind.isNftSideEffect) &&
      (s.withSeries sql b).hasNftCandidates b.transactionId) = true
  · rw [withNfts, if_pos hgate]
    have hinsert := (s.withSeries sql b).insertNfts_butNfts b.transactionId
    simp only [butNfts, Prod.mk.injEq] at hinsert
    have hrows : ((s.withSeries sql b).insertNfts b.transactionId).eventsOf
        b.transactionId = s.eventsOf b.transactionId := by
      unfold eventsOf at hsame ⊢
      rw [hinsert.1, hsame]
    refine (linkEvents_eventsOf _ _).trans ?_
    rw [hrows]
    refine List.map_congr_left fun r hr => ?_
    have hcandidate : ((s.withSeries sql b).insertNfts
        b.transactionId).isCandidate r = (s.withSeries sql b).isCandidate r := by
      unfold isCandidate
      rw [nonFungible_congr hinsert.2.2.1]
    rw [hcandidate, isCandidate_withSeries, linkNamed]
    split
    · next hboth =>
        rw [Bool.and_eq_true] at hboth
        rw [if_pos hboth.1]
    · next hboth =>
        split
        · next hall =>
            cases htoken : r.event.token with
            | none => rw [← hnone r hr]
            | some k =>
                refine absurd ?_ hboth
                rw [hall, Bool.true_and]
                have hmem : r ∈ (s.withSeries sql b).eventsOf
                    b.transactionId := hsame ▸ hr
                have hany := insertNfts_any hmem
                  (by rw [isCandidate_withSeries, hall]) htoken
                obtain ⟨n, hn, hkey⟩ := List.any_eq_true.mp hany
                refine List.any_eq_true.mpr ⟨n, hn, ?_⟩
                rw [beq_iff_eq.mp hkey, htoken]
                exact beq_self_eq_true _
        · rw [← hnone r hr]
  · rw [withNfts, if_neg hgate, hsame]
    refine ((List.map_congr_left fun r hr => ?_).trans (List.map_id _)).symm
    cases hlink : s.linkNamed sql b r.event with
    | none => rw [id, ← hnone r hr]
    | some k =>
        have he := hb.stores.mem_eventsOf.mp ⟨r, hr, rfl⟩
        exact absurd (gate_of_linkNamed hb he hlink) hgate

theorem mem_withNfts {n : NftRow} (hn : n ∈ (s.withNfts sql b).nfts) :
    n ∈ s.nfts ∨
      (n.key ∉ s.nfts.map NftRow.key ∧ n = ⟨n.key, none, none⟩) := by
  unfold withNfts at hn
  split at hn
  · have hrow := (mem_foldl_insertNft hn).imp_right And.right
    rw [withSeries_nfts] at hrow
    exact hrow
  · rw [withSeries_nfts] at hn
    exact .inl hn

theorem withNfts_tokens :
    (s.withNfts sql b).tokens = (s.upsertTokens sql b.transactionId).tokens := by
  rw [← (@withSeries_upsertTokens sql s b).1, withNfts]
  split
  · have hinsert := (s.withSeries sql b).insertNfts_butNfts b.transactionId
    simp only [butNfts, Prod.mk.injEq] at hinsert
    exact hinsert.2.2.1
  · rfl

/-! ## Mints, in the order of the events -/

/-- The mints of the statement are those of the transaction. -/
theorem mintValues_withNfts (hb : s.Waiting b) :
    (s.withNfts sql b).mintValues b.transactionId = s.seriesNamed sql b := by
  rw [mintValues, withNfts_eventsOf hb, List.filterMap_map, seriesNamed]
  refine List.filterMap_congr fun r _ => ?_
  rw [Function.comp_apply]
  dsimp only
  rw [nonFungible_congr withNfts_tokens]
  split
  · next hmint =>
      cases htoken : r.event.token with
      | none =>
          rw [linkNamed, htoken, ite_self]
      | some k =>
          have hlink : s.linkNamed sql b r.event = some k := by
            rw [linkNamed, tokenId_isSome htoken, hmint.1, hmint.2, ← htoken]
            rfl
          rw [hlink]
  · rfl

theorem mem_of_mintSeries {values : List (TokenKey × SeriesKey)} {k : TokenKey}
    {series : SeriesKey} (h : mintSeries sql values k = some series) :
    (k, series) ∈ values := by
  obtain ⟨⟨k', series'⟩, hpair, rfl⟩ := List.mem_map.mp (List.mem_of_getElem? h)
  obtain ⟨hmem, hkey⟩ := List.mem_filter.mp hpair
  rw [← beq_iff_eq.mp hkey]
  exact hmem

theorem mem_foldl_insertSeries {ks : List SeriesKey} {k : SeriesKey}
    (hk : k ∈ s.series.map SeriesRow.key ∨ k ∈ ks) :
    k ∈ (ks.foldl insertSeries s).series.map SeriesRow.key := by
  induction ks generalizing s with
  | nil => exact hk.resolve_right List.not_mem_nil
  | cons k' ks ih =>
      refine ih ?_
      have hkept : ∀ k, k ∈ s.series.map SeriesRow.key ∨ k = k' →
          k ∈ (s.insertSeries k').series.map SeriesRow.key := by
        intro k hk
        unfold insertSeries
        dsimp only
        split
        · next hany =>
            rcases hk with hk | rfl
            · exact hk
            · obtain ⟨r, hr, hkey⟩ := List.any_eq_true.mp hany
              exact List.mem_map.mpr ⟨r, hr, beq_iff_eq.mp hkey⟩
        · rw [List.map_append, List.mem_append]
          refine hk.imp id fun h => ?_
          rw [h]
          exact List.mem_cons_self
      rcases hk with hk | hk
      · exact .inl (hkept k (.inl hk))
      · rcases List.mem_cons.mp hk with rfl | hk
        · exact .inl (hkept k (.inr rfl))
        · exact .inr hk

theorem applyMintExtended_eq (s : EventDb) (tx : Int) :
    s.applyMintExtended sql tx =
      { ((s.mintValues tx).map Prod.snd).foldl insertSeries s with
        nfts := (((s.mintValues tx).map Prod.snd).foldl insertSeries s).nfts.map
          fun n => { n with
            series := (mintSeries sql (s.mintValues tx) n.key).or n.series } } := by
  unfold applyMintExtended
  dsimp only
  congr 1
  refine List.map_congr_left fun n _ => ?_
  split
  · next hmint => rw [hmint, Option.some_or]
  · next hmint => rw [hmint, Option.none_or]

theorem withMints_eventsOf (hb : s.Waiting b) :
    (s.withMints sql b).eventsOf b.transactionId =
      (s.eventsOf b.transactionId).map fun r =>
        { r with nft := s.linkNamed sql b r.event } := by
  have hbut := s.withMints_butNfts sql b
  simp only [butNfts, Prod.mk.injEq] at hbut
  rw [← withNfts_eventsOf hb, eventsOf, eventsOf, hbut.1]

theorem withMints_any (hb : s.Waiting b) {e : TokenEvent} (he : e ∈ b.events)
    {k : TokenKey} (hlink : s.linkNamed sql b e = some k) :
    ∃ n ∈ (s.withMints sql b).nfts, n.key = k := by
  obtain ⟨n, hn, hkey⟩ := withNfts_any hb he hlink
  unfold withMints
  split
  · rw [applyMintExtended_eq]
    have hbut := foldl_insertSeries_butSeries (s.withNfts sql b)
      (((s.withNfts sql b).mintValues b.transactionId).map Prod.snd)
    simp only [butSeries, Prod.mk.injEq] at hbut
    rw [← hbut.2.2.2.1] at hn
    exact ⟨_, List.mem_map_of_mem hn, hkey⟩
  · exact ⟨n, hn, hkey⟩

/-- The rows of the transaction are its events, also in their order. -/
theorem insertionSort_eventsOf (hb : s.Waiting b)
    (hkeys : (s.events.map TokenEventRow.key).Nodup) :
    ((s.eventsOf b.transactionId).map TokenEventRow.event).insertionSort
      (fun a b => a.eventIndex ≤ b.eventIndex) =
    b.events.insertionSort fun a b => a.eventIndex ≤ b.eventIndex := by
  have hanti : Std.Antisymm fun a b : TokenEvent =>
      a.eventIndex < b.eventIndex :=
    ⟨fun _ _ hab hba => absurd hab (lt_asymm hba)⟩
  have hirrefl : Std.Irrefl fun a b : TokenEvent =>
      a.eventIndex < b.eventIndex := ⟨fun a => lt_irrefl a.eventIndex⟩
  have hrows : (((s.eventsOf b.transactionId).map TokenEventRow.event).map
      TokenEvent.eventIndex).Nodup := by
    have hsub : ((s.eventsOf b.transactionId).map TokenEventRow.key).Nodup :=
      hkeys.sublist (List.filter_sublist.map _)
    rw [List.map_map, List.nodup_iff_pairwise_ne, List.pairwise_map]
    refine (List.pairwise_map.mp hsub).imp_of_mem fun hr hr' hne heq => hne ?_
    have htx := beq_iff_eq.mp (List.mem_filter.mp hr).2
    have htx' := beq_iff_eq.mp (List.mem_filter.mp hr').2
    exact Prod.ext (htx.trans htx'.symm) heq
  refine (insertionSort_strict hrows).eq_of_mem_iff
    (insertionSort_strict hb.indexes) fun e => ?_
  rw [List.mem_insertionSort, List.mem_insertionSort, ← hb.stores.mem_eventsOf,
    List.mem_map]

/-! ## Rounds and marks -/

/-- A round leaves the flag that its event says, moved or not. -/
theorem applyLifecycleEvent_nfts (s : EventDb) (e : LifecycleEvent) :
    (s.applyLifecycleEvent e).nfts = s.nfts.map fun n =>
      if n.key == e.nft then { n with burned := some (!e.mint) } else n := by
  have hkept : ∀ flag, ¬ (s.nfts.any fun n =>
      n.key == e.nft && n.burned != some flag) = true →
      s.nfts = s.nfts.map fun n =>
        if n.key == e.nft then { n with burned := some flag } else n := by
    intro flag hany
    refine ((List.map_congr_left fun n hn => ?_).trans (List.map_id _)).symm
    split
    · next hkey =>
        by_cases hflag : n.burned = some flag
        · rw [id, ← hflag]
        · refine absurd (List.any_eq_true.mpr ⟨n, hn, ?_⟩) hany
          rw [hkey, bne_iff_ne.mpr hflag]
          rfl
    · rfl
  unfold applyLifecycleEvent
  cases hmint : e.mint with
  | true =>
      rw [if_pos rfl]
      split
      · rfl
      · next hany => exact hkept false hany
  | false =>
      rw [if_neg Bool.false_ne_true]
      split
      · rfl
      · next hany => exact hkept true hany

theorem changeSupply_keys (s : EventDb) (k : SeriesKey) (change : Int → Int) :
    (s.changeSupply k change).series.map SeriesRow.key =
      s.series.map SeriesRow.key := by
  rw [changeSupply, List.map_map]
  refine List.map_congr_left fun r _ => ?_
  rw [Function.comp_apply]
  split <;> rfl

theorem hasBurn_iff {k : TokenKey} : s.hasBurn k = true ↔
    ∃ c ∈ s.fixed.1, c.2.kind = .tokenBurn ∧ c.2.token = some k := by
  rw [hasBurn, List.any_eq_true]
  constructor
  · rintro ⟨r, hr, hboth⟩
    rw [Bool.and_eq_true, decide_eq_true_eq, beq_iff_eq] at hboth
    exact ⟨r.core, List.mem_map_of_mem hr, hboth⟩
  · rintro ⟨c, hc, hboth⟩
    obtain ⟨r, hr, rfl⟩ := List.mem_map.mp hc
    refine ⟨r, hr, ?_⟩
    rw [Bool.and_eq_true, decide_eq_true_eq, beq_iff_eq]
    exact hboth

/-- A token that the marker burns, read off what the upserts gave the events. -/
theorem mem_burnTokens {tx : Int} {k : TokenKey} :
    k ∈ s.burnTokens tx ↔ ∃ e, (tx, e) ∈ s.fixed.1 ∧ e.token = some k ∧
      s.notKcal e.contract = true ∧ (e.kind = .tokenBurn ∨
        ∃ c ∈ s.fixed.1, c.2.kind = .tokenBurn ∧ c.2.token = some k) := by
  rw [burnTokens, List.mem_dedup, List.mem_filterMap]
  constructor
  · rintro ⟨r, hr, hmarked⟩
    obtain ⟨hr, htx⟩ := List.mem_filter.mp hr
    obtain ⟨k', htoken, hif⟩ := Option.bind_eq_some_iff.mp hmarked
    split at hif
    · next hall =>
        cases hif
        rw [Bool.and_eq_true, Bool.or_eq_true, decide_eq_true_eq, hasBurn_iff]
          at hall
        refine ⟨r.event, ?_, htoken, hall⟩
        rw [← beq_iff_eq.mp htx]
        exact List.mem_map_of_mem hr
    · cases hif
  · rintro ⟨e, he, htoken, hall⟩
    obtain ⟨r, hr, hcore⟩ := List.mem_map.mp he
    cases hcore
    refine ⟨r, List.mem_filter.mpr ⟨hr, beq_self_eq_true _⟩, ?_⟩
    rw [htoken, Option.bind_some, if_pos]
    rw [Bool.and_eq_true, Bool.or_eq_true, decide_eq_true_eq, hasBurn_iff]
    exact hall

/-- A mark of a column: set where the token is among those burned. -/
def marked (ks : List TokenKey) (token : Option TokenKey)
    (burned : Option Bool) : Option Bool :=
  if token.any fun k => ks.contains k then some true else burned

theorem marked_of_mem {ks : List TokenKey} {k : TokenKey} (hk : k ∈ ks)
    (burned : Option Bool) : marked ks (some k) burned = some true := by
  rw [marked, Option.any_some, List.contains_iff_mem.mpr hk, if_pos rfl]

theorem marked_of_notMem {ks : List TokenKey} {token : Option TokenKey}
    (hk : ∀ k, token = some k → k ∉ ks) (burned : Option Bool) :
    marked ks token burned = burned := by
  rw [marked, if_neg]
  intro hany
  obtain ⟨k, htoken, hmem⟩ := (Option.any_eq_true _ _).mp hany
  exact hk k htoken (List.contains_iff_mem.mp hmem)

theorem foldl_markBurned_eq (ks : List TokenKey) :
    ks.foldl markBurned s =
      { s with
        events := s.events.map fun r =>
          { r with burned := marked ks r.event.token r.burned }
        nfts := s.nfts.map fun n =>
          { n with burned := marked ks (some n.key) n.burned } } := by
  have hcons : ∀ (k : TokenKey) ks token burned,
      marked ks token (if token == some k then some true else burned) =
        marked (k :: ks) token burned := by
    intro k ks token burned
    unfold marked
    cases token with
    | none => rfl
    | some k' =>
        rw [Option.any_some, Option.any_some, List.contains_cons,
          Option.some_beq_some]
        cases k' == k <;> simp
  induction ks generalizing s with
  | nil =>
      have hnone : ∀ token burned, marked [] token burned = burned := by
        intro token burned
        unfold marked
        cases token <;> rfl
      simp only [hnone, List.map_id', List.foldl_nil]
  | cons k ks ih =>
      rw [List.foldl_cons, ih]
      unfold markBurned
      dsimp only
      rw [List.map_map, List.map_map]
      congr 1
      · refine List.map_congr_left fun r _ => ?_
        rw [Function.comp_apply, ← hcons]
        split <;> rfl
      · refine List.map_congr_left fun n _ => ?_
        rw [Function.comp_apply, ← hcons, Option.some_beq_some]
        split <;> rfl

/-! ## A transaction -/

theorem Filled.upsertTokens {hash : String} (h : s.Filled hash) (tx : Int) :
    (s.upsertTokens sql tx).Filled hash ∧
      (s.upsertTokens sql tx).notKcal hash = s.notKcal hash := by
  obtain ⟨hfilled, hkcal⟩ := h.fillContracts
    ((s.tokenCreateValues tx).map TokenCreate.symbol).dedup
  unfold EventDb.upsertTokens
  dsimp only
  generalize s.fillContracts
    ((s.tokenCreateValues tx).map TokenCreate.symbol).dedup = t at hfilled hkcal ⊢
  obtain ⟨hfilled', hkcal'⟩ := hfilled.congr (foldl_keeps (f := upsertToken)
    (g := contracts) (fun _ _ => rfl) (t.tokenRows sql
      (s.tokenCreateValues tx)) t)
  exact ⟨hfilled', hkcal'.trans hkcal⟩

theorem Filled.withTokens {hash : String} (h : s.Filled hash) :
    (s.withTokens sql b).Filled hash ∧
      (s.withTokens sql b).notKcal hash = s.notKcal hash := by
  obtain ⟨hfilled, hkcal⟩ := @Filled.upsertTokens s sql _ h b.transactionId
  unfold EventDb.withTokens
  dsimp only
  split
  · obtain ⟨hfilled', hkcal'⟩ := hfilled.fillContracts _
    exact ⟨hfilled', hkcal'.trans hkcal⟩
  · exact ⟨hfilled, hkcal⟩

theorem withSupply_contracts :
    (s.withSupply sql b).contracts = (s.withTokens sql b).contracts := by
  have hsupply := s.withSupply_butNfts sql b
  have hseries := s.withSeries_butSeries sql b
  simp only [butNfts, butSeries, Prod.mk.injEq] at hsupply hseries
  have hnfts : (s.withNfts sql b).contracts = (s.withSeries sql b).contracts := by
    unfold withNfts
    split
    · have hinsert := (s.withSeries sql b).insertNfts_butNfts b.transactionId
      simp only [butNfts, Prod.mk.injEq] at hinsert
      exact hinsert.2.1
    · rfl
  exact hsupply.2.1.trans (hnfts.trans hseries.2.1)

theorem sideEffects_contracts :
    (s.applyBlockEventSideEffects sql b).contracts =
      (s.withTokens sql b).contracts := by
  have hsupply : (s.withSupply sql b).contracts =
      (s.withTokens sql b).contracts := withSupply_contracts
  rw [← hsupply, applyBlockEventSideEffects_eq]
  split
  · have hmarks := (s.withSupply sql b).applyBurnMarkers_butMarks
      b.transactionId
    simp only [butMarks, Prod.mk.injEq] at hmarks
    exact hmarks.1
  · rfl

theorem Filled.withSupply {hash : String} (h : s.Filled hash) :
    (s.withSupply sql b).Filled hash ∧
      (s.withSupply sql b).notKcal hash = s.notKcal hash := by
  have htokens : (s.withTokens sql b).Filled hash ∧
      (s.withTokens sql b).notKcal hash = s.notKcal hash := h.withTokens
  have hcontracts : (s.withSupply sql b).contracts =
      (s.withTokens sql b).contracts := withSupply_contracts
  obtain ⟨hfilled, hkcal⟩ := htokens.1.congr hcontracts
  exact ⟨hfilled, hkcal.trans htokens.2⟩

theorem Filled.sideEffects {hash : String} (h : s.Filled hash) :
    (s.applyBlockEventSideEffects sql b).Filled hash := by
  have htokens : (s.withTokens sql b).Filled hash ∧ _ := h.withTokens
  exact (htokens.1.congr sideEffects_contracts).1

/-- Where the gate is closed the marker has nothing to burn. -/
theorem sideEffects_eq_markers (hb : s.Stores b) :
    s.applyBlockEventSideEffects sql b =
      (s.withSupply sql b).applyBurnMarkers b.transactionId := by
  rw [applyBlockEventSideEffects_eq]
  split
  · rfl
  · next hgate =>
      have hnone : (s.withSupply sql b).burnTokens b.transactionId = [] := by
        refine List.eq_nil_iff_forall_not_mem.mpr fun k hk => hgate ?_
        rw [mem_burnTokens, s.withSupply_fixed sql b] at hk
        obtain ⟨e, he, htoken, -, -⟩ := hk
        exact List.any_eq_true.mpr
          ⟨e, (hb e).mp he, tokenId_isSome htoken⟩
      rw [applyBurnMarkers, hnone, List.foldl_nil]

/-- The rows of the transaction are linked, the others are as they were. -/
theorem withSupply_events (hb : s.Waiting b) :
    (s.withSupply sql b).events = s.events.map fun r =>
      if r.transactionId = b.transactionId then
        { r with nft := s.linkNamed sql b r.event }
      else r := by
  have hsupply := s.withSupply_butNfts sql b
  simp only [butNfts, Prod.mk.injEq] at hsupply
  have hlinked := @withNfts_eventsOf s sql b hb
  rw [hsupply.1]
  obtain ⟨f, hf, hcore, hothers⟩ : ∃ f : TokenEventRow → TokenEventRow,
      (s.withNfts sql b).events = s.events.map f ∧
      (∀ r, (f r).transactionId = r.transactionId) ∧
      ∀ r, r.transactionId ≠ b.transactionId → f r = r := by
    unfold withNfts
    split
    · have hinsert := (s.withSeries sql b).insertNfts_butNfts b.transactionId
      simp only [butNfts, Prod.mk.injEq] at hinsert
      have hsame := hinsert.1.trans (@withSeries_events s sql b)
      refine ⟨_, congrArg (List.map _) hsame, fun r => ?_, fun r hr => ?_⟩
      · split <;> rfl
      · rw [beq_eq_false_iff_ne.mpr hr, Bool.false_and, Bool.false_and,
          if_neg Bool.false_ne_true]
    · exact ⟨id, withSeries_events.trans (List.map_id _).symm,
        fun _ => rfl, fun _ _ => rfl⟩
  rw [eventsOf, hf, List.filter_map] at hlinked
  have hkeeps : ((fun r : TokenEventRow =>
      r.transactionId == b.transactionId) ∘ f) =
      fun r => r.transactionId == b.transactionId := by
    funext r
    rw [Function.comp_apply, hcore]
  rw [hkeeps] at hlinked
  rw [hf]
  refine List.map_congr_left fun r hr => ?_
  split
  · next htx =>
      refine List.map_inj_left.mp hlinked r (List.mem_filter.mpr ⟨hr, ?_⟩)
      exact beq_iff_eq.mpr htx
  · next htx => exact hothers r htx

/-- A row after the side effects is a row from before, linked and marked. -/
theorem mem_sideEffects (hb : s.Waiting b) {r : TokenEventRow}
    (hr : r ∈ (s.applyBlockEventSideEffects sql b).events) :
    ∃ r' ∈ s.events, r.transactionId = r'.transactionId ∧
      r.event = r'.event ∧
      r.nft = (if r'.transactionId = b.transactionId then
        s.linkNamed sql b r'.event else r'.nft) ∧
      r.burned = marked ((s.withSupply sql b).burnTokens b.transactionId)
        r'.event.token r'.burned := by
  rw [sideEffects_eq_markers hb.stores, applyBurnMarkers,
    foldl_markBurned_eq] at hr
  dsimp only at hr
  rw [withSupply_events hb, List.map_map] at hr
  obtain ⟨r', hr', rfl⟩ := List.mem_map.mp hr
  refine ⟨r', hr', ?_⟩
  rw [Function.comp_apply]
  split <;> exact ⟨rfl, rfl, rfl, rfl⟩

theorem sideEffects_keys :
    (s.applyBlockEventSideEffects sql b).events.map TokenEventRow.key =
      s.events.map TokenEventRow.key := by
  have hcores : ∀ s : EventDb, s.events.map TokenEventRow.key =
      s.fixed.1.map fun c => (c.1, c.2.eventIndex) := by
    intro s
    rw [fixed, List.map_map]
    rfl
  rw [hcores, hcores, applyBlockEventSideEffects_fixed]

/-! ## The transactions of a block -/

/-- Another transaction of the block waits on. -/
theorem Waiting.sideEffects {b' : EventBatch} (h : s.Waiting b')
    (hb : s.Waiting b) (hne : b'.transactionId ≠ b.transactionId) :
    (s.applyBlockEventSideEffects sql b).Waiting b' := by
  refine ⟨h.indexes, ?_, fun r hr htx => ?_,
    fun e he => (h.filled e he).sideEffects⟩
  · rw [Stores, applyBlockEventSideEffects_fixed]
    exact h.stores
  · obtain ⟨r', hr', hid, -, hnft, -⟩ := mem_sideEffects hb hr
    rw [hid] at htx
    rw [hnft, if_neg fun heq => hne (htx.symm.trans heq)]
    exact h.unlinked r' hr' htx

theorem foldl_upsertEvent_filled {rows : List TokenEventRow} {hash : String}
    (h : s.Filled hash ∨ ∃ r ∈ rows, r.event.contract = hash) :
    (rows.foldl upsertEvent s).Filled hash := by
  induction rows generalizing s with
  | nil =>
      rcases h with h | ⟨r, hr, -⟩
      · exact h
      · cases hr
  | cons r rows ih =>
      refine ih ?_
      have hfirst : ∀ t : EventDb, t.Filled hash →
          t.contracts = (s.upsertEvent r).contracts →
          (s.upsertEvent r).Filled hash :=
        fun t ht hsame => (ht.congr hsame.symm).1
      rcases h with h | ⟨r', hr', rfl⟩
      · exact .inl (hfirst _ (h.fillContract r.event.contract) rfl)
      · rcases List.mem_cons.mp hr' with rfl | hr'
        · exact .inl (hfirst _ (s.fillContract_filled r'.event.contract) rfl)
        · exact .inr ⟨r', hr', rfl⟩

theorem insertBlockEvents_waiting {batches : List EventBatch}
    (h : EventBatchesOk batches) (hb : b ∈ batches) :
    (s.insertBlockEvents batches).Waiting b where
  indexes := h.indexes b hb
  stores := s.insertBlockEvents_stores h hb
  unlinked := by
    intro r hr htx
    rcases (s.mem_insertBlockEvents h).mp hr with hr | ⟨-, hid⟩
    · obtain ⟨b', -, e, -, rfl⟩ := mem_batchRows.mp hr
      rfl
    · exact absurd (htx ▸ List.mem_map_of_mem hb) hid
  filled := by
    intro e he
    refine foldl_upsertEvent_filled (.inr ⟨_, mem_batchRows.mpr
      ⟨b, hb, e, he, rfl⟩, rfl⟩)

theorem insertBlockEvents_keys (batches : List EventBatch)
    (h : (s.events.map TokenEventRow.key).Nodup) :
    ((s.insertBlockEvents batches).events.map TokenEventRow.key).Nodup := by
  rw [insertBlockEvents_events]
  have hrun : ∀ rows t : List TokenEventRow,
      (t.map TokenEventRow.key).Nodup →
      ((rows.foldl (fun t r => upsertRow (fun y => y.key == r.key) r t) t).map
        TokenEventRow.key).Nodup := by
    intro rows
    induction rows with
    | nil => exact fun _ ht => ht
    | cons r rows ih => exact fun t ht => ih _ (nodup_upsertRow ht r)
  exact hrun _ _ (h.sublist (List.filter_sublist.map _))

end EventDb

end Explorer.Ref
