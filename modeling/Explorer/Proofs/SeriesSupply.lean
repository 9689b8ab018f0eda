import Explorer.Proofs.EventStages

/-!
# The supply of a series

`current_supply` moves where the lifecycle loop moves a flag, so after each
round the counter is what it was meant to be: the number of NFTs of the series
with `burned = FALSE`. Three statements can part the two. A mint that names
another series takes a counted NFT along and leaves the counters alone; a burn
of an NFT whose flag is NULL takes one off the counter though it was not
counted; and the burn marker sets the flag of any NFT with a stored burn,
minted again or not, and has no counter to move.

`SupplyStepOk` says of a transaction and the rows before it that none of the
three happens, and the counter is then exact after any run.
-/

namespace Explorer.Ref

open Explorer.Lib

/-- The NFT counts for the series. -/
def NftRow.countsIn (n : NftRow) (k : SeriesKey) : Bool :=
  n.series == some k && n.burned == some false

theorem NftRow.countsIn_iff {n : NftRow} {k : SeriesKey} :
    n.countsIn k = true ↔ n.series = some k ∧ n.burned = some false := by
  rw [countsIn, Bool.and_eq_true, beq_iff_eq, beq_iff_eq]

namespace EventDb

/-- Every `current_supply` is the number of NFTs of the series with
`burned = FALSE`. -/
def SupplyExact (s : EventDb) : Prop :=
  ∀ r ∈ s.series, r.currentSupply = s.nfts.countP fun n => n.countsIn r.key

/-- What the unique indexes and the foreign key of the tables say. -/
structure KeysOk (s : EventDb) : Prop where
  events : (s.events.map TokenEventRow.key).Nodup
  nfts : (s.nfts.map NftRow.key).Nodup
  nftSeries : ∀ n ∈ s.nfts, ∀ k, n.series = some k →
    k ∈ s.series.map SeriesRow.key

/-- The part of both that NFTs and series decide. -/
structure Counted (s : EventDb) : Prop where
  nfts : (s.nfts.map NftRow.key).Nodup
  nftSeries : ∀ n ∈ s.nfts, ∀ k, n.series = some k →
    k ∈ s.series.map SeriesRow.key
  supply : s.SupplyExact

variable {s : EventDb}

theorem Counted.congr (h : s.Counted) {s' : EventDb} (hnfts : s'.nfts = s.nfts)
    (hseries : s'.series = s.series) : s'.Counted := by
  refine ⟨?_, ?_, ?_⟩
  · rw [hnfts]
    exact h.nfts
  · rw [hnfts, hseries]
    exact h.nftSeries
  · rw [SupplyExact, hnfts, hseries]
    exact h.supply

/-! ## Statements that count nothing anew -/

theorem Counted.insertSeries (h : s.Counted) (k : SeriesKey) :
    (s.insertSeries k).Counted := by
  unfold EventDb.insertSeries
  split
  · exact h
  · next hnew =>
      have hno : k ∉ s.series.map SeriesRow.key := by
        intro hk
        obtain ⟨r, hr, rfl⟩ := List.mem_map.mp hk
        exact hnew (List.any_eq_true.mpr ⟨r, hr, beq_self_eq_true _⟩)
      refine ⟨h.nfts, fun n hn k' hk' => ?_, fun r hr => ?_⟩
      · rw [List.map_append]
        exact List.mem_append_left _ (h.nftSeries n hn k' hk')
      · rcases List.mem_append.mp hr with hr | hr
        · exact h.supply r hr
        · rw [List.mem_singleton.mp hr]
          refine (Int.natCast_eq_zero.mpr (List.countP_eq_zero.mpr ?_)).symm
          intro n hn hcounts
          exact hno (h.nftSeries n hn k (NftRow.countsIn_iff.mp hcounts).1)

theorem Counted.foldl_insertSeries (h : s.Counted) (ks : List SeriesKey) :
    (ks.foldl EventDb.insertSeries s).Counted := by
  induction ks generalizing s with
  | nil => exact h
  | cons k ks ih => exact ih (h.insertSeries k)

theorem Counted.insertNft (h : s.Counted) (k : TokenKey) :
    (s.insertNft k).Counted := by
  have hkeys := insertNft_keys h.nfts k
  unfold EventDb.insertNft at hkeys ⊢
  split
  · exact h
  · next hnew =>
      rw [if_neg hnew] at hkeys
      refine ⟨hkeys, fun n hn k' hk' => ?_, fun r hr => ?_⟩
      · rcases List.mem_append.mp hn with hn | hn
        · exact h.nftSeries n hn k' hk'
        · rw [List.mem_singleton.mp hn] at hk'
          cases hk'
      · rw [List.countP_append, List.countP_singleton]
        exact h.supply r hr

theorem Counted.foldl_insertNft (h : s.Counted) (ks : List TokenKey) :
    (ks.foldl EventDb.insertNft s).Counted := by
  induction ks generalizing s with
  | nil => exact h
  | cons k ks ih => exact ih (h.insertNft k)

/-- An update of `nfts` that changes for no NFT what it counts for. -/
theorem Counted.mapNfts (h : s.Counted) {f : NftRow → NftRow}
    (hkey : ∀ n, (f n).key = n.key)
    (hseries : ∀ n ∈ s.nfts, ∀ k, (f n).series = some k →
      k ∈ s.series.map SeriesRow.key)
    (hcounts : ∀ n ∈ s.nfts, ∀ k, (f n).countsIn k = n.countsIn k) :
    ({ s with nfts := s.nfts.map f } : EventDb).Counted := by
  refine ⟨?_, fun n hn k hk => ?_, fun r hr => ?_⟩
  · rw [List.map_map, show NftRow.key ∘ f = NftRow.key from funext hkey]
    exact h.nfts
  · obtain ⟨n', hn', rfl⟩ := List.mem_map.mp hn
    exact hseries n' hn' k hk
  · have hsame : (s.nfts.map f).countP (fun n => n.countsIn r.key) =
        s.nfts.countP fun n => n.countsIn r.key := by
      rw [List.countP_map]
      refine List.countP_congr fun n hn => ?_
      rw [Function.comp_apply, hcounts n hn]
    exact (h.supply r hr).trans (congrArg Nat.cast hsame.symm)

/-! ## A round of the lifecycle loop -/

/-- A flag that is written, and what it does to one count. -/
theorem Counted.setBurned (h : s.Counted) {n : NftRow} (hn : n ∈ s.nfts)
    {k : SeriesKey} (hseries : n.series = some k) (flag : Bool)
    {change : Int → Int}
    (hchange : change (s.nfts.countP fun n => n.countsIn k) +
        (n.countsIn k).toNat =
      (s.nfts.countP fun n => n.countsIn k) + (!flag).toNat) :
    ((s.setBurned n.key flag).changeSupply k change).Counted := by
  have hcount : ∀ k', ((s.setBurned n.key flag).nfts.countP fun n =>
      n.countsIn k') + (n.countsIn k').toNat =
      (s.nfts.countP fun n => n.countsIn k') +
        (({ n with burned := some flag } : NftRow).countsIn k').toNat :=
    fun k' => countP_map_key h.nfts hn _ _
  have hkeys : (s.setBurned n.key flag).nfts.map NftRow.key =
      s.nfts.map NftRow.key := by
    rw [EventDb.setBurned, List.map_map]
    refine List.map_congr_left fun n' _ => ?_
    rw [Function.comp_apply]
    split <;> rfl
  refine ⟨hkeys ▸ h.nfts, fun n' hn' k' hk' => ?_, fun r hr => ?_⟩
  · rw [changeSupply_keys]
    obtain ⟨n'', hn'', rfl⟩ := List.mem_map.mp hn'
    refine h.nftSeries n'' hn'' k' ?_
    split at hk' <;> exact hk'
  · obtain ⟨r, hmem, rfl⟩ := List.mem_map.mp hr
    have hsupply := h.supply r hmem
    by_cases hkey : r.key = k
    · subst hkey
      have hself : ({ n with burned := some flag } : NftRow).countsIn r.key =
          !flag := by
        rw [NftRow.countsIn]
        dsimp only
        rw [hseries, beq_self_eq_true, Bool.true_and]
        cases flag <;> rfl
      have hcount := hcount r.key
      rw [hself] at hcount
      rw [if_pos (beq_self_eq_true _), hsupply]
      dsimp only [changeSupply]
      omega
    · have hother : ∀ flag : Option Bool,
          ({ n with burned := flag } : NftRow).countsIn r.key = false := by
        intro flag
        rw [Bool.eq_false_iff]
        intro hcounts
        have := (NftRow.countsIn_iff.mp hcounts).1
        rw [hseries] at this
        exact hkey (Option.some.inj this).symm
      have hcount := hcount r.key
      rw [hother (some flag), show n.countsIn r.key = false from
        hother n.burned] at hcount
      rw [if_neg fun hbeq => hkey (beq_iff_eq.mp hbeq), hsupply]
      dsimp only [changeSupply]
      omega

/-- A round that does not burn what was never counted keeps the count. -/
theorem Counted.applyLifecycleEvent (h : s.Counted) {e : LifecycleEvent}
    (hseries : ∀ n ∈ s.nfts, n.key = e.nft → n.series = some e.series)
    (hburn : e.mint = false → ∀ n ∈ s.nfts, n.key = e.nft → n.burned = none →
      ∀ n' ∈ s.nfts, n'.countsIn e.series = false) :
    (s.applyLifecycleEvent e).Counted := by
  unfold EventDb.applyLifecycleEvent
  cases hmint : e.mint with
  | true =>
      rw [if_pos rfl]
      split
      · next hany =>
          obtain ⟨n, hn, hboth⟩ := List.any_eq_true.mp hany
          rw [Bool.and_eq_true, beq_iff_eq, bne_iff_ne] at hboth
          have hout : n.countsIn e.series = false :=
            Bool.eq_false_iff.mpr fun hc =>
              hboth.2 (NftRow.countsIn_iff.mp hc).2
          rw [← hboth.1]
          refine h.setBurned hn (hseries n hn hboth.1) false ?_
          rw [hout]
          rfl
      · exact h
  | false =>
      rw [if_neg Bool.false_ne_true]
      split
      · next hany =>
          obtain ⟨n, hn, hboth⟩ := List.any_eq_true.mp hany
          rw [Bool.and_eq_true, beq_iff_eq, bne_iff_ne] at hboth
          have hin := hseries n hn hboth.1
          rw [← hboth.1]
          refine h.setBurned hn hin true ?_
          cases hflag : n.burned with
          | none =>
              -- not counted, so the counter must have nothing to give
              have hnone := hburn hmint n hn hboth.1 hflag
              have hzero : (s.nfts.countP fun n => n.countsIn e.series) = 0 :=
                List.countP_eq_zero.mpr fun n' hn' hc => by
                  rw [hnone n' hn'] at hc
                  cases hc
              rw [hzero, hnone n hn]
              rfl
          | some flag =>
              have hfalse : flag = false := by
                cases flag with
                | false => rfl
                | true => exact absurd hflag hboth.2
              have hcounts : n.countsIn e.series = true :=
                NftRow.countsIn_iff.mpr ⟨hin, hfalse ▸ hflag⟩
              have hpos : 0 < s.nfts.countP fun n => n.countsIn e.series :=
                List.countP_pos_iff.mpr ⟨n, hn, hcounts⟩
              rw [hcounts, if_pos (by omega)]
              simp
      · exact h

/-! ## What a transaction says -/

variable (sql : SqlServer) (s) (b : EventBatch)

/-- Its mints and burns of non-fungible tokens, in order. -/
def lifecycleNamed : List TokenEvent :=
  (b.events.insertionSort fun a b => a.eventIndex ≤ b.eventIndex).filter
    fun e => (e.kind == .tokenMint || e.kind == .tokenBurn) &&
      e.tokenId.isSome &&
      (s.upsertTokens sql b.transactionId).nonFungible e.contract

def nftOf (k : TokenKey) : Option NftRow := s.nfts.find? fun n => n.key == k

/-- The series of an NFT, where a mint of the transaction names one that. -/
def seriesAfter (k : TokenKey) : Option SeriesKey :=
  (mintSeries sql (s.seriesNamed sql b) k).or ((s.nftOf k).bind NftRow.series)

/-- The flag of an NFT after some mints and burns: what the last of them
says, or what is stored. -/
def flagAfter (events : List TokenEvent) (k : TokenKey) : Option Bool :=
  events.foldl (fun flag e =>
    if e.token = some k then some (e.kind == .tokenBurn) else flag)
    ((s.nftOf k).bind NftRow.burned)

/-- The transaction does not part counters and flags. -/
structure SupplyStepOk : Prop where
  /-- No counted NFT is given another series. -/
  moves : ∀ n ∈ s.nfts, n.burned = some false →
    s.seriesAfter sql b n.key = n.series
  /-- A burn of an NFT with no flag yet finds its series without counted
  ones. -/
  burns : ∀ before e after,
    s.lifecycleNamed sql b = before ++ e :: after → e.kind = .tokenBurn →
    ∀ k, e.token = some k → s.flagAfter before k = none →
    ∀ series, s.seriesAfter sql b k = some series →
    ∀ k', s.seriesAfter sql b k' = some series →
      s.flagAfter before k' ≠ some false
  /-- What the marker burns is burned by then. -/
  marks : ∀ k ∈ s.burnTokens b.transactionId,
    (s.seriesAfter sql b k).isSome = true →
      s.flagAfter (s.lifecycleNamed sql b) k ≠ some false

/-! ## What the loop starts from -/

variable {sql s b}

theorem Counted.withSeries (h : s.Counted) : (s.withSeries sql b).Counted := by
  have htokens := s.withTokens_butTokens sql b
  simp only [butTokens, Prod.mk.injEq] at htokens
  have h := h.congr htokens.2.1 htokens.2.2.1
  unfold EventDb.withSeries
  split
  · exact h.foldl_insertSeries _
  · exact h

theorem Counted.withNfts (h : s.Counted) : (s.withNfts sql b).Counted := by
  unfold EventDb.withNfts
  split
  · exact (h.withSeries.foldl_insertNft _).congr rfl rfl
  · exact h.withSeries

/-- Stored or new, the row is what was stored under its key, or blank. -/
theorem nftOf_withNfts (h : s.Counted) {n : NftRow}
    (hn : n ∈ (s.withNfts sql b).nfts) :
    (s.nftOf n.key).bind NftRow.series = n.series ∧
      (s.nftOf n.key).bind NftRow.burned = n.burned := by
  rcases mem_withNfts hn with hn | ⟨hnew, hblank⟩
  · have hfind : s.nftOf n.key = some n :=
      (find?_key_eq_some h.nfts).mpr ⟨hn, rfl⟩
    rw [hfind]
    exact ⟨rfl, rfl⟩
  · have hfind : s.nftOf n.key = none := by
      refine List.find?_eq_none.mpr fun n' hn' hkey => hnew ?_
      exact List.mem_map.mpr ⟨n', hn', beq_iff_eq.mp hkey⟩
    rw [hfind, hblank]
    exact ⟨rfl, rfl⟩

/-- What the lifecycle loop starts from: each NFT under the series that the
transaction leaves it in, with the flag that was stored. -/
structure Prepared (sql : SqlServer) (s : EventDb) (b : EventBatch)
    (t : EventDb) : Prop where
  counted : t.Counted
  series : ∀ n ∈ t.nfts, n.series = s.seriesAfter sql b n.key
  burned : ∀ n ∈ t.nfts, n.burned = (s.nftOf n.key).bind NftRow.burned

theorem prepared_withMints (hb : s.Waiting b) (h : s.Counted)
    (hok : s.SupplyStepOk sql b) :
    s.Prepared sql b (s.withMints sql b) := by
  have hstored : ∀ n ∈ (s.withNfts sql b).nfts,
      s.seriesAfter sql b n.key =
        (mintSeries sql (s.seriesNamed sql b) n.key).or n.series := by
    intro n hn
    rw [seriesAfter, (nftOf_withNfts h hn).1]
  unfold withMints
  split
  · next hgate =>
      have hvalues : (s.withNfts sql b).mintValues b.transactionId =
          s.seriesNamed sql b := mintValues_withNfts hb
      obtain ⟨values, hnamed⟩ : ∃ values, values = s.seriesNamed sql b :=
        ⟨_, rfl⟩
      rw [← hnamed] at hvalues hstored
      rw [applyMintExtended_eq, hvalues]
      obtain ⟨t, ht⟩ : ∃ t, t = (values.map Prod.snd).foldl insertSeries
        (s.withNfts sql b) := ⟨_, rfl⟩
      have hcounted : t.Counted := ht ▸ h.withNfts.foldl_insertSeries _
      have hbut := foldl_insertSeries_butSeries (s.withNfts sql b)
        (values.map Prod.snd)
      simp only [butSeries, Prod.mk.injEq] at hbut
      have hnfts : t.nfts = (s.withNfts sql b).nfts := ht ▸ hbut.2.2.2.1
      rw [← ht]
      refine ⟨hcounted.mapNfts (fun _ => rfl) ?_ ?_, ?_, ?_⟩
      · intro n hn k hk
        dsimp only at hk
        cases hmint : mintSeries sql values n.key with
        | none =>
            rw [hmint, Option.none_or] at hk
            exact hcounted.nftSeries n hn k hk
        | some k' =>
            rw [hmint, Option.some_or] at hk
            rw [ht]
            refine mem_foldl_insertSeries (.inr ?_)
            rw [← Option.some.inj hk]
            exact List.mem_map_of_mem (mem_of_mintSeries hmint)
      · intro n hn k
        rw [hnfts] at hn
        unfold NftRow.countsIn
        dsimp only
        rw [← hstored n hn]
        by_cases hflag : n.burned = some false
        · rcases mem_withNfts hn with hn | ⟨-, hblank⟩
          · rw [hok.moves n hn hflag]
          · rw [hblank] at hflag
            cases hflag
        · rw [beq_eq_false_iff_ne.mpr hflag, Bool.and_false, Bool.and_false]
      · intro n hn
        obtain ⟨n', hn', rfl⟩ := List.mem_map.mp hn
        rw [hnfts] at hn'
        exact (hstored n' hn').symm
      · intro n hn
        obtain ⟨n', hn', rfl⟩ := List.mem_map.mp hn
        rw [hnfts] at hn'
        exact (nftOf_withNfts h hn').2.symm
  · next hgate =>
      have hnone : s.seriesNamed sql b = [] := by
        refine List.filterMap_eq_nil_iff.mpr fun r hr => ?_
        have he := hb.stores.mem_eventsOf.mp ⟨r, hr, rfl⟩
        have hid : r.event.mintSeriesId = none := by
          cases hid : r.event.mintSeriesId with
          | none => rfl
          | some id =>
              refine absurd (List.any_eq_true.mpr ⟨_, he, ?_⟩) hgate
              rw [hid]
              rfl
        rw [hid]
        split
        · cases r.event.token <;> rfl
        · rfl
      refine ⟨h.withNfts, fun n hn => ?_, fun n hn =>
        (nftOf_withNfts h hn).2.symm⟩
      rw [hstored n hn, hnone]
      rfl

/-! ## The loop and the marker -/

/-- What the loop does for a mint or burn. -/
def roundOf (sql : SqlServer) (s : EventDb) (b : EventBatch) (e : TokenEvent) :
    Option LifecycleEvent :=
  e.token.bind fun k => (s.seriesAfter sql b k).map fun series =>
    ⟨e.kind == .tokenMint, k, series⟩

theorem lifecycleEvents_withMints (hb : s.Waiting b) (h : s.Counted)
    (hkeys : (s.events.map TokenEventRow.key).Nodup)
    (hok : s.SupplyStepOk sql b) :
    (s.withMints sql b).lifecycleEvents b.transactionId =
      (s.lifecycleNamed sql b).filterMap (s.roundOf sql b) := by
  have hprepared := prepared_withMints hb h hok
  have hany : ∀ e ∈ b.events, ∀ k, s.linkNamed sql b e = some k →
      ∃ n ∈ (s.withMints sql b).nfts, n.key = k :=
    fun e he k hlink => withMints_any hb he hlink
  have hrows := @withMints_eventsOf s sql b hb
  generalize s.withMints sql b = t at hprepared hany hrows ⊢
  have hsorted : (t.eventsOf b.transactionId).insertionSort
        (fun a b => a.event.eventIndex ≤ b.event.eventIndex) =
      ((s.eventsOf b.transactionId).insertionSort
        fun a b => a.event.eventIndex ≤ b.event.eventIndex).map
          fun r => { r with nft := s.linkNamed sql b r.event } := by
    rw [hrows]
    exact (List.map_insertionSort
      (fun a b : TokenEventRow => a.event.eventIndex ≤ b.event.eventIndex)
      (fun a b : TokenEventRow => a.event.eventIndex ≤ b.event.eventIndex)
      (fun r => { r with nft := s.linkNamed sql b r.event }) _
      fun _ _ _ _ => Iff.rfl).symm
  have hevents : ((s.eventsOf b.transactionId).insertionSort
        fun a b => a.event.eventIndex ≤ b.event.eventIndex).map
          TokenEventRow.event =
      b.events.insertionSort fun a b => a.eventIndex ≤ b.eventIndex := by
    rw [← insertionSort_eventsOf hb hkeys]
    exact List.map_insertionSort
      (fun a b : TokenEventRow => a.event.eventIndex ≤ b.event.eventIndex)
      (fun a b : TokenEvent => a.eventIndex ≤ b.eventIndex)
      TokenEventRow.event _ fun _ _ _ _ => Iff.rfl
  rw [lifecycleEvents, hsorted, List.filterMap_map, lifecycleNamed,
    List.filterMap_filter, ← hevents, List.filterMap_map]
  refine List.filterMap_congr fun r hr => ?_
  rw [List.mem_insertionSort] at hr
  have he := hb.stores.mem_eventsOf.mp ⟨r, hr, rfl⟩
  have hunlinked : (t.nfts.find? fun n => some n.key == none) = none :=
    List.find?_eq_none.mpr fun n _ h => by cases h
  rw [Function.comp_apply, Function.comp_apply]
  dsimp only
  split
  · next hkind =>
      have hside : r.event.kind.isNftSideEffect = true := by
        rcases hkind with hkind | hkind <;> rw [hkind] <;> rfl
      have hbeq : (r.event.kind == .tokenMint || r.event.kind == .tokenBurn) =
          true := by
        rw [Bool.or_eq_true, beq_iff_eq, beq_iff_eq]
        exact hkind
      rw [linkNamed, hside, hbeq, Bool.and_true, Bool.true_and]
      split
      · next hnamed =>
          cases htoken : r.event.token with
          | none =>
              rw [hunlinked, roundOf, htoken]
              rfl
          | some k =>
              have hlink : s.linkNamed sql b r.event = some k := by
                rw [linkNamed, hside, Bool.and_true, hnamed, ← htoken]
                rfl
              obtain ⟨n, hn, rfl⟩ := hany _ he k hlink
              have hfind : (t.nfts.find? fun n' => some n'.key == some n.key) =
                  some n := by
                have hsame : (fun n' : NftRow => some n'.key == some n.key) =
                    fun n' => n'.key == n.key := by
                  funext n'
                  exact Option.some_beq_some
                rw [hsame]
                exact (find?_key_eq_some hprepared.counted.nfts).mpr ⟨hn, rfl⟩
              rw [hfind, roundOf, htoken, Option.bind_some, Option.bind_some,
                hprepared.series n hn]
      · rw [hunlinked]
        rfl
  · next hkind =>
      have hbeq : (r.event.kind == .tokenMint || r.event.kind == .tokenBurn) =
          false := by
        rw [Bool.eq_false_iff]
        intro h
        rw [Bool.or_eq_true, beq_iff_eq, beq_iff_eq] at h
        exact hkind h
      rw [hbeq]
      rfl

theorem flagAfter_append (s : EventDb) (events : List TokenEvent)
    (e : TokenEvent) (k : TokenKey) :
    s.flagAfter (events ++ [e]) k =
      if e.token = some k then some (e.kind == .tokenBurn)
      else s.flagAfter events k := by
  rw [flagAfter, List.foldl_append]
  rfl

/-- The rows in the middle of the loop: counted, and with the flags of the
mints and burns so far. -/
structure Halfway (sql : SqlServer) (s : EventDb) (b : EventBatch)
    (events : List TokenEvent) (t : EventDb) : Prop where
  counted : t.Counted
  series : ∀ n ∈ t.nfts, n.series = s.seriesAfter sql b n.key
  burned : ∀ n ∈ t.nfts, n.series.isSome = true →
    n.burned = s.flagAfter events n.key

theorem mem_lifecycleNamed {e : TokenEvent} (he : e ∈ s.lifecycleNamed sql b) :
    (e.kind = .tokenMint ∨ e.kind = .tokenBurn) ∧ ∃ k, e.token = some k := by
  obtain ⟨-, hall⟩ := List.mem_filter.mp he
  rw [Bool.and_eq_true, Bool.and_eq_true, Bool.or_eq_true, beq_iff_eq,
    beq_iff_eq] at hall
  obtain ⟨id, hid⟩ := Option.isSome_iff_exists.mp hall.1.2
  refine ⟨hall.1.1, ⟨e.contract, id⟩, ?_⟩
  rw [TokenEvent.token, hid]
  rfl

/-- A round of the loop. -/
theorem Halfway.round (hok : s.SupplyStepOk sql b) {before after : List TokenEvent}
    {e : TokenEvent} (hsplit : s.lifecycleNamed sql b = before ++ e :: after)
    {t : EventDb} (h : s.Halfway sql b before t) {round : LifecycleEvent}
    (hround : s.roundOf sql b e = some round) :
    s.Halfway sql b (before ++ [e]) (t.applyLifecycleEvent round) := by
  have hmem : e ∈ s.lifecycleNamed sql b := by
    rw [hsplit]
    exact List.mem_append_right _ List.mem_cons_self
  obtain ⟨hkind, k, htoken⟩ := mem_lifecycleNamed hmem
  rw [roundOf, htoken, Option.bind_some, Option.map_eq_some_iff] at hround
  obtain ⟨series, hseries, rfl⟩ := hround
  have hin : ∀ n ∈ t.nfts, n.key = k → n.series = some series := by
    rintro n hn rfl
    exact (h.series n hn).trans hseries
  have hflag : (!(e.kind == .tokenMint)) = (e.kind == .tokenBurn) := by
    rcases hkind with hkind | hkind <;> rw [hkind] <;> rfl
  refine ⟨h.counted.applyLifecycleEvent hin ?_, ?_, ?_⟩
  · intro hmint n hn hkey hnull n' hn'
    dsimp only at hmint hkey
    have hburn : e.kind = .tokenBurn := by
      rcases hkind with hkind | hkind
      · rw [hkind] at hmint
        cases hmint
      · exact hkind
    rw [Bool.eq_false_iff]
    intro hcounts
    obtain ⟨hseries', hflag'⟩ := NftRow.countsIn_iff.mp hcounts
    have hstored : s.flagAfter before k = none := by
      rw [← hkey, ← h.burned n hn (by rw [hin n hn hkey]; rfl), hnull]
    refine hok.burns before e after hsplit hburn k htoken hstored series hseries
      n'.key ?_ ?_
    · rw [← h.series n' hn', hseries']
    · rw [← h.burned n' hn' (by rw [hseries']; rfl), hflag']
  · intro n hn
    rw [applyLifecycleEvent_nfts] at hn
    obtain ⟨n', hn', rfl⟩ := List.mem_map.mp hn
    split <;> exact h.series n' hn'
  · intro n hn hsome
    rw [applyLifecycleEvent_nfts] at hn
    obtain ⟨n', hn', rfl⟩ := List.mem_map.mp hn
    rw [flagAfter_append, htoken]
    split
    · next hkey =>
        dsimp only
        rw [if_pos (congrArg some (beq_iff_eq.mp hkey).symm), hflag]
    · next hkey =>
        rw [if_neg hkey] at hsome
        rw [if_neg fun heq => hkey (beq_iff_eq.mpr (Option.some.inj heq).symm)]
        exact h.burned n' hn' hsome

/-- A mint or burn of an NFT that is in no series. -/
theorem Halfway.skip {before : List TokenEvent} {e : TokenEvent} {t : EventDb}
    (hmem : e ∈ s.lifecycleNamed sql b) (h : s.Halfway sql b before t)
    (hround : s.roundOf sql b e = none) :
    s.Halfway sql b (before ++ [e]) t := by
  obtain ⟨-, k, htoken⟩ := mem_lifecycleNamed hmem
  rw [roundOf, htoken, Option.bind_some, Option.map_eq_none_iff] at hround
  refine ⟨h.counted, h.series, fun n hn hsome => ?_⟩
  rw [flagAfter_append, htoken, if_neg ?_]
  · exact h.burned n hn hsome
  · rintro heq
    rw [h.series n hn, ← Option.some.inj heq, hround] at hsome
    cases hsome

theorem halfway_run (hok : s.SupplyStepOk sql b) {t : EventDb}
    (h : s.Prepared sql b t) {before after : List TokenEvent}
    (hsplit : s.lifecycleNamed sql b = before ++ after) :
    s.Halfway sql b before
      ((before.filterMap (s.roundOf sql b)).foldl applyLifecycleEvent t) := by
  induction before using List.reverseRecOn generalizing after with
  | nil => exact ⟨h.counted, h.series, fun n hn _ => h.burned n hn⟩
  | append_singleton before e ih =>
      rw [List.append_assoc, List.singleton_append] at hsplit
      have ih := ih hsplit
      have hmem : e ∈ s.lifecycleNamed sql b := by
        rw [hsplit]
        exact List.mem_append_right _ List.mem_cons_self
      rw [List.filterMap_append, List.filterMap_cons, List.foldl_append]
      cases hround : s.roundOf sql b e with
      | none => exact ih.skip hmem hround
      | some round => exact ih.round hok hsplit hround

theorem halfway_withSupply (hb : s.Waiting b) (h : s.Counted)
    (hkeys : (s.events.map TokenEventRow.key).Nodup)
    (hok : s.SupplyStepOk sql b) :
    s.Halfway sql b (s.lifecycleNamed sql b) (s.withSupply sql b) := by
  have hprepared := prepared_withMints hb h hok
  unfold withSupply
  split
  · rw [applySeriesLifecycle, lifecycleEvents_withMints hb h hkeys hok]
    exact halfway_run hok hprepared (List.append_nil _).symm
  · next hgate =>
      have hnone : s.lifecycleNamed sql b = [] := by
        refine List.filter_eq_nil_iff.mpr fun e he hall => hgate ?_
        rw [List.mem_insertionSort] at he
        rw [Bool.and_eq_true, Bool.and_eq_true] at hall
        refine List.any_eq_true.mpr ⟨e, he, ?_⟩
        rw [hall.1.1, hall.1.2]
        rfl
      rw [hnone]
      exact ⟨hprepared.counted, hprepared.series,
        fun n hn _ => hprepared.burned n hn⟩

/-- Marking what is not counted. -/
theorem Counted.foldl_markBurned (h : s.Counted) {ks : List TokenKey}
    (hks : ∀ n ∈ s.nfts, n.key ∈ ks → n.series.isSome = true →
      n.burned ≠ some false) :
    (ks.foldl markBurned s).Counted := by
  rw [foldl_markBurned_eq]
  have hmap := h.mapNfts
    (f := fun n => { n with burned := marked ks (some n.key) n.burned })
    (fun _ => rfl) (fun n hn k hk => h.nftSeries n hn k hk) ?_
  · exact hmap.congr rfl rfl
  · intro n hn k
    by_cases hkey : n.key ∈ ks
    · have hout : n.countsIn k = false := by
        rw [Bool.eq_false_iff]
        intro hcounts
        obtain ⟨hseries, hflag⟩ := NftRow.countsIn_iff.mp hcounts
        exact hks n hn hkey (by rw [hseries]; rfl) hflag
      rw [hout, NftRow.countsIn]
      dsimp only
      rw [marked_of_mem hkey]
      exact Bool.and_false _
    · have hkept : marked ks (some n.key) n.burned = n.burned :=
        marked_of_notMem (fun k' hk' => Option.some.inj hk' ▸ hkey) _
      rw [hkept]

/-! ## A transaction -/

/-- The marker burns what it would burn before the other side effects. -/
theorem mem_burnTokens_withSupply (hb : s.Waiting b) {k : TokenKey}
    (hk : k ∈ (s.withSupply sql b).burnTokens b.transactionId) :
    k ∈ s.burnTokens b.transactionId := by
  rw [mem_burnTokens, s.withSupply_fixed sql b] at hk
  obtain ⟨e, he, htoken, hkcal, hburned⟩ := hk
  have hfilled := hb.filled e ((hb.stores e).mp he)
  rw [hfilled.withSupply.2] at hkcal
  exact mem_burnTokens.mpr ⟨e, he, htoken, hkcal, hburned⟩

/-- The side effects of a transaction keep the counters exact. -/
theorem sideEffects_counted (hb : s.Waiting b) (h : s.Counted)
    (hkeys : (s.events.map TokenEventRow.key).Nodup)
    (hok : s.SupplyStepOk sql b) :
    (s.applyBlockEventSideEffects sql b).Counted := by
  have hhalf := halfway_withSupply hb h hkeys hok
  rw [applyBlockEventSideEffects_eq]
  split
  · refine hhalf.counted.foldl_markBurned fun n hn hkey hsome => ?_
    rw [hhalf.burned n hn hsome]
    refine hok.marks n.key (mem_burnTokens_withSupply hb hkey) ?_
    rw [← hhalf.series n hn]
    exact hsome
  · exact hhalf.counted

end EventDb

/-! ## Runs -/

/-- Every transaction of a block meets the condition in the state that its
side effects start from. -/
def EventDb.SupplyBlockOk (sql : SqlServer) :
    EventDb → List EventBatch → Prop
  | _, [] => True
  | s, b :: batches => s.SupplyStepOk sql b ∧
      (s.applyBlockEventSideEffects sql b).SupplyBlockOk sql batches

/-- Every transaction of a run does. -/
def EventDb.SupplyRunOk :
    EventDb → List (SqlServer × List EventBatch) → Prop
  | _, [] => True
  | s, (sql, batches) :: blocks =>
      (s.insertBlockEvents batches).SupplyBlockOk sql batches ∧
        (s.projectBlockEvents sql batches).SupplyRunOk blocks

namespace EventDb

variable {s : EventDb}

theorem block_counted {sql : SqlServer} {batches : List EventBatch}
    (hids : (batches.map EventBatch.transactionId).Nodup)
    (hwaiting : ∀ b ∈ batches, s.Waiting b) (h : s.Counted)
    (hkeys : (s.events.map TokenEventRow.key).Nodup)
    (hok : s.SupplyBlockOk sql batches) :
    (batches.foldl (applyBlockEventSideEffects sql) s).Counted ∧
      ((batches.foldl (applyBlockEventSideEffects sql) s).events.map
        TokenEventRow.key).Nodup := by
  induction batches generalizing s with
  | nil => exact ⟨h, hkeys⟩
  | cons b batches ih =>
      rw [List.map_cons, List.nodup_cons] at hids
      have hkeys' : ((s.applyBlockEventSideEffects sql b).events.map
          TokenEventRow.key).Nodup := by
        rw [sideEffects_keys]
        exact hkeys
      refine ih hids.2 (fun b' hb' => ?_)
        (sideEffects_counted (hwaiting b List.mem_cons_self) h hkeys hok.1)
        hkeys' hok.2
      refine (hwaiting b' (List.mem_cons_of_mem _ hb')).sideEffects
        (hwaiting b List.mem_cons_self) ?_
      intro heq
      exact hids.1 (heq ▸ List.mem_map_of_mem hb')

theorem projectBlockEvents_counted {sql : SqlServer} {batches : List EventBatch}
    (hblock : EventBatchesOk batches) (h : s.Counted)
    (hkeys : (s.events.map TokenEventRow.key).Nodup)
    (hok : (s.insertBlockEvents batches).SupplyBlockOk sql batches) :
    (s.projectBlockEvents sql batches).Counted ∧
      ((s.projectBlockEvents sql batches).events.map
        TokenEventRow.key).Nodup := by
  have hrest := s.insertBlockEvents_rest batches
  simp only [Prod.mk.injEq] at hrest
  exact block_counted hblock.transactions
    (fun b hb => insertBlockEvents_waiting hblock hb)
    (h.congr hrest.2.1 hrest.2.2.1) (insertBlockEvents_keys batches hkeys) hok

end EventDb

/-- In every run whose transactions meet the condition, every series has the
supply that its NFTs make up. -/
theorem series_supply_exact {s : EventDb}
    {chain : List (SqlServer × List EventBatch)} (hkeys : s.KeysOk)
    (hsupply : s.SupplyExact) (hchain : ∀ block ∈ chain, EventBatchesOk block.2)
    (hrun : s.SupplyRunOk chain) :
    (s.projectBlocks chain).SupplyExact := by
  have hcounted : s.Counted := ⟨hkeys.nfts, hkeys.nftSeries, hsupply⟩
  have hevents := hkeys.events
  clear hkeys hsupply
  induction chain generalizing s with
  | nil => exact hcounted.supply
  | cons block chain ih =>
      obtain ⟨sql, batches⟩ := block
      obtain ⟨hcounted', hevents'⟩ := EventDb.projectBlockEvents_counted
        (hchain _ List.mem_cons_self) hcounted hevents hrun.1
      exact ih (fun block hblock => hchain block
        (List.mem_cons_of_mem _ hblock)) hrun.2 hcounted' hevents'

/-! ### A burn, and a mint after it -/

instance (s : EventDb) : Decidable s.SupplyExact :=
  inferInstanceAs (Decidable (∀ r ∈ s.series, _ = _))

/-- Two mints into a series of a new token, and a burn of the first. -/
def burnChain : List (SqlServer × List EventBatch) :=
  [(plainSql,
    [⟨1, [{
        eventIndex := 0, kind := .tokenCreate, contract := "token",
        address := "P2K1", timestamp := 60, create := some ⟨"CROWN", false⟩ }]⟩,
      ⟨2, [
      { eventIndex := 0, kind := .tokenMint, contract := "CROWN",
        tokenId := some "7", address := "P2K1", timestamp := 60,
        mintSeriesId := some "1" },
      { eventIndex := 1, kind := .tokenMint, contract := "CROWN",
        tokenId := some "8", address := "P2K1", timestamp := 60,
        mintSeriesId := some "1" }]⟩]),
    (plainSql,
    [⟨3, [{
        eventIndex := 0, kind := .tokenBurn, contract := "CROWN",
        tokenId := some "7", address := "P2K1", timestamp := 75 }]⟩])]

/-- The same, and another mint of the burned token. -/
def remintChain : List (SqlServer × List EventBatch) :=
  burnChain ++ [(plainSql,
    [⟨4, [{
        eventIndex := 0, kind := .tokenMint, contract := "CROWN",
        tokenId := some "7", address := "P2K1", timestamp := 90 }]⟩])]

theorem emptyDb_keysOk : ({} : EventDb).KeysOk :=
  ⟨by decide, by decide, by decide⟩

theorem burnChain_ok : ∀ block ∈ burnChain, EventBatchesOk block.2 := by
  intro block hblock
  rcases List.mem_cons.mp hblock with rfl | hblock
  · exact ⟨by decide, by decide⟩
  · rw [List.mem_singleton.mp hblock]
    exact ⟨by decide, by decide⟩

/-- Once a flag is there it stays one. -/
theorem EventDb.flagAfter_eq_none {s : EventDb} {events : List TokenEvent}
    {k : TokenKey} (h : s.flagAfter events k = none) :
    (s.nftOf k).bind NftRow.burned = none := by
  induction events using List.reverseRecOn with
  | nil => exact h
  | append_singleton events e ih =>
      rw [flagAfter_append] at h
      split at h
      · cases h
      · exact ih h

/-- The condition, where every token that is burned has its flag. -/
theorem EventDb.SupplyStepOk.of_flagged {sql : SqlServer} {s : EventDb}
    {b : EventBatch}
    (hmoves : ∀ n ∈ s.nfts, n.burned = some false →
      s.seriesAfter sql b n.key = n.series)
    (hflagged : ∀ e ∈ s.lifecycleNamed sql b, e.kind = .tokenBurn →
      ∀ k ∈ e.token, (s.nftOf k).bind NftRow.burned ≠ none)
    (hmarks : ∀ k ∈ s.burnTokens b.transactionId,
      (s.seriesAfter sql b k).isSome = true →
        s.flagAfter (s.lifecycleNamed sql b) k ≠ some false) :
    s.SupplyStepOk sql b where
  moves := hmoves
  burns := by
    intro before e after hsplit hburn k htoken hnone
    have hmem : e ∈ s.lifecycleNamed sql b := by
      rw [hsplit]
      exact List.mem_append_right _ List.mem_cons_self
    exact absurd (flagAfter_eq_none hnone) (hflagged e hmem hburn k htoken)
  marks := hmarks

theorem burnChain_runOk : ({} : EventDb).SupplyRunOk burnChain := by
  refine ⟨⟨?_, ?_, trivial⟩, ⟨?_, trivial⟩, trivial⟩
  · exact .of_flagged (by decide +kernel) (by decide +kernel)
      (by decide +kernel)
  · exact .of_flagged (by decide +kernel) (by decide +kernel)
      (by decide +kernel)
  · exact .of_flagged (by decide +kernel) (by decide +kernel)
      (by decide +kernel)

theorem series_supply_exact_burn :
    ((({} : EventDb).projectBlocks burnChain).series.map
      SeriesRow.currentSupply) = [1] ∧
    (({} : EventDb).projectBlocks burnChain).SupplyExact :=
  ⟨by decide +kernel, series_supply_exact emptyDb_keysOk (by decide)
    burnChain_ok burnChain_runOk⟩

/-- Minted again, the token is counted by the loop and then marked. -/
theorem series_supply_remint :
    ({} : EventDb).KeysOk ∧ ({} : EventDb).SupplyExact ∧
    (∀ block ∈ remintChain, EventBatchesOk block.2) ∧
    ¬(({} : EventDb).projectBlocks remintChain).SupplyExact := by
  refine ⟨emptyDb_keysOk, by decide, ?_, by decide +kernel⟩
  intro block hblock
  rcases List.mem_append.mp hblock with hblock | hblock
  · exact burnChain_ok block hblock
  · rw [List.mem_singleton.mp hblock]
    exact ⟨by decide, by decide⟩

end Explorer.Ref
