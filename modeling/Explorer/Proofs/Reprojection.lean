import Explorer.Proofs.ProjectedRows
import Explorer.Proofs.SeriesSupply

/-!
# A block projected again

The upsert clears the marks and links of a stored block, and the side effects
set them once more. Most of it comes out as it was: contracts, series and NFTs
are there, and the burn marker finds the same tokens burned. But the events
meet rows that later blocks have changed. An old mint counts a token that was
burned since, an old transfer writes over the owner of a later one at the same
time, and an event is linked by what its token is now.

`AgainOk` says of the rows and the block that none of the three happens, and
nothing has changed then.
-/

namespace Explorer.Ref

open Explorer.Lib

namespace EventDb

variable {sql : SqlServer} {s t u : EventDb} {b : EventBatch}

/-! ## Rounds that return to where they started -/

/-- The flag of an NFT after some rounds. -/
def roundsFlag (l : List LifecycleEvent) (n : NftRow) : Option Bool :=
  ((l.filter fun e => e.nft == n.key).getLast?).elim n.burned
    fun e => some !e.mint

theorem roundsFlag_append (l : List LifecycleEvent) (e : LifecycleEvent)
    (n : NftRow) : roundsFlag (l ++ [e]) n =
      if n.key == e.nft then some !e.mint else roundsFlag l n := by
  rw [roundsFlag, List.filter_append, List.filter_singleton]
  by_cases hkey : n.key = e.nft
  · rw [hkey, beq_self_eq_true, cond_true, if_pos rfl, List.getLast?_concat]
    rfl
  · rw [beq_eq_false_iff_ne.mpr hkey, beq_eq_false_iff_ne.mpr (Ne.symm hkey),
      cond_false, if_neg Bool.false_ne_true, List.append_nil]
    rfl

/-- A round of an NFT leaves it a flag. -/
theorem roundsFlag_ne_none {l : List LifecycleEvent} {n : NftRow}
    (h : n.burned ≠ none ∨ ∃ e ∈ l, e.nft = n.key) :
    roundsFlag l n ≠ none := by
  unfold roundsFlag
  cases hlast : (l.filter fun e => e.nft == n.key).getLast? with
  | some e => exact Option.some_ne_none _
  | none =>
      refine h.resolve_right fun hround => ?_
      obtain ⟨e, he, hkey⟩ := hround
      rw [List.getLast?_eq_none_iff, List.filter_eq_nil_iff] at hlast
      exact hlast e he (beq_iff_eq.mpr hkey)

/-- Mints leave an NFT with the flag FALSE as it is. -/
theorem roundsFlag_of_minted {l : List LifecycleEvent} {n : NftRow}
    (hflag : n.burned = some false)
    (hmints : ∀ e ∈ l, e.nft = n.key → e.mint = true) :
    roundsFlag l n = some false := by
  unfold roundsFlag
  cases hlast : (l.filter fun e => e.nft == n.key).getLast? with
  | none => exact hflag
  | some e =>
      obtain ⟨he, hkey⟩ := List.mem_filter.mp (List.mem_of_getLast? hlast)
      rw [Option.elim_some, hmints e he (beq_iff_eq.mp hkey)]
      rfl

/-- Rounds of NFTs in a series that end in the flags they found, with no burn
of an NFT that is counted. -/
structure RoundsReturn (t : EventDb) (l : List LifecycleEvent) : Prop where
  placed : ∀ e ∈ l, ∃ n ∈ t.nfts, n.key = e.nft ∧ n.series = some e.series
  last : ∀ n ∈ t.nfts, roundsFlag l n = n.burned
  minted : ∀ n ∈ t.nfts, n.burned = some false → ∀ e ∈ l, e.nft = n.key →
    e.mint = true

/-- Between the rounds each supply has moved with its count. -/
structure Moved (t : EventDb) (l : List LifecycleEvent) (u : EventDb) :
    Prop where
  rest : u.butNfts = t.butNfts
  nfts : u.nfts = t.nfts.map fun n => { n with burned := roundsFlag l n }
  series : u.series = t.series.map fun r =>
    { r with
      currentSupply := r.currentSupply +
        (u.nfts.countP fun n => n.countsIn r.key) -
        t.nfts.countP fun n => n.countsIn r.key }

/-- A round that finds the flag as it would leave it does nothing. -/
theorem applyLifecycleEvent_eq {e : LifecycleEvent}
    (h : ∀ n ∈ s.nfts, n.key = e.nft → n.burned = some !e.mint) :
    s.applyLifecycleEvent e = s := by
  have hnone : ¬(s.nfts.any fun n =>
      n.key == e.nft && n.burned != some !e.mint) = true := by
    intro hany
    obtain ⟨n, hn, hboth⟩ := List.any_eq_true.mp hany
    rw [Bool.and_eq_true, beq_iff_eq, bne_iff_ne] at hboth
    exact hboth.2 (h n hn hboth.1)
  unfold applyLifecycleEvent
  cases hmint : e.mint <;> rw [hmint] at hnone
  · rw [if_neg Bool.false_ne_true]
    exact if_neg hnone
  · rw [if_pos rfl]
    exact if_neg hnone

/-- The supply after a round that moves a flag. -/
theorem applyLifecycleEvent_series {e : LifecycleEvent} {n : NftRow}
    (hn : n ∈ s.nfts) (hkey : n.key = e.nft) (hflag : n.burned ≠ some !e.mint)
    (hsupply : e.mint = false → ∀ r ∈ s.series, r.key = e.series →
      0 < r.currentSupply) :
    (s.applyLifecycleEvent e).series = s.series.map fun r =>
      if r.key == e.series then
        { r with
          currentSupply := r.currentSupply + if e.mint then 1 else -1 }
      else r := by
  have hany : (s.nfts.any fun n =>
      n.key == e.nft && n.burned != some !e.mint) = true := by
    refine List.any_eq_true.mpr ⟨n, hn, ?_⟩
    rw [Bool.and_eq_true, beq_iff_eq, bne_iff_ne]
    exact ⟨hkey, hflag⟩
  unfold applyLifecycleEvent
  cases hmint : e.mint <;> rw [hmint] at hany
  · rw [Bool.not_false] at hany
    rw [if_neg Bool.false_ne_true, if_pos hany]
    refine List.map_congr_left fun r hr => ?_
    split
    · next hseries =>
        dsimp only
        rw [if_pos (hsupply hmint r hr (beq_iff_eq.mp hseries)),
          if_neg Bool.false_ne_true]
        rfl
    · rfl
  · rw [Bool.not_true] at hany
    rw [if_pos rfl, if_pos hany]
    rfl

/-- What a flag makes an NFT count for. -/
theorem countsIn_flag (n : NftRow) (k : SeriesKey) (flag : Bool) :
    ({ n with burned := some flag } : NftRow).countsIn k =
      (n.series == some k && !flag) := by
  cases flag <;> rfl

/-- One more round. -/
theorem Moved.round {l : List LifecycleEvent} {e : LifecycleEvent}
    (hcells : t.CellsOk) (h : Moved t l u) {n : NftRow} (hn : n ∈ t.nfts)
    (hkey : n.key = e.nft) (hseries : n.series = some e.series)
    (hburn : e.mint = false → roundsFlag l n ≠ some true →
      roundsFlag l n = some false ∧ n.burned ≠ some false ∧
      ∀ n' ∈ t.nfts, n'.burned = some false → roundsFlag l n' = some false) :
    Moved t (l ++ [e]) (u.applyLifecycleEvent e) := by
  have hothers : ∀ n' ∈ t.nfts, n'.key = e.nft → n' = n := fun n' hn' hkey' =>
    List.inj_on_of_nodup_map hcells.nfts hn' hn (hkey'.trans hkey.symm)
  have hnfts : (u.applyLifecycleEvent e).nfts = t.nfts.map fun n =>
      { n with burned := roundsFlag (l ++ [e]) n } := by
    rw [applyLifecycleEvent_nfts, h.nfts, List.map_map]
    refine List.map_congr_left fun n' _ => ?_
    rw [Function.comp_apply, roundsFlag_append]
    split <;> rfl
  refine ⟨(u.applyLifecycleEvent_butNfts e).trans h.rest, hnfts, ?_⟩
  by_cases hsame : roundsFlag l n = some !e.mint
  · have hkept : u.applyLifecycleEvent e = u := by
      refine applyLifecycleEvent_eq fun n' hn' hkey' => ?_
      rw [h.nfts] at hn'
      obtain ⟨n'', hn'', rfl⟩ := List.mem_map.mp hn'
      rw [← hsame, hothers n'' hn'' hkey']
    rw [hkept]
    exact h.series
  · obtain ⟨n', hn'⟩ : ∃ n', n' = { n with burned := roundsFlag l n } :=
      ⟨_, rfl⟩
    have hmem : n' ∈ u.nfts := by
      rw [h.nfts, hn']
      exact List.mem_map_of_mem hn
    have hkeys : (u.nfts.map NftRow.key).Nodup := by
      rw [h.nfts, List.map_map]
      exact hcells.nfts
    have hcount : ∀ k, ((u.applyLifecycleEvent e).nfts.countP fun n =>
        n.countsIn k) + (n'.countsIn k).toNat =
        (u.nfts.countP fun n => n.countsIn k) +
          (({ n' with burned := some !e.mint } : NftRow).countsIn k).toNat := by
      intro k
      rw [applyLifecycleEvent_nfts]
      have hstep := countP_map_key hkeys hmem
        (fun n => { n with burned := some !e.mint }) fun n => n.countsIn k
      rw [hn'] at hstep ⊢
      rw [← hkey]
      exact hstep
    have hless : e.mint = false → (t.nfts.countP fun n =>
        n.countsIn e.series) < u.nfts.countP fun n => n.countsIn e.series := by
      intro hmint
      rw [hmint] at hsame
      obtain ⟨hfalse, hstored, hcounted⟩ := hburn hmint hsame
      rw [h.nfts, List.countP_map]
      refine countP_lt_countP (fun n' hn' hin => ?_) hn ?_ ?_
      · obtain ⟨hplace, hflag⟩ := NftRow.countsIn_iff.mp hin
        exact NftRow.countsIn_iff.mpr ⟨hplace, hcounted n' hn' hflag⟩
      · rw [Bool.eq_false_iff]
        exact fun hin => hstored (NftRow.countsIn_iff.mp hin).2
      · exact NftRow.countsIn_iff.mpr ⟨hseries, hfalse⟩
    have hmoved := applyLifecycleEvent_series hmem
      (hn' ▸ hkey : n'.key = e.nft) (hn' ▸ hsame : n'.burned ≠ some !e.mint)
      fun hmint r hr hplace => by
        rw [h.series] at hr
        obtain ⟨r', hr', rfl⟩ := List.mem_map.mp hr
        dsimp only at hplace ⊢
        have hnonneg := hcells.supplies r' hr'
        have hless := hless hmint
        rw [hplace]
        omega
    rw [hmoved, h.series, List.map_map]
    refine List.map_congr_left fun r hr => ?_
    have hcount := hcount r.key
    rw [countsIn_flag] at hcount
    have hplaced : n'.series = some e.series := by
      rw [hn']
      exact hseries
    rw [Function.comp_apply]
    dsimp only
    by_cases hplace : r.key = e.series
    · rw [hplace] at hcount ⊢
      rw [hplaced, beq_self_eq_true, Bool.true_and] at hcount
      rw [beq_self_eq_true, if_pos rfl]
      congr 1
      cases hmint : e.mint with
      | true =>
          have hout : n'.countsIn e.series = false := by
            rw [Bool.eq_false_iff]
            intro hin
            rw [hmint] at hsame
            rw [hn'] at hin
            exact hsame (NftRow.countsIn_iff.mp hin).2
          rw [hout, hmint] at hcount
          rw [if_pos rfl]
          simp only [Bool.not_true, Bool.not_false, Bool.toNat_false,
            Bool.toNat_true] at hcount
          omega
      | false =>
          rw [hmint] at hsame
          have hin : n'.countsIn e.series = true :=
            NftRow.countsIn_iff.mpr
              ⟨hplaced, hn' ▸ (hburn hmint hsame).1⟩
          rw [hin, hmint] at hcount
          rw [if_neg Bool.false_ne_true]
          simp only [Bool.not_true, Bool.not_false, Bool.toNat_false,
            Bool.toNat_true] at hcount
          omega
    · have hout : (some e.series == some r.key) = false :=
        beq_eq_false_iff_ne.mpr fun heq => hplace (Option.some.inj heq).symm
      have hin : n'.countsIn r.key = false := by
        rw [NftRow.countsIn, hplaced, hout, Bool.false_and]
      rw [hplaced, hout, Bool.false_and, hin] at hcount
      rw [beq_eq_false_iff_ne.mpr hplace, if_neg Bool.false_ne_true]
      congr 1
      omega

/-- The rounds leave everything as it was. -/
theorem RoundsReturn.foldl_eq {l : List LifecycleEvent} (hcells : t.CellsOk)
    (h : RoundsReturn t l) : l.foldl applyLifecycleEvent t = t := by
  have hmoved : ∀ l', l' <+: l → Moved t l' (l'.foldl applyLifecycleEvent t) := by
    intro l'
    induction l' using List.reverseRecOn with
    | nil =>
        intro _
        refine ⟨rfl, (List.map_id' _).symm, ?_⟩
        refine ((List.map_congr_left fun r _ => ?_).trans (List.map_id _)).symm
        rw [List.foldl_nil, add_sub_cancel_right]
        rfl
    | append_singleton l' e ih =>
        intro hprefix
        have hearlier : l' <+: l := (List.prefix_append l' [e]).trans hprefix
        have he : e ∈ l := hprefix.subset
          (List.mem_append_right _ List.mem_cons_self)
        obtain ⟨n, hn, hkey, hseries⟩ := h.placed e he
        rw [List.foldl_append]
        refine (ih hearlier).round hcells hn hkey hseries fun hmint hflag => ?_
        have hstored : n.burned ≠ some false := by
          intro hfalse
          have := h.minted n hn hfalse e he hkey.symm
          rw [hmint] at this
          cases this
        have hsome : n.burned ≠ none := by
          rw [← h.last n hn]
          exact roundsFlag_ne_none (.inr ⟨e, he, hkey.symm⟩)
        refine ⟨?_, hstored, fun n' hn' hfalse => ?_⟩
        · have hnone : roundsFlag l' n ≠ none := roundsFlag_ne_none (.inl hsome)
          cases hl' : roundsFlag l' n with
          | none => exact absurd hl' hnone
          | some flag =>
              cases flag with
              | false => rfl
              | true => exact absurd hl' hflag
        · exact roundsFlag_of_minted hfalse fun e' he' =>
            h.minted n' hn' hfalse e' (hearlier.subset he')
  have hall := hmoved l (List.prefix_refl l)
  have hnfts : (l.foldl applyLifecycleEvent t).nfts = t.nfts := by
    rw [hall.nfts]
    refine (List.map_congr_left fun n hn => ?_).trans (List.map_id _)
    rw [h.last n hn]
    rfl
  have hseries : (l.foldl applyLifecycleEvent t).series = t.series := by
    rw [hall.series, hnfts]
    refine (List.map_congr_left fun r _ => ?_).trans (List.map_id _)
    rw [add_sub_cancel_right]
    rfl
  have hrest := hall.rest
  generalize l.foldl applyLifecycleEvent t = u at hnfts hseries hrest
  simp only [butNfts, Prod.mk.injEq] at hrest
  obtain ⟨hevents, hcontracts, htokens, howners, hlinks⟩ := hrest
  cases u
  cases t
  rw [EventDb.mk.injEq]
  exact ⟨hevents, hcontracts, htokens, hnfts, hseries, howners, hlinks⟩

/-! ## When a block may be projected again -/

/-- The events of a transaction in order, with their links. -/
def linkedEvents (s : EventDb) (tx : Int) :
    List (TokenEvent × Option TokenKey) :=
  ((s.eventsOf tx).map fun r => (r.event, r.nft)).insertionSort
    fun a b => a.1.eventIndex ≤ b.1.eventIndex

/-- Those that are linked to the NFT. -/
def linkedOf (s : EventDb) (tx : Int) (k : TokenKey) : List TokenEvent :=
  ((s.linkedEvents tx).filter fun x => x.2 == some k).map Prod.fst

/-- Its mints and burns. -/
def lifecycleOf (s : EventDb) (tx : Int) (k : TokenKey) : List TokenEvent :=
  (s.linkedOf tx k).filter fun e => e.kind == .tokenMint || e.kind == .tokenBurn

/-- Its events that name an owner. -/
def ownersOf (s : EventDb) (tx : Int) (k : TokenKey) : List TokenEvent :=
  (s.linkedOf tx k).filter fun e => e.kind.isOwnership

/-- The rows and one transaction of a block, `u` being the rows after the
`TokenCreate` events up to it are upserted again. -/
structure AgainStepOk (sql : SqlServer) (s u : EventDb) (b : EventBatch) :
    Prop where
  /-- Each event has the link that the tokens give it now. -/
  links : ∀ r ∈ s.eventsOf b.transactionId,
    r.nft = u.linkNamed sql b r.event
  /-- The last mint or burn of an NFT in a series set the flag that it has. -/
  flags : ∀ n ∈ s.nfts, n.series.isSome = true →
    ∀ e ∈ (s.lifecycleOf b.transactionId n.key).getLast?,
      n.burned = some (e.kind == .tokenBurn)
  /-- One with the flag FALSE was not burned. -/
  counted : ∀ n ∈ s.nfts, n.series.isSome = true → n.burned = some false →
    ∀ e ∈ s.lifecycleOf b.transactionId n.key, e.kind = .tokenMint

/-- The rows and the transactions of a block, in order. -/
def AgainBlockOk (sql : SqlServer) (s : EventDb) :
    EventDb → List EventBatch → Prop
  | _, [] => True
  | u, b :: batches => s.AgainStepOk sql u b ∧
      s.AgainBlockOk sql (u.upsertTokens sql b.transactionId) batches

/-- The events of some transactions that name an owner of the NFT and are not
older than its row. -/
def ownersSince (s : EventDb) (o : OwnershipCells) (batches : List EventBatch) :
    List TokenEvent :=
  (batches.flatMap fun b => s.ownersOf b.transactionId o.nft).filter fun e =>
    o.lastChange ≤ e.timestamp

/-- The rows and a block whose events find them as they left them. -/
structure AgainOk (sql : SqlServer) (s : EventDb) (batches : List EventBatch) :
    Prop where
  block : s.AgainBlockOk sql s batches
  /-- The last event that may name an owner names the one that is stored. -/
  owners : ∀ o ∈ s.ownerships.rows,
    ∀ e ∈ (s.ownersSince o.cells batches).getLast?,
      e.address = o.cells.address

/-! ## The rows of the block -/

/-- What a row of `events` says but for its mark. -/
def linkCells (r : TokenEventRow) : (Int × TokenEvent) × Option TokenKey :=
  (r.core, r.nft)

/-- What is compared of a row of `nfts`. -/
def flagCells (n : NftRow) : TokenKey × Option Bool × Bool :=
  (n.key, n.burned, n.series.isSome)

theorem exists_of_flagCells {l l' : List NftRow}
    (h : l.map flagCells = l'.map flagCells) {n : NftRow} (hn : n ∈ l) :
    ∃ n' ∈ l', n'.key = n.key ∧ n'.burned = n.burned ∧
      n'.series.isSome = n.series.isSome := by
  have hmem := List.mem_map_of_mem (f := flagCells) hn
  rw [h] at hmem
  obtain ⟨n', hn', hcells⟩ := List.mem_map.mp hmem
  rw [flagCells, flagCells, Prod.mk.injEq, Prod.mk.injEq] at hcells
  exact ⟨n', hn', hcells⟩

/-- `t` is `s` with the transactions of `todo` upserted again and those of
`done` projected again. The tokens are those of `u`. -/
structure Again (s u t : EventDb) (done todo : List EventBatch) : Prop where
  contracts : t.contracts = s.contracts
  tokens : t.tokens = u.tokens
  events : t.events.map linkCells = s.events.map fun r =>
    (r.core, if r.transactionId ∈ todo.map EventBatch.transactionId then none
      else r.nft)
  nfts : t.nfts.map flagCells = s.nfts.map flagCells
  series : t.series = s.series
  links : t.addressTransactions = s.addressTransactions
  owners : ∀ k, t.ownerships.find OwnershipCells.nft k =
    (s.ownerships.find OwnershipCells.nft k).map fun o =>
      ⟨o.id, { o.cells with
        address := ((s.ownersSince o.cells done).getLast?).elim o.cells.address
          TokenEvent.address }⟩
  known : u.events = s.events ∧ u.contracts = s.contracts

variable {done todo batches : List EventBatch}

theorem insertBlockEvents_contracts (h : s.Projected [])
    (hrepeats : ∀ b ∈ batches, s.Stores b) :
    (s.insertBlockEvents batches).contracts = s.contracts := by
  have hfilled : ∀ r ∈ batchRows batches, s.Filled r.event.contract := by
    intro r hr
    obtain ⟨b, hb, e, he, rfl⟩ := mem_batchRows.mp hr
    obtain ⟨r, hr, heq⟩ := (hrepeats b hb).mem_eventsOf.mpr he
    rw [← heq]
    exact h.filled r (List.mem_of_mem_filter hr)
  unfold insertBlockEvents
  dsimp only
  generalize batchRows batches = rows at hfilled ⊢
  generalize s.events.filter _ = kept
  have hrun : ∀ t : EventDb, t.contracts = s.contracts →
      (rows.foldl upsertEvent t).contracts = s.contracts := by
    intro t ht
    refine List.foldlRecOn (motive := fun t : EventDb =>
      t.contracts = s.contracts) rows upsertEvent ht fun t ht r hr => ?_
    have hrow := ((hfilled r hr).congr ht).1.fillContract_eq
    exact (congrArg contracts hrow).trans ht
  exact hrun _ rfl

/-- The upsert clears the marks and links of the block's rows. -/
theorem insertBlockEvents_again (hbatches : EventBatchesOk batches)
    (hrepeats : ∀ b ∈ batches, s.Stores b) :
    (s.insertBlockEvents batches).events.map linkCells =
      s.events.map fun r =>
        (r.core,
          if r.transactionId ∈ batches.map EventBatch.transactionId then none
          else r.nft) := by
  have hrow : ∀ r ∈ s.events, ∀ b ∈ batches,
      r.transactionId = b.transactionId →
      (⟨r.transactionId, r.event, r.event.burned, none⟩ : TokenEventRow) ∈
        batchRows batches := by
    intro r hr b hb htx
    refine mem_batchRows.mpr ⟨b, hb, r.event, ?_, by rw [htx]⟩
    refine (hrepeats b hb).mem_eventsOf.mp ⟨r, ?_, rfl⟩
    exact List.mem_filter.mpr ⟨hr, beq_iff_eq.mpr htx⟩
  have hkept : (s.events.filter fun r =>
      !(decide (r.transactionId ∈ batches.map EventBatch.transactionId) &&
        !decide (r.key ∈ (batchRows batches).map TokenEventRow.key))) =
      s.events := by
    refine List.filter_eq_self.mpr fun r hr => ?_
    by_cases htx : r.transactionId ∈ batches.map EventBatch.transactionId
    · obtain ⟨b, hb, hid⟩ := List.mem_map.mp htx
      have hmem := List.mem_map_of_mem (f := TokenEventRow.key)
        (hrow r hr b hb hid.symm)
      have hkey : r.key ∈ (batchRows batches).map TokenEventRow.key := hmem
      rw [decide_eq_true hkey]
      simp
    · rw [decide_eq_false htx]
      rfl
  rw [insertBlockEvents_events, hkept,
    foldl_upsertRow_eq_map hbatches.keys, List.map_map]
  · refine List.map_congr_left fun r hr => ?_
    rw [Function.comp_apply]
    by_cases htx : r.transactionId ∈ batches.map EventBatch.transactionId
    · obtain ⟨b, hb, hid⟩ := List.mem_map.mp htx
      have hfind := (find?_key_eq_some hbatches.keys).mpr
        ⟨hrow r hr b hb hid.symm, rfl⟩
      rw [if_pos htx]
      exact congrArg (fun x => linkCells (Option.getD x r)) hfind
    · have hfind : ((batchRows batches).find? fun r' => r'.key == r.key) =
          none := by
        refine List.find?_eq_none.mpr fun r' hr' hkey => htx ?_
        obtain ⟨b, hb, e, -, rfl⟩ := mem_batchRows.mp hr'
        have hid : b.transactionId = r.transactionId :=
          congrArg Prod.fst (beq_iff_eq.mp hkey)
        exact hid ▸ List.mem_map_of_mem hb
      rw [hfind, if_neg htx]
      rfl
  · intro r hr
    obtain ⟨b, hb, e, he, rfl⟩ := mem_batchRows.mp hr
    obtain ⟨r, hr, heq⟩ := (hrepeats b hb).mem_eventsOf.mpr he
    obtain ⟨hr, htx⟩ := List.mem_filter.mp hr
    refine ⟨r, hr, ?_⟩
    rw [TokenEventRow.key, beq_iff_eq.mp htx, heq]
    rfl

theorem again_insertBlockEvents (h : s.Projected [])
    (hbatches : EventBatchesOk batches)
    (hrepeats : ∀ b ∈ batches, s.Stores b) :
    Again s s (s.insertBlockEvents batches) [] batches := by
  have hrest := s.insertBlockEvents_rest batches
  simp only [Prod.mk.injEq] at hrest
  obtain ⟨htokens, hnfts, hseries, howners, hlinks⟩ := hrest
  refine ⟨insertBlockEvents_contracts h hrepeats, htokens,
    insertBlockEvents_again hbatches hrepeats, by rw [hnfts], hseries, hlinks,
    fun k => ?_, rfl, rfl⟩
  rw [howners]
  cases s.ownerships.find OwnershipCells.nft k <;> rfl

/-! ## The statements of a transaction, again -/

theorem foldl_insertSeries_eq {ks : List SeriesKey}
    (h : ∀ k ∈ ks, k ∈ s.series.map SeriesRow.key) :
    ks.foldl insertSeries s = s := by
  induction ks with
  | nil => rfl
  | cons k ks ih =>
      obtain ⟨r, hr, hkey⟩ := List.mem_map.mp (h k List.mem_cons_self)
      have hany : (s.series.any fun r => r.key == k) = true :=
        List.any_eq_true.mpr ⟨r, hr, beq_iff_eq.mpr hkey⟩
      have hfirst : s.insertSeries k = s := by
        rw [insertSeries, if_pos hany]
      rw [List.foldl_cons, hfirst]
      exact ih fun k' hk' => h k' (List.mem_cons_of_mem _ hk')

theorem foldl_insertNft_eq {ks : List TokenKey}
    (h : ∀ k ∈ ks, k ∈ s.nfts.map NftRow.key) :
    ks.foldl insertNft s = s := by
  induction ks with
  | nil => rfl
  | cons k ks ih =>
      obtain ⟨n, hn, hkey⟩ := List.mem_map.mp (h k List.mem_cons_self)
      have hany : (s.nfts.any fun n => n.key == k) = true :=
        List.any_eq_true.mpr ⟨n, hn, beq_iff_eq.mpr hkey⟩
      have hfirst : s.insertNft k = s := by
        rw [insertNft, if_pos hany]
      rw [List.foldl_cons, hfirst]
      exact ih fun k' hk' => h k' (List.mem_cons_of_mem _ hk')

theorem eventsOf_events (s : EventDb) (tx : Int) :
    (s.eventsOf tx).map TokenEventRow.event =
      (s.fixed.1.filter fun c => c.1 == tx).map Prod.snd := by
  rw [fixed, List.filter_map, List.map_map]
  rfl

theorem tokenCreateValues_congr (hfixed : s.fixed.1 = t.fixed.1) (tx : Int) :
    s.tokenCreateValues tx = t.tokenCreateValues tx := by
  have hvalues : ∀ s : EventDb, s.tokenCreateValues tx =
      ((s.eventsOf tx).map TokenEventRow.event).filterMap fun e =>
        if e.kind = .tokenCreate then e.create else none := by
    intro s
    rw [List.filterMap_map]
    rfl
  rw [hvalues, hvalues, eventsOf_events, eventsOf_events, hfixed]

/-- The tokens that the upsert leaves, by what it reads. -/
theorem upsertTokens_congr {tx : Int} (hfixed : t.fixed.1 = u.fixed.1)
    (hcontracts : t.contracts = u.contracts) (htokens : t.tokens = u.tokens)
    (hfilled : ∀ v ∈ u.tokenCreateValues tx, u.Filled v.symbol) :
    (t.upsertTokens sql tx).tokens = (u.upsertTokens sql tx).tokens ∧
      (t.upsertTokens sql tx).contracts = t.contracts := by
  have hvalues := tokenCreateValues_congr hfixed tx
  have hrows : ∀ values, t.tokenRows sql values = u.tokenRows sql values := by
    intro values
    rw [tokenRows, tokenRows, hcontracts]
  have hsame : ∀ {s : EventDb}, s.contracts = u.contracts →
      s.fillContracts ((u.tokenCreateValues tx).map TokenCreate.symbol).dedup =
        s := by
    intro s hs
    refine fillContracts_eq fun hash hhash => ?_
    obtain ⟨v, hv, rfl⟩ := List.mem_map.mp (List.mem_dedup.mp hhash)
    exact ((hfilled v hv).congr hs).1
  have hrun : ∀ (rows : List TokenRow) {s s' : EventDb}, s.tokens = s'.tokens →
      (rows.foldl upsertToken s).tokens = (rows.foldl upsertToken s').tokens := by
    intro rows
    induction rows with
    | nil => exact fun h => h
    | cons row rows ih =>
        intro s s' h
        refine ih ?_
        unfold upsertToken
        dsimp only
        rw [h]
  unfold upsertTokens
  dsimp only
  rw [hvalues, hsame hcontracts, hsame rfl, hrows]
  exact ⟨hrun _ htokens,
    foldl_keeps (f := upsertToken) (g := contracts) (fun _ _ => rfl) _ _⟩

theorem Again.fixed_eq (h : Again s u t done todo) : t.fixed.1 = s.fixed.1 := by
  have hcores : ∀ s : EventDb,
      s.fixed.1 = (s.events.map linkCells).map Prod.fst := by
    intro s
    rw [List.map_map]
    rfl
  rw [hcores t, h.events, List.map_map, fixed]
  rfl

/-! ## Links and rounds, again -/

theorem linkedEvents_of_links {tx : Int} {g : TokenEvent → Option TokenKey}
    (hlinks : ∀ r ∈ s.eventsOf tx, r.nft = g r.event) :
    s.linkedEvents tx =
      (((s.eventsOf tx).map TokenEventRow.event).insertionSort
        fun a b => a.eventIndex ≤ b.eventIndex).map fun e => (e, g e) := by
  have hpairs : (s.eventsOf tx).map (fun r => (r.event, r.nft)) =
      ((s.eventsOf tx).map TokenEventRow.event).map fun e => (e, g e) := by
    rw [List.map_map]
    refine List.map_congr_left fun r hr => ?_
    rw [hlinks r hr]
    rfl
  rw [linkedEvents, hpairs]
  exact (List.map_insertionSort
    (fun a b : TokenEvent => a.eventIndex ≤ b.eventIndex)
    (fun a b : TokenEvent × Option TokenKey =>
      a.1.eventIndex ≤ b.1.eventIndex)
    (fun e => (e, g e)) _ fun _ _ _ _ => Iff.rfl).symm

theorem lifecycleEvents_eq (s : EventDb) (tx : Int) :
    s.lifecycleEvents tx = (s.linkedEvents tx).filterMap fun x =>
      if x.1.kind = .tokenMint ∨ x.1.kind = .tokenBurn then
        (s.nfts.find? fun n => some n.key == x.2).bind fun n =>
          n.series.map fun k => ⟨x.1.kind == .tokenMint, n.key, k⟩
      else none := by
  have hsorted : s.linkedEvents tx = ((s.eventsOf tx).insertionSort
      fun a b => a.event.eventIndex ≤ b.event.eventIndex).map
        fun r => (r.event, r.nft) :=
    (List.map_insertionSort
      (fun a b : TokenEventRow => a.event.eventIndex ≤ b.event.eventIndex)
      (fun a b : TokenEvent × Option TokenKey =>
        a.1.eventIndex ≤ b.1.eventIndex)
      (fun r => (r.event, r.nft)) _ fun _ _ _ _ => Iff.rfl).symm
  rw [lifecycleEvents, hsorted, List.filterMap_map]
  rfl

theorem map_filter_fst {α β γ : Type} (p : α × β → Bool) (q : α → Bool)
    (g : α → γ) (l : List (α × β)) :
    (((l.filter p).map Prod.fst).filter q).map g =
      l.filterMap fun x => if p x && q x.1 then some (g x.1) else none := by
  induction l with
  | nil => rfl
  | cons x l ih =>
      rw [List.filter_cons, List.filterMap_cons]
      cases hp : p x with
      | false => exact ih
      | true =>
          rw [if_pos rfl, List.map_cons, List.filter_cons, Bool.true_and]
          cases hq : q x.1 with
          | false => exact ih
          | true =>
              rw [if_pos rfl, if_pos rfl, List.map_cons, ih]

/-- The rounds of an NFT are its mints and burns, where it is in a series. -/
theorem rounds_of_nft (hkeys : (s.nfts.map NftRow.key).Nodup) {n : NftRow}
    (hn : n ∈ s.nfts) (tx : Int) :
    ((s.lifecycleEvents tx).filter fun e => e.nft == n.key) =
      n.series.elim [] fun k => (s.lifecycleOf tx n.key).map fun e =>
        ⟨e.kind == .tokenMint, n.key, k⟩ := by
  have hfind : ∀ x : TokenEvent × Option TokenKey, x.2 = some n.key →
      (s.nfts.find? fun n => some n.key == x.2) = some n := by
    intro x hx
    have hsame : (fun n' : NftRow => some n'.key == x.2) =
        fun n' => n'.key == n.key := by
      funext n'
      rw [hx]
      exact Option.some_beq_some
    rw [hsame]
    exact (find?_key_eq_some hkeys).mpr ⟨hn, rfl⟩
  have hother : ∀ (x : TokenEvent × Option TokenKey) (e : LifecycleEvent),
      ((s.nfts.find? fun n => some n.key == x.2).bind fun n =>
        n.series.map fun k =>
          (⟨x.1.kind == .tokenMint, n.key, k⟩ : LifecycleEvent)) = some e →
      x.2 = some e.nft := by
    intro x e hround
    obtain ⟨n', hfound, hseries⟩ := Option.bind_eq_some_iff.mp hround
    obtain ⟨k, -, rfl⟩ := Option.map_eq_some_iff.mp hseries
    have hkey := List.find?_some hfound
    exact (beq_iff_eq.mp hkey).symm
  rw [lifecycleEvents_eq, List.filter_filterMap]
  cases hseries : n.series with
  | none =>
      refine List.filterMap_eq_nil_iff.mpr fun x _ => ?_
      rw [Option.filter_eq_none_iff]
      intro e hround hkey
      split at hround
      · have hlink := hother x e hround
        rw [beq_iff_eq.mp hkey] at hlink
        rw [hfind x hlink, Option.bind_some, hseries] at hround
        cases hround
      · cases hround
  | some k =>
      rw [Option.elim_some, lifecycleOf, linkedOf, map_filter_fst]
      refine List.filterMap_congr fun x _ => ?_
      by_cases hlink : x.2 = some n.key
      · rw [hfind x hlink, Option.bind_some, hseries, hlink,
          beq_self_eq_true, Bool.true_and, Option.map_some]
        split
        · next hkind =>
            have hbeq : (x.1.kind == .tokenMint || x.1.kind == .tokenBurn) =
                true := by
              rw [Bool.or_eq_true, beq_iff_eq, beq_iff_eq]
              exact hkind
            rw [hbeq, if_pos rfl]
            exact Option.filter_some_pos (beq_self_eq_true _)
        · next hkind =>
            have hbeq : (x.1.kind == .tokenMint || x.1.kind == .tokenBurn) =
                false := by
              rw [Bool.eq_false_iff]
              intro h
              rw [Bool.or_eq_true, beq_iff_eq, beq_iff_eq] at h
              exact hkind h
            rw [hbeq, if_neg Bool.false_ne_true]
            rfl
      · rw [beq_eq_false_iff_ne.mpr hlink, Bool.false_and,
          if_neg Bool.false_ne_true, Option.filter_eq_none_iff]
        intro e hround hkey
        split at hround
        · have hlink' := hother x e hround
          rw [beq_iff_eq.mp hkey] at hlink'
          exact hlink hlink'
        · cases hround

/-! ## A transaction, again -/

/-- The rows and a transaction that is projected again, up to its side
effects. -/
structure AgainStep (sql : SqlServer) (s u t : EventDb) (b : EventBatch)
    (done todo : List EventBatch) : Prop where
  stored : s.Projected []
  waiting : t.Projected (b :: todo)
  again : Again s u t done (b :: todo)
  stores : s.Stores b
  ok : s.AgainStepOk sql u b

namespace AgainStep

theorem row (h : AgainStep sql s u t b done todo) {e : TokenEvent}
    (he : e ∈ b.events) : ∃ r ∈ s.events, r.event = e ∧
      r.nft = u.linkNamed sql b e := by
  obtain ⟨r, hr, rfl⟩ := h.stores.mem_eventsOf.mpr he
  exact ⟨r, List.mem_of_mem_filter hr, rfl, h.ok.links r hr⟩

theorem served (h : AgainStep sql s u t b done todo) {e : TokenEvent}
    (he : e ∈ b.events) : t.Served e := by
  obtain ⟨r, hr, rfl, -⟩ := h.row he
  refine (h.stored.served r hr List.not_mem_nil).mono
    (fun hash hf => (hf.congr h.again.contracts).1) fun k hk => ?_
  rw [h.again.series]
  exact hk

theorem mem_values (h : AgainStep sql s u t b done todo) {v : TokenCreate}
    (hv : v ∈ t.tokenCreateValues b.transactionId) : t.Filled v.symbol := by
  have hb := h.waiting.waiting b List.mem_cons_self
  obtain ⟨r, hr, hcreate⟩ := List.mem_filterMap.mp hv
  split at hcreate
  · next hkind =>
      exact (h.served (hb.stores.mem_eventsOf.mp ⟨r, hr, rfl⟩)).created
        hkind v hcreate
  · cases hcreate

theorem fixed_eq (h : AgainStep sql s u t b done todo) :
    t.fixed.1 = u.fixed.1 := by
  have hknown : u.fixed.1 = s.fixed.1 := by
    rw [fixed, fixed, h.again.known.1]
  rw [hknown]
  exact h.again.fixed_eq

theorem tokens (h : AgainStep sql s u t b done todo) :
    (t.upsertTokens sql b.transactionId).tokens =
        (u.upsertTokens sql b.transactionId).tokens ∧
      (t.upsertTokens sql b.transactionId).contracts = t.contracts ∧
      (u.upsertTokens sql b.transactionId).contracts = u.contracts := by
  have hcontracts := h.again.contracts.trans h.again.known.2.symm
  have hfilled : ∀ v ∈ u.tokenCreateValues b.transactionId,
      u.Filled v.symbol := by
    intro v hv
    rw [← tokenCreateValues_congr h.fixed_eq] at hv
    exact ((h.mem_values hv).congr hcontracts.symm).1
  obtain ⟨htokens, hkept⟩ := @upsertTokens_congr sql t u b.transactionId
    h.fixed_eq hcontracts h.again.tokens hfilled
  exact ⟨htokens, hkept,
    (@upsertTokens_congr sql u u b.transactionId rfl rfl rfl hfilled).2⟩

theorem linkNamed_eq (h : AgainStep sql s u t b done todo) (e : TokenEvent) :
    t.linkNamed sql b e = u.linkNamed sql b e := by
  rw [linkNamed, linkNamed, nonFungible_congr h.tokens.1]

theorem linked (h : AgainStep sql s u t b done todo) {e : TokenEvent}
    (he : e ∈ b.events) {k : TokenKey} (hlink : t.linkNamed sql b e = some k) :
    s.Linked e k := by
  obtain ⟨r, hr, rfl, hnft⟩ := h.row he
  rw [h.linkNamed_eq, ← hnft] at hlink
  exact h.stored.linked r hr k hlink

theorem withTokens_contracts (h : AgainStep sql s u t b done todo) :
    (t.withTokens sql b).contracts = t.contracts := by
  have hb := h.waiting.waiting b List.mem_cons_self
  have htokens := t.upsertTokens_butTokens sql b.transactionId
  simp only [butTokens, Prod.mk.injEq] at htokens
  unfold withTokens
  split
  · have hkept : (t.upsertTokens sql b.transactionId).applyContractStrings
        b.transactionId = t.upsertTokens sql b.transactionId := by
      refine fillContracts_eq fun hash hhash => ?_
      obtain ⟨r, hr, hnamed⟩ :=
        List.mem_filterMap.mp (List.mem_dedup.mp hhash)
      rw [eventsOf, htokens.1] at hr
      split at hnamed
      · next hkind =>
          have hserved := h.served (hb.stores.mem_eventsOf.mp ⟨r, hr, rfl⟩)
          exact ((hserved.deployed hkind hash hnamed).congr h.tokens.2.1).1
      · cases hnamed
    exact (congrArg contracts hkept).trans h.tokens.2.1
  · exact h.tokens.2.1

theorem withSeries_series (h : AgainStep sql s u t b done todo) :
    (t.withSeries sql b).series = t.series := by
  have hb := h.waiting.waiting b List.mem_cons_self
  have htokens := t.withTokens_butTokens sql b
  simp only [butTokens, Prod.mk.injEq] at htokens
  unfold withSeries
  split
  · have hkept : (t.withTokens sql b).upsertSeries b.transactionId =
        t.withTokens sql b := by
      refine foldl_insertSeries_eq fun k hk => ?_
      obtain ⟨r, hr, hnamed⟩ := List.mem_filterMap.mp hk
      rw [eventsOf, htokens.1] at hr
      split at hnamed
      · next hkind =>
          obtain ⟨id, hid, rfl⟩ := Option.map_eq_some_iff.mp hnamed
          rw [htokens.2.2.1]
          exact (h.served (hb.stores.mem_eventsOf.mp ⟨r, hr, rfl⟩)).series
            hkind id hid
      · cases hnamed
    exact (congrArg EventDb.series hkept).trans htokens.2.2.1
  · exact htokens.2.2.1

theorem withNfts_nfts (h : AgainStep sql s u t b done todo) :
    (t.withNfts sql b).nfts = t.nfts := by
  have hb := h.waiting.waiting b List.mem_cons_self
  have hnfts : (t.withSeries sql b).nfts = t.nfts := withSeries_nfts
  unfold withNfts
  split
  · have hkept : (t.withSeries sql b).insertNfts b.transactionId =
        t.withSeries sql b := by
      refine foldl_insertNft_eq fun k hk => ?_
      obtain ⟨r, hr, htoken⟩ := List.mem_filterMap.mp hk
      obtain ⟨hr, hcandidate⟩ := List.mem_filter.mp hr
      rw [eventsOf, withSeries_events] at hr
      rw [isCandidate_withSeries] at hcandidate
      have hlink : t.linkNamed sql b r.event = some k := by
        rw [linkNamed, if_pos hcandidate]
        exact htoken
      obtain ⟨n, hn, rfl⟩ :=
        (h.linked (hb.stores.mem_eventsOf.mp ⟨r, hr, rfl⟩) hlink).nft
      obtain ⟨n', hn', hkey, -⟩ := exists_of_flagCells h.again.nfts.symm hn
      rw [hnfts, ← hkey]
      exact List.mem_map_of_mem hn'
    rw [applyNftSideEffects, hkept]
    exact hnfts
  · exact hnfts

theorem withNfts_series (h : AgainStep sql s u t b done todo) :
    (t.withNfts sql b).series = t.series := by
  refine Eq.trans ?_ h.withSeries_series
  unfold withNfts
  split
  · exact foldl_keeps (f := insertNft) (g := EventDb.series)
      (fun _ _ => rfl) _ _
  · rfl

/-- A mint that names a series puts no NFT into one that is in none. -/
theorem seriesNamed (h : AgainStep sql s u t b done todo) {k : TokenKey}
    {series : SeriesKey} (hk : (k, series) ∈ t.seriesNamed sql b) :
    series ∈ t.series.map SeriesRow.key ∧
      ∀ n ∈ t.nfts, n.key = k → n.series.isSome = true := by
  have hb := h.waiting.waiting b List.mem_cons_self
  obtain ⟨r, hr, hnamed⟩ := List.mem_filterMap.mp hk
  split at hnamed
  · next hmint =>
      obtain ⟨k', htoken, hpair⟩ := Option.bind_eq_some_iff.mp hnamed
      obtain ⟨id, hid, heq⟩ := Option.map_eq_some_iff.mp hpair
      cases heq
      have hlink : t.linkNamed sql b r.event = some k :=
        linkNamed_eq_some.mpr ⟨htoken, hmint.2, by rw [hmint.1]; rfl⟩
      obtain ⟨hseries, n, hn, hkey, hsome⟩ :=
        (h.linked (hb.stores.mem_eventsOf.mp ⟨r, hr, rfl⟩) hlink).minted
          hmint.1 id hid
      refine ⟨h.again.series ▸ hseries, fun n' hn' hkey' => ?_⟩
      obtain ⟨n'', hn'', hsame, -, hin⟩ := exists_of_flagCells h.again.nfts hn'
      rw [← hin, List.inj_on_of_nodup_map h.stored.cells.nfts hn'' hn
        (hsame.trans (hkey'.trans hkey.symm))]
      exact hsome
  · cases hnamed

theorem withMints_eq (h : AgainStep sql s u t b done todo) :
    (t.withMints sql b).series = t.series ∧
      (t.withMints sql b).nfts.map flagCells = t.nfts.map flagCells := by
  have hb := h.waiting.waiting b List.mem_cons_self
  unfold withMints
  split
  · rw [applyMintExtended_eq, mintValues_withNfts hb]
    have hkept : ((t.seriesNamed sql b).map Prod.snd).foldl insertSeries
        (t.withNfts sql b) = t.withNfts sql b := by
      refine foldl_insertSeries_eq fun series hseries => ?_
      obtain ⟨x, hx, rfl⟩ := List.mem_map.mp hseries
      rw [h.withNfts_series]
      exact (h.seriesNamed hx).1
    rw [hkept]
    refine ⟨h.withNfts_series, ?_⟩
    dsimp only
    rw [h.withNfts_nfts, List.map_map]
    refine List.map_congr_left fun n hn => ?_
    rw [Function.comp_apply, flagCells, flagCells]
    dsimp only
    cases hmint : mintSeries sql (t.seriesNamed sql b) n.key with
    | none => rw [Option.none_or]
    | some series =>
        rw [Option.some_or,
          (h.seriesNamed (mem_of_mintSeries hmint)).2 n hn rfl]
        rfl
  · exact ⟨h.withNfts_series, by rw [h.withNfts_nfts]⟩

/-- The events of the transaction in order, linked as they were. -/
theorem linkedEvents_eq (h : AgainStep sql s u t b done todo) :
    s.linkedEvents b.transactionId =
      (b.events.insertionSort fun a b => a.eventIndex ≤ b.eventIndex).map
        fun e => (e, t.linkNamed sql b e) := by
  have hb := h.waiting.waiting b List.mem_cons_self
  have hevents : (s.eventsOf b.transactionId).map TokenEventRow.event =
      (t.eventsOf b.transactionId).map TokenEventRow.event := by
    rw [eventsOf_events, eventsOf_events, h.again.fixed_eq]
  rw [linkedEvents_of_links (g := t.linkNamed sql b) fun r hr => by
    rw [h.ok.links r hr, h.linkNamed_eq], hevents,
    insertionSort_eventsOf hb h.waiting.keys]

theorem withMints_linkedEvents (h : AgainStep sql s u t b done todo) :
    (t.withMints sql b).linkedEvents b.transactionId =
      s.linkedEvents b.transactionId := by
  have hb := h.waiting.waiting b List.mem_cons_self
  have hrows := @withMints_eventsOf t sql b hb
  have hevents : ((t.withMints sql b).eventsOf b.transactionId).map
      TokenEventRow.event =
      (t.eventsOf b.transactionId).map TokenEventRow.event := by
    rw [hrows, List.map_map]
    rfl
  rw [linkedEvents_of_links (g := t.linkNamed sql b), hevents,
    insertionSort_eventsOf hb h.waiting.keys, h.linkedEvents_eq]
  intro r hr
  rw [hrows] at hr
  obtain ⟨r', -, rfl⟩ := List.mem_map.mp hr
  rfl

/-- The mints and burns of the transaction return to where they started. -/
theorem roundsReturn (h : AgainStep sql s u t b done todo) :
    RoundsReturn (t.withMints sql b)
      ((t.withMints sql b).lifecycleEvents b.transactionId) := by
  have hcells : (t.withMints sql b).CellsOk :=
    cellsOk_kept.withMints (cellsOk_kept.withNfts
      (cellsOk_kept.withSeries h.waiting.cells))
  have hlifecycle : ∀ k, (t.withMints sql b).lifecycleOf b.transactionId k =
      s.lifecycleOf b.transactionId k := by
    intro k
    rw [lifecycleOf, lifecycleOf, linkedOf, linkedOf, h.withMints_linkedEvents]
  have hstored : ∀ n ∈ (t.withMints sql b).nfts, ∃ n' ∈ s.nfts,
      n'.key = n.key ∧ n'.burned = n.burned ∧
        n'.series.isSome = n.series.isSome :=
    fun n hn => exists_of_flagCells (h.withMints_eq.2.trans h.again.nfts) hn
  generalize t.withMints sql b = v at hcells hlifecycle hstored ⊢
  have hrounds : ∀ n ∈ v.nfts, ((v.lifecycleEvents b.transactionId).filter
      fun e => e.nft == n.key) = n.series.elim [] fun k =>
        (s.lifecycleOf b.transactionId n.key).map fun e =>
          ⟨e.kind == .tokenMint, n.key, k⟩ := by
    intro n hn
    rw [rounds_of_nft hcells.nfts hn, hlifecycle]
  constructor
  · intro e he
    rw [lifecycleEvents_eq] at he
    obtain ⟨x, -, hround⟩ := List.mem_filterMap.mp he
    split at hround
    · obtain ⟨n, hfind, hseries⟩ := Option.bind_eq_some_iff.mp hround
      obtain ⟨k, hk, rfl⟩ := Option.map_eq_some_iff.mp hseries
      exact ⟨n, List.mem_of_find?_eq_some hfind, rfl, hk⟩
    · cases hround
  · intro n hn
    rw [roundsFlag, hrounds n hn]
    cases hseries : n.series with
    | none => rfl
    | some k =>
        rw [Option.elim_some, List.getLast?_map]
        cases hlast : (s.lifecycleOf b.transactionId n.key).getLast? with
        | none => rfl
        | some e =>
            obtain ⟨n', hn', hkey, hflag, hin⟩ := hstored n hn
            rw [← hkey] at hlast
            have hset := h.ok.flags n' hn' (by rw [hin, hseries]; rfl) e hlast
            rw [← hflag, hset, Option.map_some, Option.elim_some]
            have hkind := (List.mem_filter.mp (List.mem_of_getLast? hlast)).2
            rw [Bool.or_eq_true, beq_iff_eq, beq_iff_eq] at hkind
            rcases hkind with hkind | hkind <;> rw [hkind] <;> rfl
  · intro n hn hfalse e he hkey
    have hmem : e ∈ (v.lifecycleEvents b.transactionId).filter
        fun e => e.nft == n.key :=
      List.mem_filter.mpr ⟨he, beq_iff_eq.mpr hkey⟩
    rw [hrounds n hn] at hmem
    cases hseries : n.series with
    | none =>
        rw [hseries] at hmem
        cases hmem
    | some k =>
        rw [hseries, Option.elim_some] at hmem
        obtain ⟨e', he', rfl⟩ := List.mem_map.mp hmem
        obtain ⟨n', hn', hkey', hflag, hin⟩ := hstored n hn
        rw [← hkey'] at he'
        exact beq_iff_eq.mpr (h.ok.counted n' hn' (by rw [hin, hseries]; rfl)
          (hflag.trans hfalse) e' he')

theorem withSupply_eq (h : AgainStep sql s u t b done todo) :
    t.withSupply sql b = t.withMints sql b := by
  have hcells : (t.withMints sql b).CellsOk :=
    cellsOk_kept.withMints (cellsOk_kept.withNfts
      (cellsOk_kept.withSeries h.waiting.cells))
  unfold withSupply
  split
  · exact h.roundsReturn.foldl_eq hcells
  · rfl

/-- What the marker burns is burned. -/
theorem marked_nfts (h : AgainStep sql s u t b done todo) :
    (t.applyBlockEventSideEffects sql b).nfts = (t.withMints sql b).nfts := by
  have hb := h.waiting.waiting b List.mem_cons_self
  rw [sideEffects_eq_markers hb.stores, applyBurnMarkers, foldl_markBurned_eq]
  dsimp only
  rw [h.withSupply_eq]
  refine (List.map_congr_left fun n hn => ?_).trans (List.map_id _)
  by_cases hk : n.key ∈ (t.withMints sql b).burnTokens b.transactionId
  · rw [marked_of_mem hk, id]
    rw [← h.withSupply_eq, mem_burnTokens_withSupply_iff hb] at hk
    have hburns : s.Burns n.key := by
      rw [Burns, hasBurn_iff, ← h.again.fixed_eq, ← hasBurn_iff, notKcal,
        ← h.again.contracts]
      exact hk.2
    obtain ⟨n', hn', hkey, hflag, -⟩ :=
      exists_of_flagCells (h.withMints_eq.2.trans h.again.nfts) hn
    rcases h.stored.marks.complete _ hburns with ⟨b', hb', -⟩ | ⟨-, hflags⟩
    · cases hb'
    · rw [← hflags n' hn' hkey, hflag]
  · rw [marked_of_notMem]
    · rfl
    · intro k hkey
      cases hkey
      exact hk

/-- The links of the transaction are back. -/
theorem sideEffects_links (h : AgainStep sql s u t b done todo)
    (hids : b.transactionId ∉ todo.map EventBatch.transactionId) :
    (t.applyBlockEventSideEffects sql b).events.map linkCells =
      s.events.map fun r =>
        (r.core, if r.transactionId ∈ todo.map EventBatch.transactionId
          then none else r.nft) := by
  have hb := h.waiting.waiting b List.mem_cons_self
  -- linking as a function of what the rows say but for their marks
  have hlink : (t.applyBlockEventSideEffects sql b).events.map linkCells =
      (t.events.map linkCells).map fun c => (c.1,
        if c.1.1 = b.transactionId then t.linkNamed sql b c.1.2 else c.2) := by
    rw [sideEffects_eq_markers hb.stores, applyBurnMarkers,
      foldl_markBurned_eq]
    dsimp only
    rw [withSupply_events hb, List.map_map, List.map_map, List.map_map]
    refine List.map_congr_left fun r _ => ?_
    rw [Function.comp_apply, Function.comp_apply, Function.comp_apply]
    by_cases htx : r.transactionId = b.transactionId
    · rw [if_pos htx]
      exact congrArg (Prod.mk (linkCells r).1) (if_pos htx).symm
    · rw [if_neg htx]
      exact congrArg (Prod.mk (linkCells r).1) (if_neg htx).symm
  rw [hlink, h.again.events, List.map_map]
  refine List.map_congr_left fun r hr => ?_
  rw [Function.comp_apply, TokenEventRow.core, List.map_cons]
  by_cases htx : r.transactionId = b.transactionId
  · rw [if_pos htx, htx, if_neg hids, h.linkNamed_eq,
      h.ok.links r (List.mem_filter.mpr ⟨hr, beq_iff_eq.mpr htx⟩)]
  · rw [if_neg htx]
    by_cases htodo : r.transactionId ∈ todo.map EventBatch.transactionId
    · rw [if_pos (List.mem_cons_of_mem _ htodo), if_pos htodo]
    · rw [if_neg htodo, if_neg]
      rw [List.mem_cons, not_or]
      exact ⟨htx, htodo⟩

/-- The events that name an owner are those that did. -/
theorem ownershipNamedOf_eq (h : AgainStep sql s u t b done todo)
    (k : TokenKey) :
    t.ownershipNamedOf sql b k = s.ownersOf b.transactionId k := by
  have howners : s.ownersOf b.transactionId k =
      (((s.linkedEvents b.transactionId).filter fun x =>
        x.2 == some k).map Prod.fst).filter (fun e => e.kind.isOwnership) := rfl
  have hid := map_filter_fst (fun x : TokenEvent × Option TokenKey =>
    x.2 == some k) (fun e => e.kind.isOwnership) id
    (s.linkedEvents b.transactionId)
  rw [List.map_id] at hid
  rw [howners, hid, h.linkedEvents_eq, List.filterMap_map, ownershipNamedOf,
    ownershipNamed, List.filter_filterMap, List.map_filterMap]
  refine List.filterMap_congr fun e _ => ?_
  rw [Function.comp_apply]
  dsimp only
  cases hlink : t.linkNamed sql b e with
  | some k' =>
      obtain ⟨htoken, hfungible, -⟩ := linkNamed_eq_some.mp hlink
      rw [htoken, hfungible, Bool.and_true, Option.bind_some,
        Option.some_beq_some]
      cases e.kind.isOwnership
      · rw [Bool.and_false]
        rfl
      · rw [if_pos rfl, Bool.and_true]
        by_cases hk : k' = k
        · rw [hk, beq_self_eq_true, if_pos rfl,
            Option.filter_some_pos
              (p := fun x : TokenKey × TokenEvent => x.1 == k)
              (beq_self_eq_true k)]
          rfl
        · rw [beq_eq_false_iff_ne.mpr hk, if_neg Bool.false_ne_true,
            Option.filter_some_neg]
          · rfl
          · rw [beq_eq_false_iff_ne.mpr hk]
  | none =>
      rw [show ((none : Option TokenKey) == some k) = false from rfl,
        Bool.false_and, if_neg Bool.false_ne_true, Option.map_eq_none_iff,
        Option.filter_eq_none_iff]
      intro x hx
      obtain ⟨k', htoken, hif⟩ := Option.bind_eq_some_iff.mp hx
      split at hif
      · next hboth =>
          rw [Bool.and_eq_true] at hboth
          have hlinked := linkNamed_eq_some.mpr ⟨htoken, hboth.2,
            isNftSideEffect_of_isOwnership hboth.1⟩
          rw [hlink] at hlinked
          cases hlinked
      · cases hif

end AgainStep

theorem ownersSince_append (s : EventDb) (o : OwnershipCells)
    (done : List EventBatch) (b : EventBatch) :
    s.ownersSince o (done ++ [b]) = s.ownersSince o done ++
      (s.ownersOf b.transactionId o.nft).filter fun e =>
        o.lastChange ≤ e.timestamp := by
  rw [ownersSince, List.flatMap_append, List.filter_append,
    List.flatMap_singleton]
  rfl

/-- An owner, again. -/
theorem AgainStep.owners (h : AgainStep sql s u t b done todo) (hok : b.Ok)
    (k : TokenKey) :
    (t.applyBlockEventSideEffects sql b).ownerships.find OwnershipCells.nft k =
      (s.ownerships.find OwnershipCells.nft k).map fun o =>
        ⟨o.id, { o.cells with
          address := ((s.ownersSince o.cells (done ++ [b])).getLast?).elim
            o.cells.address TokenEvent.address }⟩ := by
  have hb := h.waiting.waiting b List.mem_cons_self
  have hends := (@sideEffects_ownership sql t b hok hb.stores
    h.waiting.owners).2 k
  have hcells : (t.applyBlockEventSideEffects sql b).CellsOk :=
    cellsOk_kept.sideEffects h.waiting.cells
  have howners := (@sideEffects_ownership sql t b hok hb.stores
    h.waiting.owners).1
  rw [h.ownershipNamedOf_eq, h.again.owners] at hends
  have hlinked : ∀ e ∈ s.ownersOf b.transactionId k, e ∈ b.events ∧
      ∃ o, s.ownerships.find OwnershipCells.nft k = some o ∧
        e.timestamp ≤ o.cells.lastChange := by
    intro e he
    rw [← h.ownershipNamedOf_eq] at he
    obtain ⟨hmem, htoken, hkind, hfungible⟩ := mem_ownershipNamedOf.mp he
    have hlink : t.linkNamed sql b e = some k := linkNamed_eq_some.mpr
      ⟨htoken, hfungible, isNftSideEffect_of_isOwnership hkind⟩
    exact ⟨hmem, (h.linked hmem hlink).owned hkind⟩
  cases hfind : s.ownerships.find OwnershipCells.nft k with
  | none =>
      have hnone : s.ownersOf b.transactionId k = [] := by
        refine List.eq_nil_iff_forall_not_mem.mpr fun e he => ?_
        obtain ⟨-, o, ho, -⟩ := hlinked e he
        rw [hfind] at ho
        cases ho
      rw [hfind, hnone] at hends
      generalize hnew : (t.applyBlockEventSideEffects sql b).ownerships.find
        OwnershipCells.nft k = new at hends ⊢
      cases hends
      rfl
  | some o =>
      have hkey : o.cells.nft = k := (h.stored.owners.find_eq_some.mp hfind).2
      rw [hfind] at hends
      rw [Option.map_some] at hends ⊢
      rw [ownersSince_append, hkey]
      generalize hl : s.ownersOf b.transactionId k = l at hends hlinked ⊢
      generalize hnew : (t.applyBlockEventSideEffects sql b).ownerships.find
        OwnershipCells.nft k = new at hends ⊢
      cases hlast : l.getLast? with
      | none =>
          rw [List.getLast?_eq_none_iff] at hlast
          rw [hlast] at hends ⊢
          cases hends
          rw [List.filter_nil, List.append_nil]
      | some e =>
          have hmem := List.mem_of_getLast? hlast
          obtain ⟨he, o', ho', htime⟩ := hlinked e hmem
          rw [hfind] at ho'
          cases ho'
          have htimes : ∀ e' ∈ l, e'.timestamp = e.timestamp :=
            fun e' he' => hok.times e' (hlinked e' he').1 e he
          rw [hlast] at hends
          by_cases hlater : o.cells.lastChange ≤ e.timestamp
          · have hall : (l.filter fun e' =>
                decide (o.cells.lastChange ≤ e'.timestamp)) = l := by
              refine List.filter_eq_self.mpr fun e' he' => ?_
              rw [htimes e' he']
              exact decide_eq_true hlater
            rw [hall, List.getLast?_append, hlast, Option.some_or,
              Option.elim_some]
            generalize holdrow : (some (⟨o.id, { o.cells with address := _ }⟩ :
              Stored OwnershipCells)) = old at hends
            cases hends with
            | later hold hless =>
                rw [← holdrow] at hold
                cases hold
                exact absurd hlater (not_le.mpr hless)
            | @owned _ id amount hstored =>
                obtain ⟨-, hid⟩ := hstored _ holdrow.symm
                have hrow := (howners.find_eq_some.mp hnew).1
                have hamount : amount = 1 := hcells.amounts _ hrow
                have hstoredAmount : o.cells.amount = 1 :=
                  h.stored.cells.amounts o
                    (h.stored.owners.find_eq_some.mp hfind).1
                have hsame : e.timestamp = o.cells.lastChange :=
                  le_antisymm htime hlater
                rw [hid, hamount, hsame, ← hkey, ← hstoredAmount]
          · have hnone : (l.filter fun e' =>
                decide (o.cells.lastChange ≤ e'.timestamp)) = [] := by
              refine List.filter_eq_nil_iff.mpr fun e' he' => ?_
              rw [htimes e' he', decide_eq_false hlater]
              exact Bool.false_ne_true
            rw [hnone, List.append_nil]
            generalize holdrow : (some (⟨o.id, { o.cells with address := _ }⟩ :
              Stored OwnershipCells)) = old at hends ⊢
            cases hends with
            | later hold hless => rfl
            | owned hstored =>
                exact absurd (hstored _ holdrow.symm).1 hlater

/-- The side effects of a transaction, again. -/
theorem AgainStep.sideEffects (h : AgainStep sql s u t b done todo)
    (hok : b.Ok) (hids : b.transactionId ∉ todo.map EventBatch.transactionId) :
    Again s (u.upsertTokens sql b.transactionId)
      (t.applyBlockEventSideEffects sql b) (done ++ [b]) todo := by
  have hb := h.waiting.waiting b List.mem_cons_self
  have hsupply := t.withSupply_butNfts sql b
  have hmarks := (t.withSupply sql b).applyBurnMarkers_butMarks b.transactionId
  rw [← sideEffects_eq_markers hb.stores] at hmarks
  simp only [butNfts, butMarks, Prod.mk.injEq] at hsupply hmarks
  have htokens := u.upsertTokens_butTokens sql b.transactionId
  simp only [butTokens, Prod.mk.injEq] at htokens
  refine ⟨?_, ?_, h.sideEffects_links hids, ?_, ?_, ?_, h.owners hok,
    htokens.1.trans h.again.known.1, h.tokens.2.2.trans h.again.known.2⟩
  · rw [sideEffects_contracts, h.withTokens_contracts, h.again.contracts]
  · rw [hmarks.2.1, hsupply.2.2.1, withNfts_tokens, h.tokens.1]
  · rw [h.marked_nfts, h.withMints_eq.2, h.again.nfts]
  · rw [hmarks.2.2.1, h.withSupply_eq, h.withMints_eq.1, h.again.series]
  · exact (congrArg Prod.snd (t.applyBlockEventSideEffects_fixed sql b)).trans
      h.again.links

/-- The transactions of the block, again. -/
theorem Again.run (hs : s.Projected []) (ht : t.Projected todo)
    (h : Again s u t done todo) (hstores : ∀ b ∈ todo, s.Stores b)
    (hblock : s.AgainBlockOk sql u todo) (hok : ∀ b ∈ todo, b.Ok)
    (hids : (todo.map EventBatch.transactionId).Nodup) :
    ∃ u', Again s u' (todo.foldl (applyBlockEventSideEffects sql) t)
      (done ++ todo) [] := by
  induction todo generalizing u t done with
  | nil =>
      rw [List.append_nil]
      exact ⟨u, h⟩
  | cons b todo ih =>
      have hb := hok b List.mem_cons_self
      have hstep : AgainStep sql s u t b done todo :=
        ⟨hs, ht, h, hstores b List.mem_cons_self, hblock.1⟩
      have hids' := hids
      rw [List.map_cons, List.nodup_cons] at hids'
      rw [List.append_cons]
      exact ih (ht.sideEffects hb hids) (hstep.sideEffects hb hids'.1)
        (fun b' hb' => hstores b' (List.mem_cons_of_mem _ hb')) hblock.2
        (fun b' hb' => hok b' (List.mem_cons_of_mem _ hb')) hids'.2

/-- The marks of two states with the same burns. -/
theorem Marked.same (hs : s.Marked []) (ht : t.Marked [])
    (hburns : ∀ k, t.Burns k ↔ s.Burns k) {r r' : TokenEventRow}
    (hr : r ∈ t.events) (hr' : r' ∈ s.events) (hevent : r.event = r'.event) :
    r.burned = r'.burned := by
  have hset : ∀ {s : EventDb}, s.Marked [] → ∀ {r}, r ∈ s.events →
      ∀ k, r.event.token = some k → s.Burns k → r.burned = some true := by
    intro s hs r hr k htoken hk
    rcases hs.complete k hk with ⟨b, hb, -⟩ | ⟨hrows, -⟩
    · cases hb
    · exact hrows r hr htoken
  rcases ht.sound r hr with hkept | ⟨hmarked, k, htoken, hk⟩
  · rcases hs.sound r' hr' with hkept' | ⟨hmarked', k, htoken, hk⟩
    · rw [hkept, hkept', hevent]
    · rw [hmarked']
      exact hset ht hr k (hevent ▸ htoken) ((hburns k).mpr hk)
  · rw [hmarked, hset hs hr' k (hevent ▸ htoken) ((hburns k).mp hk)]

/-- The events, the burn flags of the NFTs, the series with their counts, the
owners and the transactions of the addresses are the same in both. -/
structure Unchanged (s t : EventDb) : Prop where
  events : t.events = s.events
  burned : t.nfts.map (fun n => (n.key, n.burned)) =
    s.nfts.map fun n => (n.key, n.burned)
  supplies : t.series = s.series
  owners : ∀ o, o ∈ t.ownerships.rows ↔ o ∈ s.ownerships.rows
  links : t.addressTransactions = s.addressTransactions

/-- A block projected again onto rows that its events find as they left
them. -/
theorem projectBlockEvents_unchanged (hs : s.Projected [])
    (hbatches : EventBatchesOk batches) (hok : ∀ b ∈ batches, b.Ok)
    (hstores : ∀ b ∈ batches, s.Stores b) (hagain : s.AgainOk sql batches) :
    s.Unchanged (s.projectBlockEvents sql batches) := by
  have hrepeats : s.Repeats batches := by
    intro r hr htx
    obtain ⟨b, hb, hid⟩ := List.mem_map.mp htx
    refine ⟨b, hb, hid.symm, (hstores b hb).mem_eventsOf.mp ⟨r, ?_, rfl⟩⟩
    exact List.mem_filter.mpr ⟨hr, beq_iff_eq.mpr hid.symm⟩
  have hprojected : (s.projectBlockEvents sql batches).Projected [] :=
    hs.projectBlockEvents hbatches hrepeats hok
  obtain ⟨u, h⟩ := Again.run hs
    (hs.insertBlockEvents hbatches hrepeats)
    (again_insertBlockEvents hs hbatches hstores) hstores hagain.block hok
    hbatches.transactions
  rw [List.nil_append] at h
  obtain ⟨t, ht⟩ : ∃ t, t = s.projectBlockEvents sql batches := ⟨_, rfl⟩
  have h : Again s u t batches [] := ht ▸ h
  rw [← ht] at hprojected ⊢
  have hburns : ∀ k, t.Burns k ↔ s.Burns k := by
    intro k
    rw [Burns, Burns, hasBurn_iff, hasBurn_iff, h.fixed_eq, notKcal, notKcal,
      h.contracts]
  have hcells : t.events.map linkCells = s.events.map linkCells := by
    rw [h.events]
    refine List.map_congr_left fun r _ => ?_
    rw [List.map_nil, if_neg List.not_mem_nil]
    rfl
  refine ⟨eq_of_map_eq hcells fun r hr r' hr' hsame => ?_, ?_, h.series,
    fun o => ?_, h.links⟩
  · rw [linkCells, linkCells, TokenEventRow.core, TokenEventRow.core,
      Prod.mk.injEq, Prod.mk.injEq] at hsame
    have hburned := hs.marks.same hprojected.marks hburns hr hr' hsame.1.2
    cases r
    cases r'
    rw [TokenEventRow.mk.injEq]
    exact ⟨hsame.1.1, hsame.1.2, hburned, hsame.2⟩
  · have hflags := congrArg (List.map fun c => (c.1, c.2.1)) h.nfts
    rw [List.map_map, List.map_map] at hflags
    exact hflags
  · have hfind : t.ownerships.find OwnershipCells.nft o.cells.nft =
        s.ownerships.find OwnershipCells.nft o.cells.nft := by
      rw [h.owners]
      cases hfind : s.ownerships.find OwnershipCells.nft o.cells.nft with
      | none => rfl
      | some o' =>
          rw [Option.map_some]
          have hmem := (hs.owners.find_eq_some.mp hfind).1
          cases hlast : (s.ownersSince o'.cells batches).getLast? with
          | none => rfl
          | some e =>
              rw [Option.elim_some, hagain.owners o' hmem e hlast]
    have hmem : ∀ {t : EventDb}, t.ownerships.Ok OwnershipCells.nft →
        (o ∈ t.ownerships.rows ↔
          t.ownerships.find OwnershipCells.nft o.cells.nft = some o) := by
      intro t ht
      rw [ht.find_eq_some]
      exact (and_iff_left rfl).symm
    rw [hmem hprojected.owners, hmem hs.owners, hfind]

end EventDb

/-- After every history, a block of it projected again changes nothing where
its events find the rows as they left them. -/
theorem block_again_changes_nothing {chain : List (SqlServer × List EventBatch)}
    (hchain : HistoryOk chain) {block : SqlServer × List EventBatch}
    (hblock : block ∈ chain) {sql : SqlServer}
    (hagain : (({} : EventDb).projectBlocks chain).AgainOk sql block.2) :
    (({} : EventDb).projectBlocks chain).Unchanged
      ((({} : EventDb).projectBlocks chain).projectBlockEvents sql block.2) := by
  have hholds := projectBlocks_holdsHistory hchain
  have hmem : ∀ b ∈ block.2, b ∈ chain.flatMap Prod.snd :=
    fun b hb => List.mem_flatMap.mpr ⟨block, hblock, hb⟩
  exact EventDb.projectBlockEvents_unchanged hholds.projected
    (EventDb.eventBatchesOk_of_history hchain hblock)
    (fun b hb => hchain.batches b (hmem b hb))
    (fun b hb => hholds.stores b (hmem b hb)) hagain

/-! ### A mint projected again after the burn -/

theorem burnChain_historyOk : HistoryOk burnChain := by
  refine ⟨by decide, fun b hb => ?_⟩
  have hb' : b ∈ burnChain[0].2 ++ burnChain[1].2 := hb
  simp only [burnChain, List.getElem_cons_zero, List.getElem_cons_succ,
    List.cons_append, List.nil_append, List.mem_cons, List.not_mem_nil,
    or_false] at hb'
  rcases hb' with rfl | rfl | rfl <;> exact ⟨by decide, by decide⟩

/-- The burn may be projected again. -/
theorem burnChain_againOk :
    (({} : EventDb).projectBlocks burnChain).AgainOk plainSql
      burnChain[1].2 where
  block := ⟨⟨by decide +kernel, by decide +kernel, by decide +kernel⟩, trivial⟩
  owners := by decide +kernel

theorem block_again_changes_nothing_burn :
    (({} : EventDb).projectBlocks burnChain).Unchanged
      ((({} : EventDb).projectBlocks burnChain).projectBlockEvents plainSql
        burnChain[1].2) :=
  block_again_changes_nothing burnChain_historyOk
    (List.mem_cons_of_mem _ List.mem_cons_self) burnChain_againOk

/-- The mints may not: the one of the burned token counts it again. -/
theorem block_again_counts_burned :
    HistoryOk burnChain ∧
    (({} : EventDb).projectBlocks burnChain).series.map
      SeriesRow.currentSupply = [1] ∧
    ((({} : EventDb).projectBlocks burnChain).projectBlockEvents plainSql
      burnChain[0].2).series.map SeriesRow.currentSupply = [2] ∧
    ¬∀ chain : List (SqlServer × List EventBatch), HistoryOk chain →
      ∀ block ∈ chain, (({} : EventDb).projectBlocks chain).Unchanged
        ((({} : EventDb).projectBlocks chain).projectBlockEvents block.1
          block.2) := by
  have hbefore : (({} : EventDb).projectBlocks burnChain).series.map
      SeriesRow.currentSupply = [1] := by decide +kernel
  have hafter : ((({} : EventDb).projectBlocks burnChain).projectBlockEvents
      plainSql burnChain[0].2).series.map SeriesRow.currentSupply = [2] := by
    decide +kernel
  refine ⟨burnChain_historyOk, hbefore, hafter, fun hall => ?_⟩
  have hsame := (hall burnChain burnChain_historyOk burnChain[0]
    List.mem_cons_self).supplies
  have hcounts := congrArg (List.map SeriesRow.currentSupply) hsame
  rw [hbefore] at hcounts
  exact absurd (hafter.symm.trans hcounts) (by decide)

end Explorer.Ref
