import Explorer.Proofs.EventFrames

/-!
# The owner of an NFT is the last one named

The ownership statement reads its anchor and writes it, or inserts a row where
there is none. With at most one row for each NFT the anchor is that row, and
the insert meets no conflict: for each NFT the statement is one `put` under
its key, or nothing where the row is later. Over a transaction the event that
counts is the last in `event_index`, and over a run the last transaction's.
-/

namespace Explorer.Ref

open Explorer.Lib

/-! ## The statement -/

section

variable {t old : SerialTable OwnershipCells} {k : TokenKey}

/-- The anchor is the row. -/
theorem ownershipAnchor_eq (h : t.Ok OwnershipCells.nft) (k : TokenKey) :
    ownershipAnchor t k = t.find OwnershipCells.nft k := by
  rw [ownershipAnchor, SerialTable.find, ← List.head?_filter]
  have hnodup : ((t.rows.filter fun r => r.cells.nft == k).map
      fun r => r.cells.nft).Nodup := h.keys.sublist (List.filter_sublist.map _)
  have hkey : ∀ r ∈ t.rows.filter fun r => r.cells.nft == k,
      r.cells.nft = k := by
    intro r hr
    exact beq_iff_eq.mp (List.mem_filter.mp hr).2
  cases hrows : t.rows.filter fun r => r.cells.nft == k with
  | nil => rfl
  | cons r rows =>
      cases rows with
      | nil => rfl
      | cons r' rows =>
          rw [hrows] at hnodup hkey
          have hr := hkey r List.mem_cons_self
          have hr' := hkey r' (List.mem_cons_of_mem _ List.mem_cons_self)
          rw [List.map_cons, List.nodup_cons, List.map_cons] at hnodup
          exact absurd (hr.trans hr'.symm ▸ List.mem_cons_self) hnodup.1

/-- The row of an NFT after its events, the last of them given. -/
inductive OwnershipEnds (k : TokenKey) (old : Option (Stored OwnershipCells)) :
    Option (Stored OwnershipCells) → Option TokenEvent → Prop
  /-- No event named it. -/
  | unnamed : OwnershipEnds k old old none
  /-- The stored change is later than the event. -/
  | later {r : Stored OwnershipCells} {e : TokenEvent} :
      old = some r → e.timestamp < r.cells.lastChange →
      OwnershipEnds k old old (some e)
  /-- The event says who owns it and since when. -/
  | owned {e : TokenEvent} {id amount : Int} :
      (∀ r, old = some r → r.cells.lastChange ≤ e.timestamp ∧ id = r.id) →
      OwnershipEnds k old (some ⟨id, k, e.address, e.timestamp, amount⟩) (some e)

/-- What the statement does for one NFT. -/
theorem writeOwnership_spec (hold : old.Ok OwnershipCells.nft)
    (ht : t.Ok OwnershipCells.nft)
    (hsame : t.find OwnershipCells.nft k = old.find OwnershipCells.nft k)
    (e : TokenEvent) :
    (writeOwnership old t (k, e)).Ok OwnershipCells.nft ∧
    (∀ k', k' ≠ k → (writeOwnership old t (k, e)).find OwnershipCells.nft k' =
      t.find OwnershipCells.nft k') ∧
    OwnershipEnds k (t.find OwnershipCells.nft k)
      ((writeOwnership old t (k, e)).find OwnershipCells.nft k) (some e) := by
  have hanchor := (ownershipAnchor_eq hold k).trans hsame.symm
  rw [writeOwnership, hanchor]
  cases hfind : t.find OwnershipCells.nft k with
  | none =>
      have hconflict : (t.rows.find? fun r => r.cells.nft == k &&
          r.cells.address == e.address) = none := by
        rw [List.find?_eq_none]
        intro r hr hboth
        rw [SerialTable.find_eq_none] at hfind
        rw [Bool.and_eq_true, beq_iff_eq] at hboth
        exact hfind r hr hboth.1
      have hput := @SerialTable.put_of_none _ _ _ OwnershipCells.nft t
        ⟨k, e.address, e.timestamp, 1⟩ hfind
      simp only [hconflict, ← hput]
      refine ⟨ht.put _, fun k' hk' => ht.find_put _ hk', ?_⟩
      have hself := ht.find_put_self ⟨k, e.address, e.timestamp, 1⟩
      rw [show OwnershipCells.nft ⟨k, e.address, e.timestamp, 1⟩ = k from rfl,
        hfind] at hself
      rw [hself]
      exact .owned fun r hr => by cases hr
  | some r =>
      obtain ⟨-, hkey⟩ := ht.find_eq_some.mp hfind
      dsimp only
      split
      · next hle =>
          have hcells : ({ r.cells with
              address := e.address, lastChange := e.timestamp } :
                OwnershipCells) =
              ⟨k, e.address, e.timestamp, r.cells.amount⟩ := by
            subst hkey
            rfl
          have hput := @SerialTable.put_of_find _ _ _ OwnershipCells.nft t
            ⟨k, e.address, e.timestamp, r.cells.amount⟩ r hfind
          rw [hcells, ← hput]
          refine ⟨ht.put _, fun k' hk' => ht.find_put _ hk', ?_⟩
          have hself := ht.find_put_self
            ⟨k, e.address, e.timestamp, r.cells.amount⟩
          rw [show OwnershipCells.nft
            ⟨k, e.address, e.timestamp, r.cells.amount⟩ = k from rfl,
            hfind] at hself
          rw [hself]
          refine .owned fun r' hr' => ?_
          cases hr'
          exact ⟨hle, rfl⟩
      · next hlt =>
          refine ⟨ht, fun _ _ => rfl, ?_⟩
          rw [hfind]
          exact .later rfl (not_le.mp hlt)

/-- The statement, NFT by NFT. -/
theorem foldl_writeOwnership_spec (hold : old.Ok OwnershipCells.nft)
    {desired : List (TokenKey × TokenEvent)}
    (hkeys : (desired.map Prod.fst).Nodup) (ht : t.Ok OwnershipCells.nft)
    (hsame : ∀ k ∈ desired.map Prod.fst,
      t.find OwnershipCells.nft k = old.find OwnershipCells.nft k) :
    (desired.foldl (writeOwnership old) t).Ok OwnershipCells.nft ∧
    ∀ k, OwnershipEnds k (t.find OwnershipCells.nft k)
      ((desired.foldl (writeOwnership old) t).find OwnershipCells.nft k)
      (desired.lookup k) := by
  induction desired generalizing t with
  | nil => exact ⟨ht, fun k => .unnamed⟩
  | cons x desired ih =>
      obtain ⟨k₀, e⟩ := x
      rw [List.map_cons, List.nodup_cons] at hkeys
      obtain ⟨hok, hothers, hends⟩ := writeOwnership_spec hold ht
        (hsame k₀ List.mem_cons_self) e
      have hne : ∀ k ∈ desired.map Prod.fst, k ≠ k₀ := by
        rintro k hk rfl
        exact hkeys.1 hk
      obtain ⟨hok', hends'⟩ := ih hkeys.2 hok fun k hk =>
        (hothers k (hne k hk)).trans (hsame k (List.mem_cons_of_mem _ hk))
      refine ⟨hok', fun k => ?_⟩
      rw [List.foldl_cons, List.lookup_cons]
      have hrest := hends' k
      by_cases hk : k = k₀
      · subst hk
        rw [beq_self_eq_true]
        have hnone : desired.lookup k = none := by
          rw [List.lookup_eq_none_iff]
          intro x hx
          rw [bne_iff_ne]
          exact (hne x.1 (List.mem_map_of_mem hx)).symm
        rw [hnone] at hrest
        generalize hnew : (desired.foldl (writeOwnership old)
          (writeOwnership old t (k, e))).find OwnershipCells.nft k = new at hrest ⊢
        cases hrest
        exact hends
      · rw [beq_eq_false_iff_ne.mpr hk]
        rw [hothers k hk] at hrest
        exact hrest

end

/-! ## The last event of a transaction -/

theorem lookup_filterMap {κ β : Type} [BEq κ] [LawfulBEq κ]
    (f : κ → Option β) (ks : List κ) (k : κ) :
    (ks.filterMap fun k => (f k).map fun b => (k, b)).lookup k =
      if ks.contains k then f k else none := by
  induction ks with
  | nil => rfl
  | cons k' ks ih =>
      rw [List.filterMap_cons, List.contains_cons]
      cases hf : f k' with
      | none =>
          rw [Option.map_none, ih]
          by_cases hk : k = k'
          · subst hk
            rw [beq_self_eq_true, Bool.true_or, if_pos rfl, hf, ite_self]
          · rw [beq_eq_false_iff_ne.mpr hk, Bool.false_or]
      | some b =>
          rw [Option.map_some, List.lookup_cons, ih]
          by_cases hk : k = k'
          · subst hk
            rw [beq_self_eq_true, Bool.true_or, if_pos rfl, hf]
          · rw [beq_eq_false_iff_ne.mpr hk, Bool.false_or]

theorem map_fst_filterMap {κ β : Type} (f : κ → Option β) (ks : List κ) :
    (ks.filterMap fun k => (f k).map fun b => (k, b)).map Prod.fst =
      ks.filter fun k => (f k).isSome := by
  induction ks with
  | nil => rfl
  | cons k ks ih =>
      rw [List.filterMap_cons, List.filter_cons]
      cases f k with
      | none => exact ih
      | some b => exact congrArg (List.cons k) ih

/-- Each index once, and one time for all events of the transaction. -/
structure EventBatch.Ok (b : EventBatch) : Prop where
  indexes : (b.events.map TokenEvent.eventIndex).Nodup
  times : ∀ e ∈ b.events, ∀ e' ∈ b.events, e.timestamp = e'.timestamp

/-- Events with an index each, in their order. -/
theorem insertionSort_strict {l : List TokenEvent}
    (h : (l.map TokenEvent.eventIndex).Nodup) :
    (l.insertionSort fun a b => a.eventIndex ≤ b.eventIndex).Pairwise
      fun a b => a.eventIndex < b.eventIndex := by
  have htotal : Std.Total fun a b : TokenEvent => a.eventIndex ≤ b.eventIndex :=
    ⟨fun a b => le_total a.eventIndex b.eventIndex⟩
  have htrans : IsTrans TokenEvent fun a b => a.eventIndex ≤ b.eventIndex :=
    ⟨fun _ _ _ hab hbc => le_trans hab hbc⟩
  have hperm := List.perm_insertionSort
    (fun a b : TokenEvent => a.eventIndex ≤ b.eventIndex) l
  have hne := List.pairwise_map.mp ((hperm.map _).nodup_iff.mpr h)
  exact ((List.pairwise_insertionSort _ l).and hne).imp fun hab =>
    lt_of_le_of_ne hab.1 hab.2

theorem EventBatch.Ok.sorted {b : EventBatch} (h : b.Ok) :
    (b.events.insertionSort fun a b => a.eventIndex ≤ b.eventIndex).Pairwise
      fun a b => a.order < b.order := by
  refine (insertionSort_strict h.indexes).imp_of_mem fun ha hb' hlt => ?_
  rw [List.mem_insertionSort] at ha hb'
  rw [TokenEvent.order, TokenEvent.order, Prod.Lex.toLex_lt_toLex]
  exact .inr ⟨h.times _ ha _ hb', hlt⟩

/-- The greatest of some events is the last one in a list in their order. -/
theorem argmax_eq_getLast? {α β : Type} [LinearOrder β] {f : α → β}
    {l sorted : List α} (hmem : ∀ a, a ∈ l ↔ a ∈ sorted)
    (hsorted : sorted.Pairwise fun a b => f a < f b) :
    l.argmax f = sorted.getLast? := by
  rcases List.eq_nil_or_concat sorted with rfl | ⟨front, last, rfl⟩
  · have hnil : l = [] :=
      List.eq_nil_iff_forall_not_mem.mpr fun a ha => by
        have := (hmem a).mp ha
        cases this
    rw [hnil]
    rfl
  · rw [List.concat_eq_append] at hmem hsorted ⊢
    rw [List.getLast?_append, List.getLast?_singleton, Option.some_or]
    have hbelow : ∀ a ∈ l, a = last ∨ f a < f last := by
      intro a ha
      rcases List.mem_append.mp ((hmem a).mp ha) with ha | ha
      · exact .inr ((List.pairwise_append.mp hsorted).2.2 a ha last
          List.mem_cons_self)
      · exact .inl (List.mem_singleton.mp ha)
    have hlast : last ∈ l :=
      (hmem last).mpr (List.mem_append_right _ List.mem_cons_self)
    cases hmax : l.argmax f with
    | none =>
        rw [List.argmax_eq_none] at hmax
        rw [hmax] at hlast
        cases hlast
    | some a =>
        rcases hbelow a (List.argmax_mem hmax) with rfl | hlt
        · rfl
        · exact absurd (List.le_of_mem_argmax hlast hmax) (not_le.mpr hlt)

namespace EventDb

variable (sql : SqlServer) (s : EventDb) (tx : Int)

/-- The events of an NFT that the statement sees. -/
def ownershipEventsOf (k : TokenKey) : List TokenEvent :=
  ((s.ownershipEvents tx).filter fun x => x.1 == k).map Prod.snd

theorem desiredOwnership_lookup (k : TokenKey) :
    (s.desiredOwnership tx).lookup k =
      (s.ownershipEventsOf tx k).argmax TokenEvent.order := by
  rw [desiredOwnership, lookup_filterMap fun k =>
    (((s.ownershipEvents tx).filter fun x => x.1 == k).map Prod.snd).argmax
      TokenEvent.order]
  split
  · rfl
  · next hk =>
      have hnone : s.ownershipEventsOf tx k = [] := by
        rw [ownershipEventsOf, List.map_eq_nil_iff, List.filter_eq_nil_iff]
        intro x hx hbeq
        refine hk ?_
        rw [List.contains_iff_mem, List.mem_dedup]
        exact beq_iff_eq.mp hbeq ▸ List.mem_map_of_mem hx
      rw [hnone]
      rfl

theorem desiredOwnership_nodup :
    ((s.desiredOwnership tx).map Prod.fst).Nodup := by
  rw [desiredOwnership, map_fst_filterMap fun k =>
    (((s.ownershipEvents tx).filter fun x => x.1 == k).map Prod.snd).argmax
      TokenEvent.order]
  exact (List.nodup_dedup _).filter _

/-- The NFT statements, NFT by NFT. -/
theorem applyOwnership_spec (h : s.ownerships.Ok OwnershipCells.nft) :
    (s.applyOwnership tx).ownerships.Ok OwnershipCells.nft ∧
    ∀ k, OwnershipEnds k (s.ownerships.find OwnershipCells.nft k)
      ((s.applyOwnership tx).ownerships.find OwnershipCells.nft k)
      ((s.ownershipEventsOf tx k).argmax TokenEvent.order) := by
  obtain ⟨hok, hends⟩ := foldl_writeOwnership_spec h
    (s.desiredOwnership_nodup tx) h fun _ _ => rfl
  refine ⟨hok, fun k => ?_⟩
  rw [← desiredOwnership_lookup]
  exact hends k

/-! ## The events that name an owner -/

/-- The ownership events of a transaction, in order, of tokens that are
non-fungible once its own `TokenCreate` events are in. -/
def ownershipNamed (b : EventBatch) : List (TokenKey × TokenEvent) :=
  (b.events.insertionSort fun a b => a.eventIndex ≤ b.eventIndex).filterMap
    fun e => e.token.bind fun k =>
      if e.kind.isOwnership &&
          (s.upsertTokens sql b.transactionId).nonFungible e.contract then
        some (k, e)
      else none

def ownershipNamedOf (b : EventBatch) (k : TokenKey) : List TokenEvent :=
  ((s.ownershipNamed sql b).filter fun x => x.1 == k).map Prod.snd

variable {sql s} {b : EventBatch} {k : TokenKey} {e : TokenEvent}

theorem mem_ownershipNamedOf :
    e ∈ s.ownershipNamedOf sql b k ↔
      e ∈ b.events ∧ e.token = some k ∧ e.kind.isOwnership = true ∧
        (s.upsertTokens sql b.transactionId).nonFungible e.contract = true := by
  simp only [ownershipNamedOf, ownershipNamed, List.mem_map, List.mem_filter,
    List.mem_filterMap, List.mem_insertionSort, Option.bind_eq_some_iff,
    beq_iff_eq]
  constructor
  · rintro ⟨⟨k', e'⟩, ⟨⟨e'', he, k'', htoken, hif⟩, hk⟩, he'⟩
    split at hif
    · next hboth =>
        cases hif
        dsimp only at hk he'
        subst hk he'
        rw [Bool.and_eq_true] at hboth
        exact ⟨he, htoken, hboth.1, hboth.2⟩
    · cases hif
  · rintro ⟨he, htoken, hkind, hfungible⟩
    refine ⟨(k, e), ⟨⟨e, he, k, htoken, ?_⟩, rfl⟩, rfl⟩
    rw [if_pos (by rw [hkind, hfungible]; rfl)]

theorem mem_ownershipEventsOf {tx : Int} :
    e ∈ s.ownershipEventsOf tx k ↔
      (∃ r ∈ s.eventsOf tx, r.event = e) ∧ e.token = some k ∧
        e.kind.isOwnership = true ∧ (s.nfts.any fun n => n.key == k) = true ∧
        s.nonFungible e.contract = true := by
  simp only [ownershipEventsOf, ownershipEvents, List.mem_map, List.mem_filter,
    List.mem_filterMap, Option.bind_eq_some_iff, beq_iff_eq]
  constructor
  · rintro ⟨⟨k', e'⟩, ⟨⟨r, hr, k'', htoken, hif⟩, hk⟩, he'⟩
    split at hif
    · next hall =>
        cases hif
        dsimp only at hk he'
        subst hk he'
        rw [Bool.and_eq_true, Bool.and_eq_true] at hall
        exact ⟨⟨r, hr, rfl⟩, htoken, hall.1.1, hall.1.2, hall.2⟩
    · cases hif
  · rintro ⟨⟨r, hr, rfl⟩, htoken, hkind, hnft, hfungible⟩
    refine ⟨(k, r.event), ⟨⟨r, hr, k, htoken, ?_⟩, rfl⟩, rfl⟩
    rw [if_pos (by rw [hkind, hnft, hfungible]; rfl)]

theorem isNftSideEffect_of_isOwnership {kind : EventKind}
    (h : kind.isOwnership = true) : kind.isNftSideEffect = true := by
  cases kind <;> first | rfl | cases h

theorem ownershipNamedOf_sorted (h : b.Ok) :
    (s.ownershipNamedOf sql b k).Pairwise fun a b => a.order < b.order := by
  rw [ownershipNamedOf, List.pairwise_map]
  refine List.Pairwise.filter _ ?_
  rw [ownershipNamed, List.pairwise_filterMap]
  refine h.sorted.imp ?_
  have hsnd : ∀ {e : TokenEvent} {x : TokenKey × TokenEvent},
      (e.token.bind fun k =>
        if e.kind.isOwnership &&
            (s.upsertTokens sql b.transactionId).nonFungible e.contract then
          some (k, e)
        else none) = some x → x.2 = e := by
    intro e x hx
    obtain ⟨k', -, hif⟩ := Option.bind_eq_some_iff.mp hx
    split at hif
    · cases hif
      rfl
    · cases hif
  intro a a' haa x hx x' hx'
  rw [hsnd hx, hsnd hx']
  exact haa

theorem insertNfts_any {tx : Int} {r : TokenEventRow} (hr : r ∈ s.eventsOf tx)
    (hcandidate : s.isCandidate r = true) (htoken : r.event.token = some k) :
    ((s.insertNfts tx).nfts.any fun n => n.key == k) = true := by
  have hkeep : ∀ (ks : List TokenKey) (s : EventDb),
      (s.nfts.any fun n => n.key == k) = true →
        ((ks.foldl insertNft s).nfts.any fun n => n.key == k) = true := by
    intro ks
    induction ks with
    | nil => exact fun _ h => h
    | cons k' ks ih =>
        intro s h
        refine ih _ ?_
        rw [insertNft]
        dsimp only
        split
        · exact h
        · rw [List.any_append, h, Bool.true_or]
  have hnew : ∀ (ks : List TokenKey) (s : EventDb), k ∈ ks →
      ((ks.foldl insertNft s).nfts.any fun n => n.key == k) = true := by
    intro ks
    induction ks with
    | nil => exact fun _ h => absurd h List.not_mem_nil
    | cons k' ks ih =>
        intro s h
        rcases List.mem_cons.mp h with rfl | h
        · refine hkeep ks _ ?_
          rw [insertNft]
          dsimp only
          split
          · next hany => exact hany
          · rw [List.any_append, List.any_cons, beq_self_eq_true,
              Bool.true_or, Bool.or_true]
        · exact ih _ h
  refine hnew _ s (List.mem_filterMap.mpr ⟨r, ?_, htoken⟩)
  exact List.mem_filter.mpr ⟨hr, hcandidate⟩

/-- The state that the ownership statement reads. -/
theorem withSeries_upsertTokens :
    (s.withSeries sql b).tokens =
      (s.upsertTokens sql b.transactionId).tokens ∧
    (s.withSeries sql b).ownerships = s.ownerships := by
  have htokens := s.withTokens_butTokens sql b
  have hseries := s.withSeries_butSeries sql b
  simp only [butTokens, butSeries, Prod.mk.injEq] at htokens hseries
  exact ⟨hseries.2.2.1.trans (s.withTokens_tokens sql b),
    hseries.2.2.2.2.1.trans htokens.2.2.2.1⟩

theorem nonFungible_congr {s' : EventDb} (h : s'.tokens = s.tokens)
    (contract : String) : s'.nonFungible contract = s.nonFungible contract := by
  rw [nonFungible, nonFungible, h]

theorem tokenId_isSome (h : e.token = some k) : e.tokenId.isSome = true := by
  obtain ⟨id, hid, -⟩ := Option.map_eq_some_iff.mp h
  rw [hid]
  rfl

/-- An event that names an owner passes the gates before the statement. -/
theorem isCandidate_of_named (h : e ∈ s.ownershipNamedOf sql b k)
    {r : TokenEventRow} (hr : r.event = e) :
    (s.withSeries sql b).isCandidate r = true := by
  obtain ⟨-, htoken, hkind, hfungible⟩ := mem_ownershipNamedOf.mp h
  rw [isCandidate, hr, tokenId_isSome htoken,
    isNftSideEffect_of_isOwnership hkind,
    nonFungible_congr withSeries_upsertTokens.1, hfungible]
  rfl

/-- The side effects of a transaction, NFT by NFT. -/
theorem sideEffects_ownership (hb : b.Ok) (hstores : s.Stores b)
    (h : s.ownerships.Ok OwnershipCells.nft) :
    (s.applyBlockEventSideEffects sql b).ownerships.Ok OwnershipCells.nft ∧
    ∀ k, OwnershipEnds k (s.ownerships.find OwnershipCells.nft k)
      ((s.applyBlockEventSideEffects sql b).ownerships.find
        OwnershipCells.nft k)
      (s.ownershipNamedOf sql b k).getLast? := by
  obtain ⟨htokens, howners⟩ := @withSeries_upsertTokens sql s b
  have hstores₃ : (s.withSeries sql b).Stores b := by
    rw [Stores, s.withSeries_fixed sql b]
    exact hstores
  rw [applyBlockEventSideEffects_ownerships, withNfts]
  split
  · have hinsert := (s.withSeries sql b).insertNfts_butNfts b.transactionId
    simp only [butNfts, Prod.mk.injEq] at hinsert
    obtain ⟨s₅, hs₅⟩ : ∃ s₅, s₅ = ((s.withSeries sql b).insertNfts
      b.transactionId).linkEvents b.transactionId := ⟨_, rfl⟩
    have howners₅ : s₅.ownerships = s.ownerships := by
      rw [hs₅]
      exact hinsert.2.2.2.1.trans howners
    have htokens₅ : s₅.tokens = (s.upsertTokens sql b.transactionId).tokens := by
      rw [hs₅]
      exact hinsert.2.2.1.trans htokens
    have hstores₅ : s₅.Stores b := by
      rw [Stores, hs₅, linkEvents_fixed, fixed, hinsert.1]
      exact hstores₃
    obtain ⟨hok, hends⟩ := s₅.applyOwnership_spec b.transactionId
      (howners₅ ▸ h)
    rw [applyNftSideEffects, ← hs₅]
    refine ⟨hok, fun k => ?_⟩
    rw [← howners₅, ← argmax_eq_getLast? _ (ownershipNamedOf_sorted hb)]
    · exact hends k
    · intro e
      rw [mem_ownershipEventsOf, mem_ownershipNamedOf,
        nonFungible_congr htokens₅, hstores₅.mem_eventsOf]
      constructor
      · rintro ⟨he, htoken, hkind, -, hfungible⟩
        exact ⟨he, htoken, hkind, hfungible⟩
      · rintro ⟨he, htoken, hkind, hfungible⟩
        refine ⟨he, htoken, hkind, ?_, hfungible⟩
        obtain ⟨r, hr, hevent⟩ := hstores₃.mem_eventsOf.mpr he
        rw [hs₅]
        exact insertNfts_any hr (isCandidate_of_named
          (mem_ownershipNamedOf.mpr ⟨he, htoken, hkind, hfungible⟩) hevent)
          (hevent ▸ htoken)
  · next hgate =>
      refine ⟨howners ▸ h, fun k => ?_⟩
      have hnone : s.ownershipNamedOf sql b k = [] := by
        refine List.eq_nil_iff_forall_not_mem.mpr fun e he => hgate ?_
        obtain ⟨hmem, htoken, hkind, -⟩ := mem_ownershipNamedOf.mp he
        obtain ⟨r, hr, hevent⟩ := hstores₃.mem_eventsOf.mpr hmem
        rw [Bool.and_eq_true, List.any_eq_true, hasNftCandidates,
          List.any_eq_true]
        refine ⟨⟨e, hmem, ?_⟩, r, hr, isCandidate_of_named he hevent⟩
        rw [tokenId_isSome htoken, isNftSideEffect_of_isOwnership hkind]
        rfl
      rw [hnone, howners]
      exact .unnamed

end EventDb

/-! ## Runs -/

/-- The events of one NFT and those after them. -/
theorem OwnershipEnds.trans {k : TokenKey}
    {old mid new : Option (Stored OwnershipCells)} {l l' : List TokenEvent}
    (h : OwnershipEnds k old mid l.getLast?)
    (h' : OwnershipEnds k mid new l'.getLast?)
    (htimes : ∀ e ∈ l, ∀ e' ∈ l', e.timestamp ≤ e'.timestamp) :
    OwnershipEnds k old new (l ++ l').getLast? := by
  rw [List.getLast?_append]
  cases hl' : l'.getLast? with
  | none =>
      rw [hl'] at h'
      cases h'
      exact h
  | some e' =>
      have hbefore : ∀ e, l.getLast? = some e → e.timestamp ≤ e'.timestamp :=
        fun e he => htimes e (List.mem_of_getLast? he) e'
          (List.mem_of_getLast? hl')
      rw [hl'] at h'
      rw [Option.some_or]
      generalize hl : l.getLast? = last at h hbefore
      cases h with
      | unnamed => exact h'
      | later hold hlater => exact h'
      | @owned e id amount hold =>
          have hle := hbefore e rfl
          generalize hmid : (some ⟨id, k, e.address, e.timestamp, amount⟩ :
            Option (Stored OwnershipCells)) = mid at h'
          cases h' with
          | later hr hlater =>
              rw [← hmid] at hr
              cases hr
              exact absurd hle (not_le.mpr hlater)
          | owned hstored =>
              refine .owned fun r hr => ?_
              obtain ⟨-, hid⟩ := hstored _ hmid.symm
              obtain ⟨hchange, hid'⟩ := hold r hr
              exact ⟨le_trans hchange hle, hid.trans hid'⟩

/-- Each transaction once in its block, each index once in its transaction,
and times that do not go back. -/
structure ChainOk (chain : List (SqlServer × List EventBatch)) : Prop where
  blocks : ∀ block ∈ chain, EventBatchesOk block.2
  batches : ∀ b ∈ chain.flatMap Prod.snd, b.Ok
  times : (chain.flatMap Prod.snd).Pairwise fun b b' =>
    ∀ e ∈ b.events, ∀ e' ∈ b'.events, e.timestamp ≤ e'.timestamp

namespace EventDb

/-- The events that name an owner in a block, from where its side effects
start. -/
def ownershipLogOf (sql : SqlServer) :
    EventDb → List EventBatch → List (TokenKey × TokenEvent)
  | _, [] => []
  | s, b :: batches =>
      s.ownershipNamed sql b ++
        ownershipLogOf sql (s.applyBlockEventSideEffects sql b) batches

/-- The events that name an owner, in chain order. -/
def ownershipLog : EventDb → List (SqlServer × List EventBatch) →
    List (TokenKey × TokenEvent)
  | _, [] => []
  | s, (sql, batches) :: blocks =>
      ownershipLogOf sql (s.insertBlockEvents batches) batches ++
        ownershipLog (s.projectBlockEvents sql batches) blocks

/-- The events of a log that name an NFT. -/
def logOf (log : List (TokenKey × TokenEvent)) (k : TokenKey) :
    List TokenEvent :=
  (log.filter fun x => x.1 == k).map Prod.snd

theorem logOf_append (log log' : List (TokenKey × TokenEvent)) (k : TokenKey) :
    logOf (log ++ log') k = logOf log k ++ logOf log' k := by
  rw [logOf, List.filter_append, List.map_append]
  rfl

/-- A logged event is an event of its transaction. -/
theorem mem_ownershipLogOf {sql : SqlServer} {s : EventDb}
    {batches : List EventBatch} {x : TokenKey × TokenEvent}
    (hx : x ∈ ownershipLogOf sql s batches) :
    ∃ b ∈ batches, x.2 ∈ b.events := by
  induction batches generalizing s with
  | nil => cases hx
  | cons b batches ih =>
      rw [ownershipLogOf, List.mem_append] at hx
      rcases hx with hx | hx
      · have hmem : x.2 ∈ s.ownershipNamedOf sql b x.1 :=
          List.mem_map_of_mem (List.mem_filter.mpr ⟨hx, beq_self_eq_true _⟩)
        exact ⟨b, List.mem_cons_self, (mem_ownershipNamedOf.mp hmem).1⟩
      · obtain ⟨b', hb', he⟩ := ih hx
        exact ⟨b', List.mem_cons_of_mem _ hb', he⟩

theorem mem_ownershipLog {s : EventDb}
    {chain : List (SqlServer × List EventBatch)} {x : TokenKey × TokenEvent}
    (hx : x ∈ s.ownershipLog chain) :
    ∃ b ∈ chain.flatMap Prod.snd, x.2 ∈ b.events := by
  induction chain generalizing s with
  | nil => cases hx
  | cons block chain ih =>
      obtain ⟨sql, batches⟩ := block
      rw [ownershipLog, List.mem_append] at hx
      rw [List.flatMap_cons]
      rcases hx with hx | hx
      · obtain ⟨b, hb, he⟩ := mem_ownershipLogOf hx
        exact ⟨b, List.mem_append_left _ hb, he⟩
      · obtain ⟨b, hb, he⟩ := ih hx
        exact ⟨b, List.mem_append_right _ hb, he⟩

/-- The side effects of the transactions of a block. -/
theorem sideEffects_run {sql : SqlServer} {s : EventDb}
    {batches : List EventBatch} (hb : ∀ b ∈ batches, b.Ok)
    (htimes : batches.Pairwise fun b b' =>
      ∀ e ∈ b.events, ∀ e' ∈ b'.events, e.timestamp ≤ e'.timestamp)
    (hstores : ∀ b ∈ batches, s.Stores b)
    (h : s.ownerships.Ok OwnershipCells.nft) :
    (batches.foldl (applyBlockEventSideEffects sql) s).ownerships.Ok
      OwnershipCells.nft ∧
    ∀ k, OwnershipEnds k (s.ownerships.find OwnershipCells.nft k)
      ((batches.foldl (applyBlockEventSideEffects sql) s).ownerships.find
        OwnershipCells.nft k)
      (logOf (ownershipLogOf sql s batches) k).getLast? := by
  induction batches generalizing s with
  | nil => exact ⟨h, fun k => .unnamed⟩
  | cons b batches ih =>
      rw [List.pairwise_cons] at htimes
      obtain ⟨hok, hends⟩ := @sideEffects_ownership sql s b
        (hb b List.mem_cons_self) (hstores b List.mem_cons_self) h
      have hstores' : ∀ b' ∈ batches,
          (s.applyBlockEventSideEffects sql b).Stores b' := by
        intro b' hb'
        rw [Stores, applyBlockEventSideEffects_fixed]
        exact hstores b' (List.mem_cons_of_mem _ hb')
      obtain ⟨hok', hends'⟩ := ih
        (fun b' hb' => hb b' (List.mem_cons_of_mem _ hb')) htimes.2 hstores' hok
      refine ⟨hok', fun k => ?_⟩
      rw [ownershipLogOf, logOf_append]
      refine (hends k).trans (hends' k) fun e he e' he' => ?_
      obtain ⟨x, hx, rfl⟩ := List.mem_map.mp he'
      obtain ⟨b', hb', hmem⟩ :=
        mem_ownershipLogOf (List.mem_filter.mp hx).1
      exact htimes.1 b' hb' e (mem_ownershipNamedOf.mp he).1 _ hmem

/-- A block, from the insert of its events to the last side effect. -/
theorem projectBlockEvents_ownership {sql : SqlServer} {s : EventDb}
    {batches : List EventBatch} (hblock : EventBatchesOk batches)
    (hb : ∀ b ∈ batches, b.Ok)
    (htimes : batches.Pairwise fun b b' =>
      ∀ e ∈ b.events, ∀ e' ∈ b'.events, e.timestamp ≤ e'.timestamp)
    (h : s.ownerships.Ok OwnershipCells.nft) :
    (s.projectBlockEvents sql batches).ownerships.Ok OwnershipCells.nft ∧
    ∀ k, OwnershipEnds k (s.ownerships.find OwnershipCells.nft k)
      ((s.projectBlockEvents sql batches).ownerships.find OwnershipCells.nft k)
      (logOf (ownershipLogOf sql (s.insertBlockEvents batches) batches)
        k).getLast? := by
  have hrest := s.insertBlockEvents_rest batches
  simp only [Prod.mk.injEq] at hrest
  have howners := hrest.2.2.2.1
  have hrun := @sideEffects_run sql _ batches hb htimes
    (fun b hb => s.insertBlockEvents_stores hblock hb) (howners ▸ h)
  rw [howners] at hrun
  exact hrun

end EventDb

/-- An NFT has at most one row, and its row is what the last event that named
an owner says, unless the stored change is later. -/
theorem ownership_follows_last_event {s : EventDb}
    {chain : List (SqlServer × List EventBatch)}
    (hs : s.ownerships.Ok OwnershipCells.nft) (hchain : ChainOk chain) :
    (s.projectBlocks chain).ownerships.Ok OwnershipCells.nft ∧
    ∀ k, OwnershipEnds k (s.ownerships.find OwnershipCells.nft k)
      ((s.projectBlocks chain).ownerships.find OwnershipCells.nft k)
      (EventDb.logOf (s.ownershipLog chain) k).getLast? := by
  induction chain generalizing s with
  | nil => exact ⟨hs, fun k => .unnamed⟩
  | cons block chain ih =>
      obtain ⟨sql, batches⟩ := block
      have hbatches := hchain.batches
      have htimes := hchain.times
      rw [List.flatMap_cons] at hbatches htimes
      rw [List.pairwise_append] at htimes
      obtain ⟨hok, hends⟩ := @EventDb.projectBlockEvents_ownership sql s _
        (hchain.blocks _ List.mem_cons_self)
        (fun b hb => hbatches b (List.mem_append_left _ hb)) htimes.1 hs
      obtain ⟨hok', hends'⟩ := ih hok
        ⟨fun block hblock => hchain.blocks block (List.mem_cons_of_mem _ hblock),
          fun b hb => hbatches b (List.mem_append_right _ hb), htimes.2.1⟩
      refine ⟨hok', fun k => ?_⟩
      rw [EventDb.ownershipLog, EventDb.logOf_append]
      refine (hends k).trans (hends' k) fun e he e' he' => ?_
      obtain ⟨x, hx, rfl⟩ := List.mem_map.mp he
      obtain ⟨x', hx', rfl⟩ := List.mem_map.mp he'
      obtain ⟨b, hb, hmem⟩ :=
        EventDb.mem_ownershipLogOf (List.mem_filter.mp hx).1
      obtain ⟨b', hb', hmem'⟩ :=
        EventDb.mem_ownershipLog (List.mem_filter.mp hx').1
      exact htimes.2.2 b hb b' hb' _ hmem _ hmem'

/-! ### A sale -/

def plainSql : SqlServer := ⟨id, fun _ => 0⟩

def soldToken : TokenKey := ⟨"CROWN", "7"⟩

/-- A token, a mint of it, and a sale in one transaction at the same time. -/
def saleChain : List (SqlServer × List EventBatch) :=
  [(plainSql,
    [⟨1, [{
        eventIndex := 0, kind := .tokenCreate, contract := "token",
        address := "P2K1", timestamp := 60, create := some ⟨"CROWN", false⟩ }]⟩,
      ⟨2, [{
        eventIndex := 0, kind := .tokenMint, contract := "CROWN",
        tokenId := some "7", address := "P2K1", timestamp := 60 }]⟩]),
    (plainSql,
    [⟨3, [
      { eventIndex := 1, kind := .tokenReceive, contract := "CROWN",
        tokenId := some "7", address := "P2K2", timestamp := 60 },
      { eventIndex := 0, kind := .tokenSend, contract := "CROWN",
        tokenId := some "7", address := "P2K1", timestamp := 60 }]⟩])]

theorem saleChain_ok : ChainOk saleChain where
  blocks := by
    intro block hblock
    rcases List.mem_cons.mp hblock with rfl | hblock
    · exact ⟨by decide, by decide⟩
    · rw [List.mem_singleton.mp hblock]
      exact ⟨by decide, by decide⟩
  batches := by
    intro b hb
    have hb' : b ∈ (saleChain[0].2 ++ saleChain[1].2) := hb
    simp only [saleChain, List.getElem_cons_zero, List.getElem_cons_succ,
      List.cons_append, List.nil_append, List.mem_cons, List.not_mem_nil,
      or_false] at hb'
    rcases hb' with rfl | rfl | rfl <;> exact ⟨by decide, by decide⟩
  times := by decide

theorem ownership_follows_last_event_of_sale :
    ((({} : EventDb).projectBlocks saleChain).ownerships.find
      OwnershipCells.nft soldToken).map (fun r => r.cells.address) =
        some "P2K2" ∧
    (({} : EventDb).projectBlocks saleChain).ownerships.Ok OwnershipCells.nft ∧
    OwnershipEnds soldToken none
      ((({} : EventDb).projectBlocks saleChain).ownerships.find
        OwnershipCells.nft soldToken)
      (EventDb.logOf (({} : EventDb).ownershipLog saleChain)
        soldToken).getLast? := by
  have hempty : ({} : EventDb).ownerships.Ok OwnershipCells.nft :=
    ⟨by decide, by decide, by decide⟩
  obtain ⟨hok, hends⟩ := ownership_follows_last_event hempty saleChain_ok
  exact ⟨by decide +kernel, hok, hends soldToken⟩

end Explorer.Ref
