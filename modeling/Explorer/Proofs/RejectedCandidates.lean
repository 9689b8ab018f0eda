import Explorer.Ref.RejectedCandidates

/-!
# What is stored is what the node said, and it stays

However the requests interleave, a row of the table is the last capture of its
hash at the time of the first, and a capture is of two things that the node
said to the request that stored it: a transaction of that hash, and a block
that does not list it, or no block. Rows are neither doubled nor lost.

A record is only answered where the hash was not canonical at a moment since
the request came, and none is only answered where it was, or had no row.
-/

namespace Explorer.Ref

open Explorer.Lib

variable {toUppercase toLowercase : String → String} {api : RejectedApi}

/-! ## What a step can do -/

/-- The state after the node has answered for a transaction. -/
def RejectedState.hears (s : RejectedState) (hash : String)
    (tx : SdkPayload CapturedTransaction) : RejectedState :=
  { s with transactions := s.transactions ++ [(hash, tx)] }

/-- The state after the node has answered for a block. -/
def RejectedState.hearsBlock (s : RejectedState) (chain : String)
    (height : UInt64) (block : SdkPayload CapturedBlock) : RejectedState :=
  { s with blocks := s.blocks ++ [(chain, height, block)] }

/-- The state after a capture is stored. -/
def RejectedState.store (s : RejectedState) (capture : RejectedCapture) :
    RejectedState :=
  { s with
    rows := (upsertRejectedCandidate s.rows capture.candidate capture.now).1
    captures := s.captures ++ [capture] }

inductive RejectedMove (api : RejectedApi) (s : RejectedState)
    (t : RejectedThread) : RejectedState → RejectedPhase → Prop
  | canonical : t.phase = .checking → (t.hash, t.chain) ∈ s.canonical →
      RejectedMove api s t s (.ended (.answered []))
  | checked : t.phase = .checking → (t.hash, t.chain) ∉ s.canonical →
      RejectedMove api s t s .listing
  | listed : t.phase = .listing →
      listRejectedCandidates s.rows t.hash api.nexus t.chain ≠ [] →
      RejectedMove api s t s (.ended (.answered
        (listRejectedCandidates s.rows t.hash api.nexus t.chain)))
  | missing {p : RejectedPhase} : t.phase = .listing →
      listRejectedCandidates s.rows t.hash api.nexus t.chain = [] →
      (p = .fetching ∨ p = .ended (.answered [])) → RejectedMove api s t s p
  | unknown : t.phase = .fetching →
      RejectedMove api s t s (.ended (.answered []))
  | useless {tx : SdkPayload CapturedTransaction} {p : RejectedPhase} :
      t.phase = .fetching →
      (p = .ended (.answered []) ∨ ∃ error, p = .ended (.refused error)) →
      RejectedMove api s t (s.hears t.hash tx) p
  | told {tx : SdkPayload CapturedTransaction} : t.phase = .fetching →
      eqIgnoreAsciiCase tx.value.hash t.hash = true →
      0 < tx.value.blockHeight →
      RejectedMove api s t (s.hears t.hash tx) (.fetchingBlock tx)
  | captured {tx : SdkPayload CapturedTransaction}
      {candidate : RejectedCandidateUpsert} : t.phase = .fetching →
      eqIgnoreAsciiCase tx.value.hash t.hash = true →
      capturedCandidate t.hash api.nexus t.chain tx none = some candidate →
      RejectedMove api s t (s.hears t.hash tx)
        (.storing ⟨tx, none, candidate, s.now⟩)
  | noBlock {tx : SdkPayload CapturedTransaction}
      {candidate : RejectedCandidateUpsert} : t.phase = .fetchingBlock tx →
      capturedCandidate t.hash api.nexus t.chain tx none = some candidate →
      RejectedMove api s t s (.storing ⟨tx, none, candidate, s.now⟩)
  | inBlock {tx : SdkPayload CapturedTransaction}
      {block : SdkPayload CapturedBlock} : t.phase = .fetchingBlock tx →
      RejectedMove api s t
        (s.hearsBlock t.chain tx.value.blockHeight block)
        (.ended (.answered []))
  | outsideBlock {tx : SdkPayload CapturedTransaction}
      {block : SdkPayload CapturedBlock}
      {candidate : RejectedCandidateUpsert} : t.phase = .fetchingBlock tx →
      capturedCandidate t.hash api.nexus t.chain tx (some block) =
        some candidate →
      RejectedMove api s t
        (s.hearsBlock t.chain tx.value.blockHeight block)
        (.storing ⟨tx, some block, candidate, s.now⟩)
  | stored {capture : RejectedCapture} : t.phase = .storing capture →
      RejectedMove api s t (s.store capture)
        (.returning (candidateRow s.rows capture.candidate capture.now))
  | returned {record : RejectedCandidateRecord} : t.phase = .returning record →
      RejectedMove api s t s (.ended (.answered [record]))
  | lost {p : RejectedPhase} : (p = .ended .failed ∨ p = .ended .dropped) →
      RejectedMove api s t s p

/-- A step keeps what the request asks for. -/
def RejectedThread.Same (t t' : RejectedThread) : Prop :=
  t'.hash = t.hash ∧ t'.chain = t.chain

theorem capturedCandidate_none (hash nexus chain : String)
    (tx : SdkPayload CapturedTransaction) :
    ∃ candidate, capturedCandidate hash nexus chain tx none = some candidate :=
  ⟨_, rfl⟩

theorem RejectedThread.captured_moves (api : RejectedApi) (t : RejectedThread)
    (now : Int64) (tx : SdkPayload CapturedTransaction)
    (block : Option (SdkPayload CapturedBlock)) :
    t.Same (t.captured api now tx block) ∧
      ((∃ candidate,
          capturedCandidate t.hash api.nexus t.chain tx block =
            some candidate ∧
          (t.captured api now tx block).phase =
            .storing ⟨tx, block, candidate, now⟩) ∨
        block ≠ none ∧
          (t.captured api now tx block).phase = .ended (.answered [])) := by
  unfold captured
  split
  · next candidate h => exact ⟨⟨rfl, rfl⟩, .inl ⟨candidate, h, rfl⟩⟩
  · next h =>
      refine ⟨⟨rfl, rfl⟩, .inr ⟨fun hnone => ?_, rfl⟩⟩
      obtain ⟨candidate, hsome⟩ :=
        capturedCandidate_none t.hash api.nexus t.chain tx
      rw [hnone, hsome] at h
      cases h

theorem rejectedStep_moves {s s' : RejectedState} {t t' : RejectedThread}
    {a : RejectedAct} (h : rejectedStep api s t a = some (s', t')) :
    t.Same t' ∧ RejectedMove api s t s' t'.phase := by
  cases a with
  | query =>
      simp only [rejectedStep] at h
      split at h
      · next hphase =>
          split at h
          · next hin =>
              cases h
              exact ⟨⟨rfl, rfl⟩, .canonical hphase hin⟩
          · next hout =>
              cases h
              exact ⟨⟨rfl, rfl⟩, .checked hphase hout⟩
      · next hphase =>
          split at h
          · next hnone =>
              split at h <;> cases h
              · exact ⟨⟨rfl, rfl⟩, .missing hphase hnone (.inl rfl)⟩
              · exact ⟨⟨rfl, rfl⟩, .missing hphase hnone (.inr rfl)⟩
          · next hsome =>
              cases h
              exact ⟨⟨rfl, rfl⟩, .listed hphase hsome⟩
      · next hphase =>
          cases h
          exact ⟨⟨rfl, rfl⟩, .stored hphase⟩
      · next hphase =>
          cases h
          exact ⟨⟨rfl, rfl⟩, .returned hphase⟩
      · cases h
  | queryFailed =>
      simp only [rejectedStep] at h
      split at h <;> cases h <;> exact ⟨⟨rfl, rfl⟩, .lost (.inl rfl)⟩
  | transaction reply =>
      simp only [rejectedStep] at h
      split at h
      · next hphase =>
          cases reply with
          | none =>
              cases h
              exact ⟨⟨rfl, rfl⟩, .unknown hphase⟩
          | some tx =>
              simp only at h
              split at h
              · cases h
                exact ⟨⟨rfl, rfl⟩, .useless hphase (.inl rfl)⟩
              · next hhash =>
                  rw [Bool.not_eq_true', Bool.not_eq_false] at hhash
                  split at h
                  · next hheight =>
                      split at h <;> cases h
                      · exact ⟨⟨rfl, rfl⟩, .useless hphase (.inr ⟨_, rfl⟩)⟩
                      · exact ⟨⟨rfl, rfl⟩, .told hphase hhash hheight⟩
                  · cases h
                    obtain ⟨hsame, ⟨candidate, hc, hp⟩ | ⟨hne, -⟩⟩ :=
                      t.captured_moves api s.now tx none
                    · rw [hp]
                      exact ⟨hsame, .captured hphase hhash hc⟩
                    · exact absurd rfl hne
      · cases h
  | block reply =>
      simp only [rejectedStep] at h
      split at h
      · next tx hphase =>
          cases reply with
          | none =>
              cases h
              obtain ⟨hsame, ⟨candidate, hc, hp⟩ | ⟨hne, -⟩⟩ :=
                t.captured_moves api s.now tx none
              · rw [hp]
                exact ⟨hsame, .noBlock hphase hc⟩
              · exact absurd rfl hne
          | some block =>
              cases h
              obtain ⟨hsame, ⟨candidate, hc, hp⟩ | ⟨-, hp⟩⟩ :=
                t.captured_moves api s.now tx (some block)
              · rw [hp]
                exact ⟨hsame, .outsideBlock hphase hc⟩
              · rw [hp]
                exact ⟨hsame, .inBlock hphase⟩
      · cases h
  | drop =>
      simp only [rejectedStep] at h
      split at h
      · cases h
      · cases h
        exact ⟨⟨rfl, rfl⟩, .lost (.inr rfl)⟩

/-! ## The table follows the captures -/

/-- The row of captures of one key, one after the other. -/
def recordOf (captures : List RejectedCapture) :
    Option RejectedCandidateRecord :=
  captures.head?.bind fun first => captures.getLast?.map fun last =>
    ⟨last.candidate, first.now, last.now, last.now⟩

theorem recordOf_append (captures : List RejectedCapture)
    (c : RejectedCapture) : recordOf (captures ++ [c]) =
      some ⟨c.candidate,
        match recordOf captures with
        | some row => row.capturedAtUnixSeconds
        | none => c.now, c.now, c.now⟩ := by
  unfold recordOf
  rw [List.getLast?_concat]
  cases captures with
  | nil => rfl
  | cons first rest =>
      rw [List.cons_append, List.head?_cons, List.head?_cons]
      obtain ⟨last, hlast⟩ := List.getLast?_isSome.mpr
        (List.cons_ne_nil first rest) |> Option.isSome_iff_exists.mp
      rw [hlast]
      rfl

theorem recordOf_capturedAt {captures more : List RejectedCapture}
    {row : RejectedCandidateRecord} (h : recordOf captures = some row) :
    ∃ row', recordOf (captures ++ more) = some row' ∧
      row'.capturedAtUnixSeconds = row.capturedAtUnixSeconds := by
  induction more using List.reverseRecOn with
  | nil => exact ⟨row, by rw [List.append_nil, h], rfl⟩
  | append_singleton more c ih =>
      obtain ⟨row', hrow', hsame⟩ := ih
      rw [← List.append_assoc, recordOf_append, hrow']
      exact ⟨_, rfl, hsame⟩

/-- What was stored under a key, in order. -/
def RejectedState.capturesOf (s : RejectedState)
    (k : String × String × String) : List RejectedCapture :=
  s.captures.filter fun c => c.candidate.key == k

/-- No key twice, and under each the row of its captures. -/
structure RejectedState.Follows (s : RejectedState) : Prop where
  keys : (s.rows.map fun r => r.key).Nodup
  rows : ∀ k, (s.rows.find? fun r => r.key == k) = recordOf (s.capturesOf k)

theorem candidateRow_eq (rows : RejectedRows)
    (candidate : RejectedCandidateUpsert) (now : Int64) :
    candidateRow rows candidate now = ⟨candidate,
      match rows.find? fun r => r.key == candidate.key with
      | some row => row.capturedAtUnixSeconds
      | none => now, now, now⟩ := by
  unfold candidateRow
  cases rows.find? fun r => r.key == candidate.key <;> rfl

theorem candidateRow_key (rows : RejectedRows)
    (candidate : RejectedCandidateUpsert) (now : Int64) :
    (candidateRow rows candidate now).key = candidate.key := by
  rw [candidateRow_eq]

theorem RejectedState.rows_store (s : RejectedState)
    (capture : RejectedCapture) :
    (s.store capture).rows = upsertRow (fun r => r.key ==
        (candidateRow s.rows capture.candidate capture.now).key)
      (candidateRow s.rows capture.candidate capture.now) s.rows := by
  rw [candidateRow_key]
  rfl

theorem RejectedState.Follows.store {s : RejectedState} (h : s.Follows)
    (capture : RejectedCapture) : (s.store capture).Follows := by
  refine ⟨?_, fun k => ?_⟩
  · rw [s.rows_store]
    exact nodup_upsertRow h.keys _
  · have hof : (s.store capture).capturesOf k = s.capturesOf k ++
        if capture.candidate.key == k then [capture] else [] := by
      show (s.captures ++ [capture]).filter _ = _
      rw [List.filter_append, List.filter_singleton, Bool.cond_eq_ite]
      rfl
    rw [s.rows_store, find?_upsertRow, candidateRow_key, hof, h.rows k]
    by_cases hk : capture.candidate.key = k
    · subst hk
      rw [if_pos (beq_self_eq_true _), if_pos (beq_self_eq_true _),
        recordOf_append, candidateRow_eq, h.rows]
    · have hne : ¬(capture.candidate.key == k) = true := fun h =>
        hk (beq_iff_eq.mp h)
      rw [if_neg hne, if_neg hne, List.append_nil]

theorem RejectedMove.follows {s s' : RejectedState} {t : RejectedThread}
    {p : RejectedPhase} (h : RejectedMove api s t s' p) (hs : s.Follows) :
    s'.Follows := by
  cases h with
  | stored => exact hs.store _
  | useless | told | captured | inBlock | outsideBlock =>
      exact ⟨hs.keys, hs.rows⟩
  | canonical | checked | listed | missing | unknown | noBlock | returned
  | lost => exact hs

/-! ## A capture is of what the node said -/

/-- The node has said both to the request, the transaction is of the hash, and
the candidate is what comes of them. -/
structure RejectedCapture.Sound (api : RejectedApi) (s : RejectedState)
    (c : RejectedCapture) : Prop where
  valid : isValidRejectedHash c.candidate.hash = true
  nexus : c.candidate.nexus = api.nexus
  told : (c.candidate.hash, c.transaction) ∈ s.transactions
  same : eqIgnoreAsciiCase c.transaction.value.hash c.candidate.hash = true
  block : ∀ block ∈ c.block, (c.candidate.chain,
    c.transaction.value.blockHeight, block) ∈ s.blocks
  candidate : capturedCandidate c.candidate.hash c.candidate.nexus
    c.candidate.chain c.transaction c.block = some c.candidate

/-- What the node has said stays said. -/
def RejectedState.Recalls (s s' : RejectedState) : Prop :=
  s.transactions ⊆ s'.transactions ∧ s.blocks ⊆ s'.blocks

theorem RejectedMove.recalls {s s' : RejectedState} {t : RejectedThread}
    {p : RejectedPhase} (h : RejectedMove api s t s' p) : s.Recalls s' := by
  cases h with
  | useless | told | captured =>
      exact ⟨List.subset_append_left _ _, List.Subset.refl _⟩
  | inBlock | outsideBlock =>
      exact ⟨List.Subset.refl _, List.subset_append_left _ _⟩
  | stored | canonical | checked | listed | missing | unknown | noBlock
  | returned | lost => exact ⟨List.Subset.refl _, List.Subset.refl _⟩

theorem RejectedCapture.Sound.mono {s s' : RejectedState} (h : s.Recalls s')
    {c : RejectedCapture} (hc : c.Sound api s) : c.Sound api s' :=
  ⟨hc.valid, hc.nexus, h.1 hc.told, hc.same,
    fun block hblock => h.2 (hc.block block hblock), hc.candidate⟩

theorem capturedCandidate_eq {hash nexus chain : String}
    {tx : SdkPayload CapturedTransaction}
    {block : Option (SdkPayload CapturedBlock)}
    {c : RejectedCandidateUpsert}
    (h : capturedCandidate hash nexus chain tx block = some c) :
    c.hash = hash ∧ c.nexus = nexus ∧ c.chain = chain ∧
      (block = none → c.canonicalStatus = some "block_unavailable") ∧
      ∀ b ∈ block, c.canonicalStatus = some "not_in_block_txs" ∧
        ∀ txHash ∈ b.value.txs, eqIgnoreAsciiCase txHash hash = false := by
  cases block with
  | none =>
      cases h
      exact ⟨rfl, rfl, rfl, fun _ => rfl, fun _ hb => nomatch hb⟩
  | some block =>
      obtain ⟨status, hstatus, rfl⟩ := Option.map_eq_some_iff.mp h
      unfold rejectedStatusForBlockTxs at hstatus
      split at hstatus
      · cases hstatus
      · next hnone =>
          cases hstatus
          refine ⟨rfl, rfl, rfl, (fun h => nomatch h), fun b hb => ?_⟩
          cases hb
          refine ⟨rfl, fun txHash hmem => Bool.eq_false_iff.mpr fun hsame => ?_⟩
          exact hnone (List.any_eq_true.mpr ⟨txHash, hmem, hsame⟩)

/-- Where the request stands it has been told what it holds. -/
def RejectedThread.Told (api : RejectedApi) (s : RejectedState)
    (t : RejectedThread) : Prop :=
  match t.phase with
  | .fetchingBlock tx => isValidRejectedHash t.hash = true ∧
      (t.hash, tx) ∈ s.transactions ∧
      eqIgnoreAsciiCase tx.value.hash t.hash = true
  | .storing c => c.Sound api s ∧ c.candidate.key = t.key api
  | .returning r => r.key = t.key api
  | .ended (.answered records) =>
      records.length ≤ 1 ∧ ∀ r ∈ records, r.key = t.key api
  | .ended _ => True
  | _ => isValidRejectedHash t.hash = true

theorem RejectedThread.Told.mono {s s' : RejectedState} (h : s.Recalls s')
    {t : RejectedThread} (ht : t.Told api s) : t.Told api s' := by
  unfold Told at ht ⊢
  split at ht
  · exact ⟨ht.1, h.1 ht.2.1, ht.2.2⟩
  · exact ⟨ht.1.mono h, ht.2⟩
  · exact ht
  · exact ht
  · trivial
  · exact ht

theorem mem_listRejectedCandidates {rows : RejectedRows}
    {hash nexus chain : String} {r : RejectedCandidateRecord} :
    r ∈ listRejectedCandidates rows hash nexus chain ↔
      r ∈ rows ∧ r.key = (nexus, chain, hash) := by
  rw [listRejectedCandidates, (List.perm_insertionSort _ _).mem_iff,
    List.mem_filter, RejectedCandidateUpsert.key]
  simp only [Bool.and_eq_true, beq_iff_eq, Prod.mk.injEq]
  tauto

/-- There is one row at most to list. -/
theorem RejectedState.Follows.listed {s : RejectedState} (h : s.Follows)
    (hash nexus chain : String) :
    (listRejectedCandidates s.rows hash nexus chain).length ≤ 1 := by
  have hmem := fun r => (@mem_listRejectedCandidates s.rows hash nexus chain
    r).mp
  have hnodup : ((listRejectedCandidates s.rows hash nexus chain).map
      fun r => r.key).Nodup := by
    refine ((List.perm_insertionSort _ _).map _).nodup_iff.mpr ?_
    exact h.keys.sublist (List.filter_sublist.map _)
  match hl : listRejectedCandidates s.rows hash nexus chain with
  | [] => exact Nat.zero_le _
  | [_] => exact Nat.le_refl _
  | r :: r' :: rest =>
      rw [hl] at hmem hnodup
      have hr := (hmem r List.mem_cons_self).2
      have hr' := (hmem r' (List.mem_cons_of_mem _ List.mem_cons_self)).2
      have hne := (List.nodup_cons.mp hnodup).1
      refine absurd ?_ hne
      show r.key ∈ _
      rw [hr, ← hr']
      exact List.mem_cons_self

theorem RejectedThread.Told.sound {s : RejectedState} {t : RejectedThread}
    (hvalid : isValidRejectedHash t.hash = true)
    {tx : SdkPayload CapturedTransaction}
    (htold : (t.hash, tx) ∈ s.transactions)
    (hsame : eqIgnoreAsciiCase tx.value.hash t.hash = true)
    {block : Option (SdkPayload CapturedBlock)}
    (hblock : ∀ b ∈ block, (t.chain, tx.value.blockHeight, b) ∈ s.blocks)
    {c : RejectedCandidateUpsert} (hc : capturedCandidate t.hash api.nexus
      t.chain tx block = some c) (now : Int64) :
    RejectedCapture.Sound api s ⟨tx, block, c, now⟩ ∧ c.key = t.key api := by
  obtain ⟨hhash, hnexus, hchain, -⟩ := capturedCandidate_eq hc
  refine ⟨⟨?_, hnexus, ?_, ?_, ?_, ?_⟩, ?_⟩
  · rw [hhash]
    exact hvalid
  · rw [hhash]
    exact htold
  · rw [hhash]
    exact hsame
  · rw [hchain]
    exact hblock
  · rw [hhash, hnexus, hchain]
    exact hc
  · rw [RejectedCandidateUpsert.key, hhash, hnexus, hchain]
    rfl

theorem RejectedMove.told_kept {s s' : RejectedState} {t t' : RejectedThread}
    (h : RejectedMove api s t s' t'.phase) (hsame : t.Same t')
    (hs : s.Follows) (ht : t.Told api s) : t'.Told api s' := by
  have hkey : t'.key api = t.key api := by
    rw [RejectedThread.key, hsame.1, hsame.2]
    rfl
  have hnone : ∀ k : String × String × String,
      ([] : List RejectedCandidateRecord).length ≤ 1 ∧
        ∀ r ∈ ([] : List RejectedCandidateRecord), r.key = k :=
    fun _ => ⟨Nat.zero_le _, fun _ h => nomatch h⟩
  unfold RejectedThread.Told at ht ⊢
  rw [hsame.1, hkey]
  generalize t'.phase = p at h
  cases h with
  | canonical | unknown | inBlock => exact hnone _
  | listed hphase =>
      exact ⟨hs.listed t.hash api.nexus t.chain, fun r hr =>
        (mem_listRejectedCandidates.mp hr).2⟩
  | returned hphase =>
      rw [hphase] at ht
      refine ⟨Nat.le_refl _, fun r hr => ?_⟩
      rw [List.mem_singleton.mp hr]
      exact ht
  | stored hphase =>
      rw [hphase] at ht
      exact (candidateRow_key _ _ _).trans ht.2
  | checked hphase =>
      rw [hphase] at ht
      exact ht
  | missing hphase _ hp =>
      rw [hphase] at ht
      rcases hp with rfl | rfl
      · exact ht
      · exact hnone _
  | useless hphase hp =>
      rcases hp with rfl | ⟨_, rfl⟩
      · exact hnone _
      · trivial
  | told hphase hsame =>
      rw [hphase] at ht
      exact ⟨ht, List.mem_append_right _ (List.mem_singleton_self _), hsame⟩
  | captured hphase hsame hc =>
      rw [hphase] at ht
      exact RejectedThread.Told.sound ht
        (List.mem_append_right _ (List.mem_singleton_self _)) hsame
        (by intro _ h; cases h) hc _
  | noBlock hphase hc =>
      rw [hphase] at ht
      exact RejectedThread.Told.sound ht.1 ht.2.1 ht.2.2
        (by intro _ h; cases h) hc _
  | outsideBlock hphase hc =>
      rw [hphase] at ht
      refine RejectedThread.Told.sound (s := s.hearsBlock _ _ _) ht.1 ht.2.1
        ht.2.2 (fun b hb => ?_) hc _
      cases hb
      exact List.mem_append_right _ (List.mem_singleton_self _)
  | lost hp => rcases hp with rfl | rfl <;> trivial

/-- What every run keeps of the shared state. -/
structure RejectedState.Ok (api : RejectedApi) (s : RejectedState) : Prop where
  follows : s.Follows
  sound : ∀ c ∈ s.captures, c.Sound api s

theorem RejectedMove.ok {s s' : RejectedState} {t : RejectedThread}
    {p : RejectedPhase} (h : RejectedMove api s t s' p) (hs : s.Ok api)
    (ht : t.Told api s) : s'.Ok api := by
  refine ⟨h.follows hs.follows, fun c hc => ?_⟩
  have hrecalls := h.recalls
  unfold RejectedThread.Told at ht
  cases h with
  | stored hphase =>
      rw [hphase] at ht
      rcases List.mem_append.mp hc with hc | hc
      · exact (hs.sound c hc).mono hrecalls
      · rw [List.mem_singleton.mp hc]
        exact RejectedCapture.Sound.mono hrecalls ht.1
  | useless | told | captured | inBlock | outsideBlock | canonical | checked
  | listed | missing | unknown | noBlock | returned | lost =>
      exact (hs.sound c hc).mono hrecalls

theorem rejectedRequest_valid {query : RejectedTransactionListQuery}
    {r : RejectedRequest}
    (h : rejectedRequest toUppercase toLowercase api query = .ok r) :
    isValidRejectedHash r.hash = true := by
  unfold rejectedRequest at h
  simp only at h
  split at h
  · next hash hfilter =>
      have hvalid := (Option.filter_eq_some_iff.mp hfilter).2
      split at h
      · split at h <;> cases h
        exact hvalid
      · cases h
        exact hvalid
  · cases h

theorem RejectedThread.arrive_told (s : RejectedState)
    (query : RejectedTransactionListQuery) :
    (RejectedThread.arrive toUppercase toLowercase api query).Told api s := by
  unfold arrive
  split
  · next r hr => exact rejectedRequest_valid hr
  · trivial

theorem rejected_rules :
    (rejectedSystem toUppercase toLowercase api).Rules (fun _ _ => True)
      (RejectedState.Ok api) fun s t => t.Told api s where
  spawn s query _ := RejectedThread.arrive_told s query
  step s t a s' t' hs ht h := by
    obtain ⟨hsame, hmove⟩ := rejectedStep_moves h
    exact ⟨hmove.ok hs ht, hmove.told_kept hsame hs.follows ht⟩
  other s t a s' t' u _ _ hu _ h :=
    hu.mono (rejectedStep_moves h).2.recalls
  env s e s' hs h := by
    have hrecalls : s.Recalls s' := by
      cases e <;> cases h <;>
        exact ⟨List.Subset.refl _, List.Subset.refl _⟩
    have hsame : s'.Follows ∧ s'.captures = s.captures := by
      cases e <;> cases h <;>
        exact ⟨⟨hs.follows.keys, hs.follows.rows⟩, rfl⟩
    refine ⟨⟨hsame.1, fun c hc => ?_⟩, fun t ht => ht.mono hrecalls⟩
    rw [hsame.2] at hc
    exact (hs.sound c hc).mono hrecalls

theorem rejected_invariant {as : List _}
    {s : Threads RejectedState RejectedThread}
    (h : (rejectedSystem toUppercase toLowercase api).Runs rejectedStart as s) :
    s.All (RejectedState.Ok api) fun s t => t.Told api s := by
  have hstart : rejectedStart.All (RejectedState.Ok api)
      fun s t => t.Told api s :=
    ⟨⟨⟨List.nodup_nil, fun _ => rfl⟩, fun c hc => nomatch hc⟩,
      fun t ht => nomatch ht⟩
  exact (rejected_rules.runs (I := fun _ => True) (fun _ _ _ _ _ => trivial)
    (fun _ _ _ _ _ _ _ _ _ _ => trivial) h trivial hstart).2

/-- Nothing that was stored is forgotten. -/
theorem RejectedMove.captures_extend {s s' : RejectedState}
    {t : RejectedThread} {p : RejectedPhase}
    (h : RejectedMove api s t s' p) : s.captures <+: s'.captures := by
  cases h with
  | stored => exact List.prefix_append _ _
  | useless | told | captured | inBlock | outsideBlock | canonical | checked
  | listed | missing | unknown | noBlock | returned | lost =>
      exact List.prefix_rfl

theorem captures_extend_of_runs {as : List _}
    {s s' : Threads RejectedState RejectedThread}
    (h : (rejectedSystem toUppercase toLowercase api).Runs s as s') :
    s.shared.captures <+: s'.shared.captures := by
  refine h.invariant (I := fun s' => s.shared.captures <+: s'.shared.captures)
    ?_ List.prefix_rfl
  intro s₁ a s₂ hprefix hmove
  cases hmove with
  | spawn query => exact hprefix
  | step _ hstep =>
      exact hprefix.trans (rejectedStep_moves hstep).2.captures_extend
  | @env e _ henv =>
      cases e <;> cases henv <;> exact hprefix

theorem RejectedState.Ok.row {s : RejectedState} (h : s.Ok api)
    {r : RejectedCandidateRecord} (hr : r ∈ s.rows) :
    recordOf (s.capturesOf r.key) = some r := by
  rw [← h.follows.rows r.key]
  exact (find?_key_eq_some h.follows.keys).mpr ⟨hr, rfl⟩

/-! ## The main statements -/

/-- In every run from an empty table: no key has two rows, and each has its
last capture at the time of its first. A capture is of a transaction of that
hash that the node named when it was asked for it, and of the block the node
gave for its height, which does not list it, or of no block. A row stays, with
the time it was first captured. -/
theorem rejected_rows_follow_captures {as : List _}
    {s : Threads RejectedState RejectedThread}
    (h : (rejectedSystem toUppercase toLowercase api).Runs rejectedStart as s) :
    (s.shared.rows.map fun r => r.key).Nodup ∧
    (∀ k, (s.shared.rows.find? fun r => r.key == k) =
      recordOf (s.shared.capturesOf k)) ∧
    (∀ c ∈ s.shared.captures,
      isValidRejectedHash c.candidate.hash = true ∧
      c.candidate.nexus = api.nexus ∧
      (c.candidate.hash, c.transaction) ∈ s.shared.transactions ∧
      eqIgnoreAsciiCase c.transaction.value.hash c.candidate.hash = true ∧
      capturedCandidate c.candidate.hash c.candidate.nexus c.candidate.chain
        c.transaction c.block = some c.candidate ∧
      ∀ block ∈ c.block, (c.candidate.chain,
          c.transaction.value.blockHeight, block) ∈ s.shared.blocks ∧
        ∀ txHash ∈ block.value.txs,
          eqIgnoreAsciiCase txHash c.candidate.hash = false) ∧
    ∀ later s', (rejectedSystem toUppercase toLowercase api).Runs s later s' →
      ∀ r ∈ s.shared.rows, ∃ r' ∈ s'.shared.rows, r'.key = r.key ∧
        r'.capturedAtUnixSeconds = r.capturedAtUnixSeconds := by
  have hok := (rejected_invariant h).1
  refine ⟨hok.follows.keys, hok.follows.rows, fun c hc => ?_,
    fun later s' hlater r hr => ?_⟩
  · have hsound := hok.sound c hc
    obtain ⟨-, -, -, -, hblock⟩ := capturedCandidate_eq hsound.candidate
    exact ⟨hsound.valid, hsound.nexus, hsound.told, hsound.same,
      hsound.candidate, fun b hb => ⟨hsound.block b hb, (hblock b hb).2⟩⟩
  · have hok' := (rejected_invariant (h.append hlater)).1
    obtain ⟨more, hmore⟩ := captures_extend_of_runs hlater
    have hof : s'.shared.capturesOf r.key = s.shared.capturesOf r.key ++
        more.filter fun c => c.candidate.key == r.key := by
      rw [RejectedState.capturesOf, ← hmore, List.filter_append]
      rfl
    obtain ⟨r', hr', htime⟩ := @recordOf_capturedAt _
      (more.filter fun c => c.candidate.key == r.key) _ (hok.row hr)
    rw [← hof, ← hok'.follows.rows] at hr'
    have hmem := (find?_key_eq_some hok'.follows.keys).mp hr'
    exact ⟨r', hmem.1, hmem.2, htime⟩

/-- A hash that is not canonical, and what the node says to it. -/
def lostHash : String :=
  "1046EBBBD6356036D6B4C07CD977998CFF54188E7BE4FBB75705696F609F6E51"

def lostTransaction : SdkPayload CapturedTransaction where
  value := ⟨lostHash, "B1", 7, 1700000000, "Fault", "", none, "", "0D", "5",
    1700003600, "1", "2", "P1", "P1", "NULL"⟩
  rawValue := "tx"

/-- Two requests that capture one hash. The second is the first to store, and
the first then stores under the time it read before. -/
def rejectedTwo : List
    (ThreadAct RejectedTransactionListQuery RejectedAct RejectedEnv) :=
  [.env (.clock 100), .spawn ⟨some lostHash, none, none⟩, .step 0 .query,
    .step 0 .query, .spawn ⟨some lostHash, some "main", some 1⟩,
    .step 1 .query, .step 1 .query,
    .step 0 (.transaction (some lostTransaction)),
    .step 0 (.block (some ⟨⟨"B1", ["AA"]⟩, "block"⟩)), .env (.clock 101),
    .step 1 (.transaction (some lostTransaction)), .step 1 (.block none),
    .step 1 .query, .step 0 .query, .step 1 .query, .step 0 .query,
    .spawn ⟨some lostHash, none, none⟩, .step 2 .query, .step 2 .query]

/-- How that run ends: one row, with the later time first. -/
theorem rejectedTwo_ends :
    ∃ s, (rejectedSystem id id ⟨"main", "mainnet", true⟩).Runs rejectedStart
        rejectedTwo s ∧
      s.shared.rows.map (fun r =>
        (r.capturedAtUnixSeconds, r.updatedAtUnixSeconds)) = [(101, 100)] ∧
      (s.threads[2]?.bind RejectedThread.response).map List.isEmpty =
        some false := by
  have hruns := ThreadSystem.runs_of_runSteps
    (show runSteps (rejectedSystem id id ⟨"main", "mainnet", true⟩).next
      rejectedStart rejectedTwo = some _ from rfl)
  exact ⟨_, hruns, rfl, rfl⟩

theorem rejected_rows_follow_captures_two :
    ∃ s, (rejectedSystem id id ⟨"main", "mainnet", true⟩).Runs rejectedStart
        rejectedTwo s ∧
      s.shared.rows.map (fun r =>
        (r.capturedAtUnixSeconds, r.updatedAtUnixSeconds)) = [(101, 100)] ∧
      ∀ k, (s.shared.rows.find? fun r => r.key == k) =
        recordOf (s.shared.capturesOf k) := by
  obtain ⟨s, hruns, hrows, -⟩ := rejectedTwo_ends
  exact ⟨s, hruns, hrows, (rejected_rows_follow_captures hruns).2.1⟩

/-! ## What is answered -/

/-- The request has seen that the hash is not canonical. -/
def RejectedThread.outside (t : RejectedThread) : Option (String × String) :=
  match t.phase with
  | .listing | .fetching | .fetchingBlock _ | .storing _ | .returning _
  | .ended (.answered (_ :: _)) => some (t.hash, t.chain)
  | _ => none

/-- The records that the request has to answer. -/
def RejectedThread.records (api : RejectedApi) (t : RejectedThread) :
    Option ((String × String × String) × List RejectedCandidateRecord) :=
  match t.phase with
  | .returning r => some (t.key api, [r])
  | .ended (.answered (r :: rs)) => some (t.key api, r :: rs)
  | _ => none

/-- The request has seen that there is nothing to answer. -/
def RejectedThread.nothing (api : RejectedApi) (t : RejectedThread) :
    Option (String × String × String) :=
  match t.phase with
  | .fetching | .fetchingBlock _ | .ended (.answered []) => some (t.key api)
  | _ => none

theorem RejectedThread.learnt_arrive
    (query : RejectedTransactionListQuery) :
    let t := RejectedThread.arrive toUppercase toLowercase api query
    t.outside = none ∧ t.records api = none ∧ t.nothing api = none := by
  unfold arrive
  split <;> exact ⟨rfl, rfl, rfl⟩

theorem RejectedMove.outside_cases {s s' : RejectedState}
    {t t' : RejectedThread} (h : RejectedMove api s t s' t'.phase)
    (hsame : t.Same t') {k : String × String} (hk : t'.outside = some k) :
    t.outside = some k ∨ k ∉ s.canonical := by
  unfold RejectedThread.outside at hk ⊢
  rw [hsame.1, hsame.2] at hk
  generalize t'.phase = p at h hk
  cases h with
  | canonical | unknown | inBlock => cases hk
  | checked hphase hout =>
      cases hk
      exact .inr hout
  | listed hphase hne =>
      rw [hphase]
      generalize listRejectedCandidates s.rows t.hash api.nexus t.chain =
        records at hne hk
      cases records with
      | nil => exact absurd rfl hne
      | cons => exact .inl hk
  | told hphase | captured hphase | noBlock hphase | outsideBlock hphase
  | stored hphase | returned hphase =>
      rw [hphase]
      exact .inl hk
  | missing hphase _ hp =>
      rw [hphase]
      rcases hp with rfl | rfl
      · exact .inl hk
      · cases hk
  | useless hphase hp =>
      rcases hp with rfl | ⟨_, rfl⟩ <;> cases hk
  | lost hp => rcases hp with rfl | rfl <;> cases hk

theorem RejectedMove.records_cases {s s' : RejectedState}
    {t t' : RejectedThread} (h : RejectedMove api s t s' t'.phase)
    (hsame : t.Same t') {k : String × String × String}
    {rs : List RejectedCandidateRecord}
    (hk : t'.records api = some (k, rs)) :
    t.records api = some (k, rs) ∨ (∀ r ∈ rs, r ∈ s.rows) ∨
      ∀ r ∈ rs, r ∈ s'.rows := by
  have hkey : t'.key api = t.key api := by
    rw [RejectedThread.key, hsame.1, hsame.2]
    rfl
  unfold RejectedThread.records at hk ⊢
  rw [hkey] at hk
  generalize t'.phase = p at h hk
  cases h with
  | canonical | checked | unknown | told | captured | noBlock | inBlock
  | outsideBlock => cases hk
  | listed hphase hne =>
      have hrows : ∀ r ∈ listRejectedCandidates s.rows t.hash api.nexus t.chain,
          r ∈ s.rows := fun r hr => (mem_listRejectedCandidates.mp hr).1
      generalize listRejectedCandidates s.rows t.hash api.nexus t.chain =
        records at hne hk hrows
      cases records with
      | nil => exact absurd rfl hne
      | cons =>
          cases hk
          exact .inr (.inl hrows)
  | missing _ _ hp => rcases hp with rfl | rfl <;> cases hk
  | useless _ hp => rcases hp with rfl | ⟨_, rfl⟩ <;> cases hk
  | stored hphase =>
      cases hk
      refine .inr (.inr fun r hr => ?_)
      rw [List.mem_singleton.mp hr]
      rw [RejectedState.rows_store]
      refine (mem_upsertRow ?_).mpr (.inl rfl)
      exact beq_self_eq_true _
  | returned hphase =>
      rw [hphase]
      exact .inl hk
  | lost hp => rcases hp with rfl | rfl <;> cases hk

theorem RejectedMove.nothing_cases {s s' : RejectedState}
    {t t' : RejectedThread} (h : RejectedMove api s t s' t'.phase)
    (hsame : t.Same t') {k : String × String × String}
    (hk : t'.nothing api = some k) :
    t.nothing api = some k ∨ (k.2.2, k.2.1) ∈ s.canonical ∨
      ∀ r ∈ s.rows, r.key ≠ k := by
  have hkey : t'.key api = t.key api := by
    rw [RejectedThread.key, hsame.1, hsame.2]
    rfl
  unfold RejectedThread.nothing at hk ⊢
  rw [hkey] at hk
  generalize t'.phase = p at h hk
  cases h with
  | canonical _ hin =>
      cases hk
      exact .inr (.inl hin)
  | checked | captured | noBlock | outsideBlock | stored | returned => cases hk
  | listed _ hne =>
      generalize listRejectedCandidates s.rows t.hash api.nexus t.chain =
        records at hne hk
      cases records with
      | nil => exact absurd rfl hne
      | cons => cases hk
  | missing _ hnone hp =>
      have hk : some (t.key api) = some k := by
        rcases hp with rfl | rfl <;> exact hk
      cases hk
      refine .inr (.inr fun r hr heq => ?_)
      have hin := mem_listRejectedCandidates.mpr ⟨hr, heq⟩
      rw [hnone] at hin
      cases hin
  | unknown hphase | told hphase | inBlock hphase =>
      rw [hphase]
      exact .inl hk
  | useless hphase hp =>
      rw [hphase]
      rcases hp with rfl | ⟨_, rfl⟩
      · exact .inl hk
      · cases hk
  | lost hp => rcases hp with rfl | rfl <;> cases hk

/-- It was so at a moment of the run since the request came. -/
def RejectedSince (toUppercase toLowercase : String → String)
    (api : RejectedApi)
    (as : List (ThreadAct RejectedTransactionListQuery RejectedAct RejectedEnv))
    (s : Threads RejectedState RejectedThread) (i : Nat)
    (P : RejectedState → Prop) : Prop :=
  ∃ pre post mid, as = pre ++ post ∧
    (rejectedSystem toUppercase toLowercase api).Runs rejectedStart pre mid ∧
    (rejectedSystem toUppercase toLowercase api).Runs mid post s ∧
    i < mid.threads.length ∧ P mid.shared

/-- What a request has learnt was so since it came. -/
theorem rejectedSince_of_learnt {κ : Type} (learnt : RejectedThread → Option κ)
    (P : RejectedState → κ → Prop)
    (hspawn : ∀ query, learnt
      (RejectedThread.arrive toUppercase toLowercase api query) = none)
    (hstep : ∀ s t s' t' k, t.Same t' → RejectedMove api s t s' t'.phase →
      learnt t' = some k → learnt t = some k ∨ P s k ∨ P s' k)
    {as : List _} {s : Threads RejectedState RejectedThread}
    (h : (rejectedSystem toUppercase toLowercase api).Runs rejectedStart as s)
    {i : Nat} {t : RejectedThread} {k : κ} (hi : s.threads[i]? = some t)
    (hk : learnt t = some k) :
    RejectedSince toUppercase toLowercase api as s i fun s => P s k := by
  have hmoment := ThreadSystem.exists_moment learnt P
    (fun _ query => hspawn query)
    (fun s t a s' t' k hs hk => hstep s t s' t' k (rejectedStep_moves hs).1
      (rejectedStep_moves hs).2 hk) h hi hk
  rcases hmoment with ⟨t, ht, -⟩ | hmoment
  · cases ht
  · exact hmoment

/-- What is answered: a row of the key that was in the table since the request
came, for a hash that was not canonical at a moment since then; or nothing, and
then the hash was canonical or had no row at a moment since then. -/
theorem rejected_answers {as : List _}
    {s : Threads RejectedState RejectedThread}
    (h : (rejectedSystem toUppercase toLowercase api).Runs rejectedStart as s)
    {i : Nat} {t : RejectedThread} (hi : s.threads[i]? = some t)
    {answer : List RejectedTransactionCandidateResponse}
    (hend : t.response = some answer) :
    (answer = [] ∧ RejectedSince toUppercase toLowercase api as s i fun s =>
      (t.hash, t.chain) ∈ s.canonical ∨
        ∀ r ∈ s.rows, r.key ≠ (api.nexus, t.chain, t.hash)) ∨
    ∃ r : RejectedCandidateRecord, answer = [rejectedCandidateResponse r] ∧
      r.key = (api.nexus, t.chain, t.hash) ∧
      (RejectedSince toUppercase toLowercase api as s i fun s =>
        (t.hash, t.chain) ∉ s.canonical) ∧
      RejectedSince toUppercase toLowercase api as s i fun s => r ∈ s.rows := by
  have htold : t.Told api s.shared :=
    (rejected_invariant h).2 t (List.mem_of_getElem? hi)
  unfold RejectedThread.response at hend
  unfold RejectedThread.Told at htold
  split at hend
  · next records hphase =>
      rw [hphase] at htold
      cases hend
      obtain ⟨hlength, hkeys⟩ := htold
      cases records with
      | nil =>
          refine .inl ⟨rfl, rejectedSince_of_learnt (RejectedThread.nothing api)
            (fun s k => (k.2.2, k.2.1) ∈ s.canonical ∨ ∀ r ∈ s.rows, r.key ≠ k)
            (fun query => (RejectedThread.learnt_arrive query).2.2) ?_ h hi
            (by rw [RejectedThread.nothing, hphase])⟩
          intro s t s' t' k hsame hmove hk
          rcases hmove.nothing_cases hsame hk with hold | hnew
          · exact .inl hold
          · exact .inr (.inl hnew)
      | cons r rest =>
          obtain rfl : rest = [] := by
            cases rest with
            | nil => rfl
            | cons => simp only [List.length_cons] at hlength; omega
          refine .inr ⟨r, rfl, hkeys r List.mem_cons_self, ?_, ?_⟩
          · refine rejectedSince_of_learnt RejectedThread.outside
              (fun s k => k ∉ s.canonical)
              (fun query => (@RejectedThread.learnt_arrive _ _ api query).1)
              ?_ h hi (by rw [RejectedThread.outside, hphase])
            intro s t s' t' k hsame hmove hk
            rcases hmove.outside_cases hsame hk with hold | hnew
            · exact .inl hold
            · exact .inr (.inl hnew)
          · have hsince := rejectedSince_of_learnt (RejectedThread.records api)
              (fun s k => ∀ r ∈ k.2, r ∈ s.rows)
              (fun query => (RejectedThread.learnt_arrive query).2.1)
              (fun s t s' t' k hsame hmove hk => hmove.records_cases hsame hk)
              h hi (by rw [RejectedThread.records, hphase])
            obtain ⟨pre, post, mid, hsplit, hpre, hpost, hcame, hrows⟩ := hsince
            exact ⟨pre, post, mid, hsplit, hpre, hpost, hcame,
              hrows r List.mem_cons_self⟩
  · cases hend

theorem rejected_answers_two :
    ∃ s t r, (rejectedSystem id id ⟨"main", "mainnet", true⟩).Runs
        rejectedStart rejectedTwo s ∧
      s.threads[2]? = some t ∧
      t.response = some [rejectedCandidateResponse r] ∧
      RejectedSince id id ⟨"main", "mainnet", true⟩ rejectedTwo s 2 fun s =>
        r ∈ s.rows := by
  obtain ⟨s, hruns, -, hends⟩ := rejectedTwo_ends
  obtain ⟨answer, hanswer, hne⟩ := Option.map_eq_some_iff.mp hends
  obtain ⟨t, ht, hresponse⟩ := Option.bind_eq_some_iff.mp hanswer
  rcases rejected_answers hruns ht hresponse with
    ⟨rfl, -⟩ | ⟨r, rfl, -, -, hrows⟩
  · cases hne
  · exact ⟨s, t, r, hruns, ht, hresponse, hrows⟩

end Explorer.Ref
