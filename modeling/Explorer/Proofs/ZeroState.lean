import Explorer.Proofs.WorkerSafe

/-!
# The cursor and the zero state over whole runs

The rows of `main` at and below the boundary come from a snapshot every
network shares, and the worker must not rewrite them. It never inserts,
deletes or updates a block or a transaction there, and events only in one way:
`apply_burn_markers_for_transaction` raises the `burned` flag of every event
of a burned token, whatever its height. `OnlyBurned` is that exception, and
`burn_marks_zero_state` a run in which it happens.
-/

namespace Explorer.Ref

open Explorer.Lib

def inZeroState (height : Nat) : Bool :=
  decide (height ≤ mainZeroStateBoundaryHeight)

/-- The row is as it was, or its burn flag has been raised. -/
def OnlyBurned (r r' : EventRow) : Prop :=
  r' = r ∨ r' = { r with burned := some true }

theorem onlyBurned_refl (r : EventRow) : OnlyBurned r r := Or.inl rfl

theorem onlyBurned_trans (r s u : EventRow) (h : OnlyBurned r s)
    (h' : OnlyBurned s u) : OnlyBurned r u := by
  rcases h with rfl | rfl
  · exact h'
  · rcases h' with rfl | rfl
    · exact Or.inr rfl
    · exact Or.inr rfl

/-- The rows of the zero state stand in all three tables. -/
structure ZeroStateKept (t t' : ChainTables) : Prop where
  blocks : Keeps (fun r => inZeroState r.height) Eq t.blocks t'.blocks
  transactions : Keeps (fun r => inZeroState r.height) Eq t.transactions
    t'.transactions
  events : Keeps (fun r => inZeroState r.height) OnlyBurned t.events t'.events

theorem zeroStateKept_refl (t : ChainTables) : ZeroStateKept t t :=
  ⟨keeps_refl (fun _ => rfl) _, keeps_refl (fun _ => rfl) _,
    keeps_refl onlyBurned_refl _⟩

theorem ZeroStateKept.trans {t t' t'' : ChainTables}
    (h : ZeroStateKept t t') (h' : ZeroStateKept t' t'') :
    ZeroStateKept t t'' :=
  ⟨h.blocks.trans (fun _ _ _ => Eq.trans) h'.blocks,
    h.transactions.trans (fun _ _ _ => Eq.trans) h'.transactions,
    h.events.trans onlyBurned_trans h'.events⟩

/-! ## One block above the boundary -/

section Block

variable {height : Nat} (habove : mainZeroStateBoundaryHeight < height)
include habove

theorem not_inZeroState : inZeroState height = false := by
  unfold inZeroState
  exact decide_eq_false (by omega)

/-- A row of the block is none of the zero state. -/
theorem inTransaction_above {r : EventRow} {txIndex : Nat}
    (h : r.inTransaction height txIndex = true) :
    inZeroState r.height = false := by
  simp only [EventRow.inTransaction, Bool.and_eq_true, beq_iff_eq] at h
  rw [h.1]
  exact not_inZeroState habove

theorem upsertBlock_kept (b : BlockUpsert) (rows : List BlockRow) :
    Keeps (fun r => inZeroState r.height) Eq rows
      (upsertBlock height b rows) := by
  refine keeps_upsertRow (fun _ => rfl) rows ?_ (not_inZeroState habove)
  intro r hr
  rw [beq_iff_eq.mp hr]
  exact not_inZeroState habove

theorem batchUpsertTransactions_kept (transactions : List TransactionUpsert)
    (rows : List TransactionRow) :
    Keeps (fun r => inZeroState r.height) Eq rows
      (batchUpsertTransactions height transactions rows) := by
  refine keeps_foldl (fun _ => rfl) (fun _ _ _ => Eq.trans) _ ?_ rows
  intro rows x _
  refine keeps_upsertRow (fun _ => rfl) rows ?_ (not_inZeroState habove)
  intro r hr
  simp only [Bool.and_eq_true, beq_iff_eq] at hr
  rw [hr.1]
  exact not_inZeroState habove

theorem insertBlockEvents_kept (batches : List (List EventUpsert × Nat))
    (rows : List EventRow) :
    Keeps (fun r => inZeroState r.height) OnlyBurned rows
      (insertBlockEvents height batches rows) := by
  unfold insertBlockEvents
  simp only
  refine Keeps.trans onlyBurned_trans (keeps_filter onlyBurned_refl rows ?_)
    (keeps_foldl onlyBurned_refl onlyBurned_trans _ ?_ _)
  · intro r hr
    refine List.all_eq_true.mpr fun b _ => ?_
    cases hin : r.inTransaction height b.2 with
    | false => rfl
    | true =>
        rw [inTransaction_above habove hin] at hr
        cases hr
  · intro rows b _
    refine keeps_foldl onlyBurned_refl onlyBurned_trans _ ?_ rows
    intro rows e _
    split
    · refine keeps_map rows ?_ ?_
      · intro r
        split
        · next hr =>
            simp only [Bool.and_eq_true] at hr
            rw [inTransaction_above habove hr.1]
            exact not_inZeroState habove
        · rfl
      · intro r hzero
        split
        · next hr =>
            simp only [Bool.and_eq_true] at hr
            rw [inTransaction_above habove hr.1] at hzero
            cases hzero
        · exact onlyBurned_refl r
    · refine keeps_append onlyBurned_refl rows ?_
      intro r hr
      rw [List.mem_singleton.mp hr]
      exact not_inZeroState habove

theorem applyNftLinks_kept (reg : Registry) (txIndex : Nat)
    (rows : List EventRow) :
    Keeps (fun r => inZeroState r.height) OnlyBurned rows
      (applyNftLinks reg height txIndex rows) := by
  refine keeps_map rows ?_ ?_
  · intro r
    split
    · split <;> rfl
    · rfl
  · intro r hzero
    split
    · next hr =>
        simp only [Registry.candidate, Bool.and_eq_true] at hr
        rw [inTransaction_above habove hr.1.1.1] at hzero
        cases hzero
    · exact onlyBurned_refl r

omit habove in
/-- The one statement that reaches below the boundary. -/
theorem markBurned_kept (rows : List EventRow) (pair : String × String) :
    Keeps (fun r => inZeroState r.height) OnlyBurned rows
      (markBurned rows pair) := by
  refine keeps_map rows ?_ ?_
  · intro r
    split <;> rfl
  · intro r _
    split
    · exact Or.inr rfl
    · exact onlyBurned_refl r

theorem applyEventSideEffects_kept (reg : Registry) (txIndex : Nat)
    (events : List EventUpsert) (rows : List EventRow) :
    Keeps (fun r => inZeroState r.height) OnlyBurned rows
      (applyEventSideEffects reg height txIndex events rows) := by
  have hburn : ∀ rows, Keeps (fun r => inZeroState r.height) OnlyBurned rows
      (applyBurnMarkers reg height txIndex rows) := fun rows =>
    keeps_foldl onlyBurned_refl onlyBurned_trans _
      (fun rows pair _ => markBurned_kept rows pair) rows
  have hlink := applyNftLinks_kept habove reg txIndex rows
  unfold applyEventSideEffects
  simp only
  split
  · refine Keeps.trans onlyBurned_trans ?_ (hburn _)
    split
    · exact hlink
    · exact keeps_refl onlyBurned_refl rows
  · split
    · exact hlink
    · exact keeps_refl onlyBurned_refl rows

theorem projectDecodedBlock_kept (reg : Nat → Registry)
    (block : DecodedBlock) (t : ChainTables) :
    ZeroStateKept t (projectDecodedBlock reg height block t) where
  blocks := upsertBlock_kept habove block.header t.blocks
  transactions := batchUpsertTransactions_kept habove _ t.transactions
  events := by
    refine Keeps.trans onlyBurned_trans
      (insertBlockEvents_kept habove _ t.events)
      (keeps_foldl onlyBurned_refl onlyBurned_trans _ ?_ _)
    intro rows b _
    exact applyEventSideEffects_kept habove (reg b.2) b.2 b.1 rows

end Block

/-! ## The heights that have a block -/

def HasBlock (t : ChainTables) (height : Nat) : Prop :=
  ∃ b ∈ t.blocks, b.height = height

theorem hasBlock_projected (reg : Nat → Registry) (height : Nat)
    (block : DecodedBlock) (t : ChainTables) :
    HasBlock (projectDecodedBlock reg height block t) height := by
  simp only [HasBlock, projectDecodedBlock, upsertBlock, upsertRow]
  split
  · next hany =>
      obtain ⟨r, hr, hheight⟩ := List.any_eq_true.mp hany
      exact ⟨_, List.mem_map_of_mem hr, by rw [if_pos hheight]; rfl⟩
  · exact ⟨_, List.mem_append_right _ List.mem_cons_self, rfl⟩

theorem HasBlock.projected {t : ChainTables} {h : Nat} (hb : HasBlock t h)
    (reg : Nat → Registry) (height : Nat) (block : DecodedBlock) :
    HasBlock (projectDecodedBlock reg height block t) h := by
  obtain ⟨r, hr, hheight⟩ := hb
  simp only [HasBlock, projectDecodedBlock, upsertBlock, upsertRow]
  split
  · refine ⟨_, List.mem_map_of_mem hr, ?_⟩
    split
    · next heq => rw [← hheight, beq_iff_eq.mp heq]; rfl
    · exact hheight
  · exact ⟨r, List.mem_append_left _ hr, hheight⟩

/-! ## Whole runs -/

/-- What is true of the history since the worker started on `t₀`. -/
structure History (chain : String) (t₀ : ChainTables) (w : Worker) : Prop where
  ok : WorkerOk w
  chain_eq : w.chain = chain
  projected : ∀ h, t₀.currentHeight < h → h ≤ w.tables.currentHeight →
    (∃ c ∈ w.commits, c.height = h) ∧ HasBlock w.tables h
  commits : ∀ c ∈ w.commits, ∀ cursor, c.cursor = some cursor →
    c.height ≤ cursor
  zeroState : chain = "main" → ZeroStateKept t₀ w.tables

theorem above_of_scope {cursor : Nat}
    (h : validateZeroStateScope "main" cursor = .ok ()) :
    mainZeroStateBoundaryHeight < cursor + 1 := by
  unfold validateZeroStateScope at h
  split at h
  · cases h
  · next hout =>
      by_contra hle
      exact hout ⟨rfl, by omega⟩

theorem above_of_height {height : Nat}
    (h : validateProjectedHeight "main" height = .ok ()) :
    mainZeroStateBoundaryHeight < height := by
  unfold validateProjectedHeight at h
  split at h
  · cases h
  · next hout =>
      by_contra hle
      exact hout ⟨rfl, by omega⟩

theorem Effect.currentHeight_le {w w' : Worker} (h : Effect w w') :
    w.tables.currentHeight ≤ w'.tables.currentHeight := by
  cases h with
  | none ht _ => rw [ht]
  | advanced reg block _ ht _ =>
      rw [ht]
      exact Nat.le_max_left _ _
  | called reg height block _ ht _ =>
      rw [ht]
      exact le_refl w.tables.currentHeight

theorem History.step {chain : String} {t₀ : ChainTables} {w w' : Worker}
    {a : WorkerAct} (hist : History chain t₀ w) (h : WorkerStep w a w') :
    History chain t₀ w' := by
  obtain ⟨hok', heffect, hchain'⟩ := hist.ok.step h
  have hchain := hchain'.trans hist.chain_eq
  cases heffect with
  | none htables hcommits =>
      refine ⟨hok', hchain, ?_, ?_, ?_⟩
      · rw [htables, hcommits]
        exact hist.projected
      · rw [hcommits]
        exact hist.commits
      · rw [htables]
        exact hist.zeroState
  | advanced reg block hscope htables hcommits =>
      have hcurrent : w'.tables.currentHeight = w.tables.currentHeight + 1 := by
        rw [htables]
        exact Nat.max_eq_right (Nat.le_succ _)
      refine ⟨hok', hchain, ?_, ?_, ?_⟩
      · intro h hlow hhigh
        rw [hcurrent] at hhigh
        rw [hcommits, htables]
        by_cases hlast : h = w.tables.currentHeight + 1
        · subst hlast
          exact ⟨⟨_, List.mem_append_right _ List.mem_cons_self, rfl⟩,
            hasBlock_projected reg _ block w.tables⟩
        · obtain ⟨⟨c, hc, hheight⟩, hblock⟩ := hist.projected h hlow (by omega)
          exact ⟨⟨c, List.mem_append_left _ hc, hheight⟩,
            hblock.projected reg _ block⟩
      · intro c hc cursor hcursor
        rw [hcommits] at hc
        rcases List.mem_append.mp hc with hc | hc
        · exact hist.commits c hc cursor hcursor
        · rw [List.mem_singleton.mp hc] at hcursor ⊢
          cases hcursor
          exact le_refl _
      · intro hmain
        rw [hist.chain_eq, hmain] at hscope
        have hkept := projectDecodedBlock_kept (above_of_scope hscope) reg
          block w.tables
        rw [htables]
        exact (hist.zeroState hmain).trans
          ⟨hkept.blocks, hkept.transactions, hkept.events⟩
  | called reg height block hheight htables hcommits =>
      refine ⟨hok', hchain, ?_, ?_, ?_⟩
      · intro h hlow hhigh
        rw [htables] at hhigh
        rw [hcommits, htables]
        obtain ⟨⟨c, hc, hch⟩, hblock⟩ := hist.projected h hlow hhigh
        exact ⟨⟨c, List.mem_append_left _ hc, hch⟩,
          hblock.projected reg _ block⟩
      · intro c hc cursor hcursor
        rw [hcommits] at hc
        rcases List.mem_append.mp hc with hc | hc
        · exact hist.commits c hc cursor hcursor
        · rw [List.mem_singleton.mp hc] at hcursor
          cases hcursor
      · intro hmain
        rw [hist.chain_eq, hmain] at hheight
        rw [htables]
        exact (hist.zeroState hmain).trans
          (projectDecodedBlock_kept (above_of_height hheight) reg block
            w.tables)

theorem history_start (chain nexus : String) (settings : WorkerConfig)
    (t₀ : ChainTables) :
    History chain t₀ (Worker.start chain nexus settings t₀) where
  ok := workerOk_start chain nexus settings t₀
  chain_eq := rfl
  projected := by
    intro h hlow hhigh
    exact absurd hhigh (Nat.not_le_of_lt hlow)
  commits := by intro c hc; cases hc
  zeroState := fun _ => zeroStateKept_refl t₀

theorem history_of_steps {chain nexus : String} {settings : WorkerConfig}
    {t₀ : ChainTables} {acts : List WorkerAct} {w : Worker}
    (h : Steps WorkerStep (Worker.start chain nexus settings t₀) acts w) :
    History chain t₀ w := by
  refine h.invariant ?_ (history_start chain nexus settings t₀)
  intro w a w' hist hstep
  exact hist.step hstep

theorem currentHeight_le_of_steps {w w' : Worker} {acts : List WorkerAct}
    (hok : WorkerOk w) (h : Steps WorkerStep w acts w') :
    w.tables.currentHeight ≤ w'.tables.currentHeight := by
  have hkept : WorkerOk w' ∧
      w.tables.currentHeight ≤ w'.tables.currentHeight := by
    refine h.invariant (I := fun v => WorkerOk v ∧
      w.tables.currentHeight ≤ v.tables.currentHeight) ?_ ⟨hok, le_refl _⟩
    intro v a v' hv hstep
    obtain ⟨hok', heffect, -⟩ := hv.1.step hstep
    exact ⟨hok', le_trans hv.2 heffect.currentHeight_le⟩
  exact hkept.2

/-- Over every run, with any tips, failures, cancellations, restarts, modes
and calls in between: the stored cursor never falls; every height it has
passed since the start was projected in a committed transaction and has its
block; no block is committed above the cursor committed with it; and on `main`
the blocks and the transactions of the zero state stand as they were, and its
events too except for burn flags that were raised. -/
theorem cursor_and_zero_state_over_runs (chain nexus : String)
    (settings : WorkerConfig) (t₀ : ChainTables) (acts : List WorkerAct)
    (w : Worker)
    (hrun : Steps WorkerStep (Worker.start chain nexus settings t₀) acts w) :
    (∀ acts' w', Steps WorkerStep w acts' w' →
      w.tables.currentHeight ≤ w'.tables.currentHeight) ∧
    (∀ h, t₀.currentHeight < h → h ≤ w.tables.currentHeight →
      (∃ c ∈ w.commits, c.height = h) ∧ ∃ b ∈ w.tables.blocks, b.height = h) ∧
    (∀ c ∈ w.commits, ∀ cursor, c.cursor = some cursor → c.height ≤ cursor) ∧
    (chain = "main" →
      t₀.blocks.filter (fun r => decide (r.height ≤ 6422526)) =
        w.tables.blocks.filter (fun r => decide (r.height ≤ 6422526)) ∧
      t₀.transactions.filter (fun r => decide (r.height ≤ 6422526)) =
        w.tables.transactions.filter (fun r => decide (r.height ≤ 6422526)) ∧
      List.Forall₂ OnlyBurned
        (t₀.events.filter fun r => decide (r.height ≤ 6422526))
        (w.tables.events.filter fun r => decide (r.height ≤ 6422526))) := by
  have hist := history_of_steps hrun
  refine ⟨?_, hist.projected, hist.commits, ?_⟩
  · intro acts' w' hmore
    exact currentHeight_le_of_steps hist.ok hmore
  · intro hmain
    have hkept := hist.zeroState hmain
    exact ⟨keeps_eq_iff.mp hkept.blocks, keeps_eq_iff.mp hkept.transactions,
      hkept.events⟩

/-! ## A burn above the boundary -/

def noHeader (hash : String) : BlockUpsert where
  hash := hash
  protocol := none
  chainAddress := none
  validatorAddress := none
  producerAddress := none
  timestampUnixSeconds := 0
  reward := none

def tokenEvent (kind token : String) : EventUpsert where
  eventIndex := 0
  eventKind := kind
  eventName := none
  address := none
  targetAddress := none
  contract := some "GAME"
  tokenId := some token
  rawData := none
  payloadFormat := none
  payloadJson := none
  timestampUnixSeconds := 0
  burned := none

def bareTransaction (hash : String) : TransactionUpsert where
  hash := hash
  timestampUnixSeconds := 0
  state := "Halt"
  result := none
  debugComment := none
  payload := none
  scriptRaw := none
  feeRaw := none
  gasPriceRaw := none
  gasLimitRaw := none
  sender := none
  gasPayer := none
  gasTarget := none
  carbonTxType := none
  carbonTxData := none
  expirationUnixSeconds := 0

/-- The zero state with one mint in its last block. -/
def mintedTables : ChainTables where
  currentHeight := 6422526
  blocks := [(noHeader "A0").row 6422526]
  transactions := [(bareTransaction "T0").row 6422526 0]
  events := [(tokenEvent "TokenMint" "7").row 6422526 0]

/-- The next block burns the token. -/
def burnBlock : DecodedBlock where
  header := noHeader "A1"
  transactions := [(bareTransaction "T1", [tokenEvent "TokenBurn" "7"])]

def sequentialSettings : WorkerConfig where
  syncMode := .sequential
  fetchBatchSize := 10
  fetchConcurrency := 1
  queueCapacity := 1
  heightLimit := none

def emptyRegistry : Registry where
  symbol := fun _ => none
  nonFungible := fun _ => false
  nft := fun _ _ => none

/-- One pass of `sync_once` over the block. -/
def burnActs : List WorkerAct :=
  [.begin (.ok 6422527) (.ok ""),
    .project (fun _ => emptyRegistry) (.ok burnBlock) .committed,
    .book]

def burnRun : Option Worker :=
  runSteps workerStep
    (Worker.start "main" "mainnet" sequentialSettings mintedTables) burnActs

/-- The mint of the zero state ends up with its burn flag raised. -/
theorem burn_marks_zero_state :
    ¬ ∀ (nexus : String) (settings : WorkerConfig) (t₀ : ChainTables)
      (acts : List WorkerAct) (w : Worker),
      Steps WorkerStep (Worker.start "main" nexus settings t₀) acts w →
      t₀.events.filter (fun r => decide (r.height ≤ 6422526)) =
        w.tables.events.filter (fun r => decide (r.height ≤ 6422526)) := by
  intro hclaim
  have hend : (burnRun.map fun w =>
      w.tables.events.filter fun r => decide (r.height ≤ 6422526)) =
      some [{ (tokenEvent "TokenMint" "7").row 6422526 0 with
        burned := some true }] := by decide
  obtain ⟨w, hw, hevents⟩ := Option.map_eq_some_iff.mp hend
  have hsame := hclaim "mainnet" sequentialSettings mintedTables burnActs w
    (steps_of_runSteps hw)
  rw [hevents] at hsame
  exact absurd hsame (by decide)

/-- The same run moves the cursor and keeps the rest of the zero state. -/
theorem cursor_and_zero_state_burn :
    ∃ w, burnRun = some w ∧ w.tables.currentHeight = 6422527 ∧
      (∃ c ∈ w.commits, c.height = 6422527) ∧
      mintedTables.blocks = w.tables.blocks.filter
        (fun r => decide (r.height ≤ 6422526)) ∧
      List.Forall₂ OnlyBurned mintedTables.events
        (w.tables.events.filter fun r => decide (r.height ≤ 6422526)) := by
  have hend : (burnRun.map fun w => w.tables.currentHeight) = some 6422527 := by
    decide
  obtain ⟨w, hw, hcurrent⟩ := Option.map_eq_some_iff.mp hend
  obtain ⟨-, hprojected, -, hmain⟩ := cursor_and_zero_state_over_runs "main"
    "mainnet" sequentialSettings mintedTables burnActs w (steps_of_runSteps hw)
  obtain ⟨hblocks, -, hevents⟩ := hmain rfl
  exact ⟨w, hw, hcurrent, (hprojected 6422527 (by decide) (by omega)).1,
    hblocks, hevents⟩

end Explorer.Ref
