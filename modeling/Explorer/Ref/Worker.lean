import Explorer.Ref.ChainTables
import Explorer.Ref.Pipeline

/-!
# The sync worker (`crates/ingestion/src/driver.rs`)

`sync_once` over and over: probe the tip, read the cursor, check the scope and
the node, plan a window, project it on the path the mode selects, and book the
outcome on the relief state. The worker is a state machine whose steps are the
stretches between two points where something outside decides how it goes on:
a fetch ends, a write ends, the pass is cancelled, the process restarts with
other settings, or another caller projects a single block through
`fetch_persist_and_project_block` on the same tables.

A write ends in one of three ways. It commits; it fails and its transaction is
rolled back; or the commit takes place and its answer is lost, which the code
sees as a database error. A pass that is cancelled while it commits is the
last of these followed by the cancellation.

The last three fields of the state are its history, and nothing in the source:
what has been committed and with which cursor, what the running pass has
committed, and each stall that was registered with the cursor stored at that
moment.
-/

namespace Explorer.Ref

/-! ## Settings and the window -/

/-- `WorkerSyncMode`. -/
inductive SyncMode where
  | normal
  | sequential
  | relief
  deriving Repr, DecidableEq

/-- The part of `WorkerConfig` that `sync_once` reads. -/
structure WorkerConfig where
  syncMode : SyncMode
  fetchBatchSize : Nat
  fetchConcurrency : Nat
  queueCapacity : Nat
  heightLimit : Option Nat
  deriving Repr, DecidableEq

def WorkerConfig.effectiveFetchBatchSize (settings : WorkerConfig) : Nat :=
  match settings.syncMode with
  | .relief => 1
  | .sequential | .normal => settings.fetchBatchSize

def WorkerConfig.effectiveFetchConcurrency (settings : WorkerConfig) : Nat :=
  match settings.syncMode with
  | .relief => 1
  | .sequential | .normal => max settings.fetchConcurrency 1

/-- `plan_fetch_window`. -/
def planFetchWindow (currentHeight rpcTip : Nat) (settings : WorkerConfig)
    (loadShed : Bool) : Except IngestionError (Option FetchWindow) :=
  if settings.fetchBatchSize = 0 then .error .emptyFetchBatch
  else
    let targetTip := (settings.heightLimit.map fun limit =>
      min limit rpcTip).getD rpcTip
    let nextHeight := currentHeight + 1
    if h : targetTip < nextHeight then .ok none
    else
      let batchSize :=
        if loadShed then 1 else settings.effectiveFetchBatchSize
      let toHeight := min (nextHeight + (batchSize - 1)) targetTip
      let blockCount := toHeight - nextHeight + 1
      let requestedConcurrency :=
        if loadShed then 1 else settings.effectiveFetchConcurrency
      .ok (some
        { fromHeight := nextHeight
          toHeight := toHeight
          concurrency := min requestedConcurrency blockCount
          ordered := by omega })

/-! ## Load shedding -/

/-- `RELIEF_RECOVERY_COMMIT_BLOCKS`. -/
def reliefRecoveryCommitBlocks : Nat := 4

structure RpcReliefState where
  active : Bool := false
  committedStreak : Nat := 0
  stalledHeight : Nat := 0
  stallCount : Nat := 0
  deriving Repr, DecidableEq

/-- `register_stall`. -/
def RpcReliefState.registerStall (s : RpcReliefState) (height : Nat) :
    RpcReliefState where
  active := true
  committedStreak := 0
  stalledHeight := height
  stallCount :=
    if s.stalledHeight = height then (s.stallCount + 1) % 2 ^ 32 else 1

/-- `register_progress`. -/
def RpcReliefState.registerProgress (s : RpcReliefState) (blocks : Nat) :
    RpcReliefState :=
  if !s.active || blocks == 0 then { s with stallCount := 0 }
  else
    let blocks := min blocks u32Max
    let streak := satAdd32 s.committedStreak blocks
    if streak < reliefRecoveryCommitBlocks then
      { s with
        stallCount := 0
        committedStreak := (s.committedStreak + blocks) % 2 ^ 32 }
    else { s with stallCount := 0, committedStreak := 0, active := false }

/-- `clear`. -/
def RpcReliefState.clear (s : RpcReliefState) : RpcReliefState :=
  { s with stallCount := 0, committedStreak := 0, active := false }

/-- What `register_stall` returns: the stalls in a row on the height, and
whether the call entered load-shed mode. -/
def RpcReliefState.stallReport (s : RpcReliefState) (height : Nat) :
    Nat × Bool :=
  ((s.registerStall height).stallCount, !s.active)

/-- What `register_progress` returns: whether the call left the mode. -/
def RpcReliefState.progressReport (s : RpcReliefState) (blocks : Nat) :
    Bool :=
  if !s.active || blocks == 0 then false
  else if satAdd32 s.committedStreak (min blocks u32Max) <
      reliefRecoveryCommitBlocks then false
  else s.active

/-- What `clear` returns. -/
def RpcReliefState.clearReport (s : RpcReliefState) : Bool := s.active

/-- A call on the state. -/
inductive ReliefCall where
  | stall (height : Nat)
  | progress (blocks : Nat)
  | clear
  deriving Repr, DecidableEq

def RpcReliefState.call (s : RpcReliefState) : ReliefCall → RpcReliefState
  | .stall height => s.registerStall height
  | .progress blocks => s.registerProgress blocks
  | .clear => s.clear

/-- The transition a call reports; the caller logs it. -/
inductive ModeChange where
  | entered
  | left
  deriving Repr, DecidableEq

def RpcReliefState.report (s : RpcReliefState) :
    ReliefCall → Option ModeChange
  | .stall height => if (s.stallReport height).2 then some .entered else none
  | .progress blocks => if s.progressReport blocks then some .left else none
  | .clear => if s.clearReport then some .left else none

/-! ## The state -/

/-- The variables of the sequential loop before it projects `height`. -/
structure SequentialPass where
  height : Nat
  projectedBlocks : Nat
  cursorHeightAfter : Nat
  deriving Repr, DecidableEq

/-- Where `sync_once` stands. -/
inductive Pass where
  | idle
  | sequential (window : FetchWindow) (s : SequentialPass)
  | pipelined (window : FetchWindow) (p : Pipeline DecodedBlock)
  | returned (window : FetchWindow)
      (result : Except IngestionError WindowOutcome)

/-- A committed transaction: the height of its block and, where it moved the
cursor, the cursor it stored. -/
structure Commit where
  height : Nat
  cursor : Option Nat
  deriving Repr, DecidableEq

structure Worker where
  chain : String
  nexus : String
  settings : WorkerConfig
  nodeGuardChecked : Bool
  relief : RpcReliefState
  pass : Pass
  tables : ChainTables
  /-- Heights that calls of `project_raw_block` have checked and not yet
  written. -/
  calls : List Nat
  commits : List Commit
  passCommits : List Nat
  stalls : List (Nat × Nat)

/-- A process that has just started on the tables. -/
def Worker.start (chain nexus : String) (settings : WorkerConfig)
    (tables : ChainTables) : Worker where
  chain := chain
  nexus := nexus
  settings := settings
  nodeGuardChecked := false
  relief := {}
  pass := .idle
  tables := tables
  calls := []
  commits := []
  passCommits := []
  stalls := []

/-! ## A pass -/

/-- `guard_node_matches_db`; the answer is the new latch. -/
def guardNodeMatchesDb (w : Worker) (cursorHeight : Nat)
    (nodeHash : Except IngestionError String) : Except IngestionError Bool :=
  if w.nodeGuardChecked then .ok true
  else if cursorHeight ≤ mainZeroStateBoundaryHeight then .ok false
  else
    match blockHashAtHeight cursorHeight w.tables with
    | none => .ok false
    | some dbHash =>
        match nodeHash with
        | .error e => .error e
        | .ok nodeHash =>
            if eqIgnoreAsciiCase dbHash nodeHash then .ok true
            else .error (.nodeChainMismatch cursorHeight dbHash nodeHash
              w.chain w.nexus)

/-- The path the mode selects, at its start. -/
def startPass (settings : WorkerConfig) (window : FetchWindow)
    (cursorHeight : Nat) : Pass :=
  match settings.syncMode with
  | .normal => .pipelined window (Pipeline.start DecodedBlock window
      cursorHeight)
  | .sequential | .relief =>
      .sequential window ⟨window.fromHeight, 0, cursorHeight⟩

/-- `sync_once` up to the projection. An error, of the probe or of a check,
ends the pass with nothing booked. -/
def Worker.beginPass (w : Worker) (rpcTip : Except IngestionError Nat)
    (nodeHash : Except IngestionError String) : Worker :=
  let cursorHeight := w.tables.currentHeight
  match rpcTip with
  | .error _ => w
  | .ok rpcTip =>
      match validateZeroStateScope w.chain cursorHeight with
      | .error _ => w
      | .ok () =>
          match guardNodeMatchesDb w cursorHeight nodeHash with
          | .error _ => w
          | .ok checked =>
              match planFetchWindow cursorHeight rpcTip w.settings
                  w.relief.active with
              | .error _ => { w with nodeGuardChecked := checked }
              | .ok none =>
                  { w with
                    nodeGuardChecked := checked
                    relief := w.relief.clear }
              | .ok (some window) =>
                  { w with
                    nodeGuardChecked := checked
                    pass := startPass w.settings window cursorHeight
                    passCommits := [] }

/-- How a write ends. -/
inductive WriteEnd where
  | committed
  | rolledBack (error : IngestionError)
  | unacknowledged (reason : String)

/-- The transaction of `write_decoded_block`, committed. -/
def Worker.commitBlock (w : Worker) (reg : Nat → Registry) (height : Nat)
    (block : DecodedBlock) : Worker :=
  let tables := advanceCursor height
    (projectDecodedBlock reg height block w.tables)
  { w with
    tables := tables
    commits := w.commits ++ [⟨height, some tables.currentHeight⟩]
    passCommits := w.passCommits ++ [height] }

/-- `write_decoded_block`: the worker after it and what it returns. -/
def Worker.writeDecodedBlock (w : Worker) (reg : Nat → Registry)
    (height : Nat) (block : DecodedBlock) :
    WriteEnd → Worker × Except IngestionError Nat
  | .committed =>
      let w' := w.commitBlock reg height block
      (w', .ok w'.tables.currentHeight)
  | .rolledBack error => (w, .error error)
  | .unacknowledged reason =>
      (w.commitBlock reg height block, .error (.sqlx reason))

/-- The checks, the fetch and the write of
`project_raw_block_and_advance_cursor`. -/
def Worker.projectRawBlock (w : Worker) (reg : Nat → Registry) (height : Nat)
    (fetched : Except IngestionError DecodedBlock) (written : WriteEnd) :
    Worker × Except IngestionError Nat :=
  match validateZeroStateScope w.chain w.tables.currentHeight with
  | .error e => (w, .error e)
  | .ok () =>
      match validateProjectedHeight w.chain height with
      | .error e => (w, .error e)
      | .ok () =>
          match fetched with
          | .error e => (w, .error e)
          | .ok block => w.writeDecodedBlock reg height block written

/-- One turn of the loop of `project_window_sequentially`. -/
def Worker.sequentialTurn (w : Worker) (window : FetchWindow)
    (s : SequentialPass) (reg : Nat → Registry)
    (fetched : Except IngestionError DecodedBlock) (written : WriteEnd) :
    Worker :=
  let (w', result) := w.projectRawBlock reg s.height fetched written
  match result with
  | .ok advanced =>
      if s.height < window.toHeight then
        { w' with
          pass := .sequential window
            ⟨s.height + 1, s.projectedBlocks + 1, advanced⟩ }
      else
        { w' with
          pass := .returned window
            (.ok ⟨s.projectedBlocks + 1, advanced, none⟩) }
  | .error e =>
      if keepsCommittedPrefix s.projectedBlocks e then
        { w' with
          pass := .returned window
            (.ok ⟨s.projectedBlocks, s.cursorHeightAfter, some s.height⟩) }
      else { w' with pass := .returned window (.error e) }

/-- A step of the pipeline that is not a write. -/
def Worker.pipelineTurn (w : Worker) (window : FetchWindow)
    (p : Pipeline DecodedBlock) : PipelineAct DecodedBlock → Option Worker
  | .wrote _ => none
  | a => (pipelineStep window w.settings.queueCapacity p a).map fun p' =>
      { w with pass := .pipelined window p' }

/-- A write of the pipeline. -/
def Worker.pipelineWrite (w : Worker) (window : FetchWindow)
    (p : Pipeline DecodedBlock) (reg : Nat → Registry) (written : WriteEnd) :
    Option Worker :=
  match p.ready.lookup p.nextToWrite with
  | none => none
  | some block =>
      let (w', result) := w.writeDecodedBlock reg p.nextToWrite block written
      (pipelineStep window w.settings.queueCapacity p (.wrote result)).map
        fun p' => { w' with pass := .pipelined window p' }

/-- What the projection has returned, if it has. -/
def Pass.result :
    Pass → Option (FetchWindow × Except IngestionError WindowOutcome)
  | .returned window result => some (window, result)
  | .pipelined window p =>
      match p.phase with
      | .returned result => some (window, result)
      | _ => none
  | _ => none

/-- `note_fetch_stall`. -/
def Worker.noteFetchStall (w : Worker) (height : Nat) : Worker :=
  { w with
    relief := w.relief.registerStall height
    stalls := w.stalls ++ [(height, w.tables.currentHeight)] }

/-- `note_fetch_progress`. -/
def Worker.noteFetchProgress (w : Worker) (projectedBlocks : Nat) : Worker :=
  { w with relief := w.relief.registerProgress projectedBlocks }

/-- `sync_once` from the projection on. -/
def Worker.bookOutcome (w : Worker) (window : FetchWindow) :
    Except IngestionError WindowOutcome → Worker
  | .error e =>
      if isDatabaseFailure e then w else w.noteFetchStall window.fromHeight
  | .ok outcome =>
      match outcome.stalledHeight with
      | some height => w.noteFetchStall height
      | none => w.noteFetchProgress outcome.projectedBlocks

/-! ## Steps -/

/-- What the worker does not decide. -/
inductive WorkerAct where
  | restart (settings : WorkerConfig)
  | begin (rpcTip : Except IngestionError Nat)
      (nodeHash : Except IngestionError String)
  | project (reg : Nat → Registry)
      (fetched : Except IngestionError DecodedBlock) (written : WriteEnd)
  | pipeline (act : PipelineAct DecodedBlock)
  | write (reg : Nat → Registry) (written : WriteEnd)
  | book
  | cancel
  | call (height : Nat)
  | callWrite (height : Nat) (block : DecodedBlock) (reg : Nat → Registry)
      (committed : Bool)

def workerStep (w : Worker) : WorkerAct → Option Worker
  | .restart settings => some
      { w with
        settings := settings
        nodeGuardChecked := false
        relief := {}
        pass := .idle
        calls := [] }
  | .begin rpcTip nodeHash =>
      match w.pass with
      | .idle => some (w.beginPass rpcTip nodeHash)
      | _ => none
  | .project reg fetched written =>
      match w.pass with
      | .sequential window s =>
          some (w.sequentialTurn window s reg fetched written)
      | _ => none
  | .pipeline act =>
      match w.pass with
      | .pipelined window p => w.pipelineTurn window p act
      | _ => none
  | .write reg written =>
      match w.pass with
      | .pipelined window p => w.pipelineWrite window p reg written
      | _ => none
  | .book =>
      match w.pass.result with
      | some (window, result) =>
          some { w.bookOutcome window result with pass := .idle }
      | none => none
  | .cancel => some { w with pass := .idle }
  -- `project_raw_block`, first its checks and then its transaction
  | .call height =>
      match validateZeroStateScope w.chain w.tables.currentHeight,
          validateProjectedHeight w.chain height with
      | .ok (), .ok () => some { w with calls := height :: w.calls }
      | _, _ => some w
  | .callWrite height block reg committed =>
      if height ∈ w.calls then
        if committed then some
          { w with
            calls := w.calls.erase height
            tables := projectDecodedBlock reg height block w.tables
            commits := w.commits ++ [⟨height, none⟩] }
        else some { w with calls := w.calls.erase height }
      else none

/-- The steps of the worker. -/
def WorkerStep (w : Worker) (a : WorkerAct) (w' : Worker) : Prop :=
  workerStep w a = some w'

end Explorer.Ref
