import Explorer.Ref.Balances
import Explorer.Ref.Worker

/-!
# The loops of the worker (`run_until_shutdown` in `crates/ingestion/src/driver.rs`)

The block loop runs `sync_once` on a ticker, and ten maintenance tasks run
beside it. What they share is the load-shed state of the node, the lag that the
block loop publishes, the wake-up of the balance task, and the shutdown signal,
which is latched. Each step here is a stretch between two points where another
task can come in: an await, or an atomic read.

How a pass ends is the action's; of a sync pass it says what `sync_once` books.
When a ticker ticks is the action's too. The clock counts milliseconds. A task
whose pass panics is gone, and `join_next` counts it as joined. The log, and
the two flags that only the log reads, are left out.

The last four fields of the state are histories: the sync passes that were
handled, the lags that were published, the calls on the load-shed state, and
the number of wake-ups that were sent. A task remembers how long the last three
were when it last woke.
-/

namespace Explorer.Ref

/-! ## Waits, in milliseconds -/

def reliefStallBackoffBase : Nat := 30000

def reliefStallBackoffMax : Nat := 300000

def reliefStallBackoffMaxDoublings : Nat := 5

def reliefStallBackoff (stallCount : Nat) : Nat :=
  if stallCount = 0 then 0
  else
    let doublings := min (stallCount - 1) reliefStallBackoffMaxDoublings
    min (reliefStallBackoffBase * 2 ^ doublings) reliefStallBackoffMax

def failedPassBackoff (consecutiveFailures stallCount : Nat)
    (databaseFailure : Bool) : Nat :=
  let generic := min consecutiveFailures 6 * 5000
  if databaseFailure then generic
  else max generic (reliefStallBackoff stallCount)

/-! ## Sync passes -/

/-- `u64::MAX`, the lag before the first report. -/
def u64Max : Nat := 18446744073709551615

/-- The part of `SyncBatchReport` that the loop reads. -/
structure SyncBatchReport where
  rpcTipHeight : Nat
  projectedBlocks : Nat
  cursorHeightAfter : Nat
  stalledHeight : Option Nat
  deriving Repr, DecidableEq

/-- `rpc_tip_height.saturating_sub(cursor_height_after)`. -/
def SyncBatchReport.currentLag (report : SyncBatchReport) : Nat :=
  report.rpcTipHeight - report.cursorHeightAfter

/-- How `sync_once` ends: an error before the projection, nothing to fetch, an
error of the projection of a window, or its outcome. -/
inductive SyncEnd where
  | refused (error : IngestionError)
  | caughtUp (rpcTip cursorHeight : Nat)
  | failed (fromHeight : Nat) (error : IngestionError)
  | projected (rpcTip : Nat) (outcome : WindowOutcome)
  deriving Repr, DecidableEq

def SyncEnd.result : SyncEnd → Except IngestionError SyncBatchReport
  | .refused error | .failed _ error => .error error
  | .caughtUp rpcTip cursorHeight => .ok ⟨rpcTip, 0, cursorHeight, none⟩
  | .projected rpcTip outcome =>
      .ok ⟨rpcTip, outcome.projectedBlocks, outcome.cursorHeightAfter,
        outcome.stalledHeight⟩

/-- The call on the load-shed state that it makes, if any. -/
def SyncEnd.reliefCall : SyncEnd → Option ReliefCall
  | .refused _ => none
  | .caughtUp _ _ => some .clear
  | .failed fromHeight error =>
      if isDatabaseFailure error then none else some (.stall fromHeight)
  | .projected _ outcome =>
      match outcome.stalledHeight with
      | some height => some (.stall height)
      | none => some (.progress outcome.projectedBlocks)

/-! ## Maintenance tasks -/

/-- What tells the tasks apart: whether one stands down while the node is
spared, whether the block loop wakes it, and its passes beyond the first. -/
structure MaintenanceJob where
  sparesNode : Bool
  kicked : Bool
  furtherPasses : Nat
  deriving Repr, DecidableEq

def runBalanceMaintenance : MaintenanceJob := ⟨true, true, 0⟩

def runStakeProjectionMaintenance : MaintenanceJob := ⟨false, false, 0⟩

def runTokenSupplyMaintenance : MaintenanceJob := ⟨true, false, 0⟩

def runTokenMetadataMaintenance : MaintenanceJob := ⟨true, false, 0⟩

def runTokenPriceMaintenance : MaintenanceJob := ⟨false, false, 0⟩

def runTtrsMaintenance : MaintenanceJob := ⟨false, false, 0⟩

/-- `sync_contract_upgrade_methods_once`, and then
`sync_contract_rpc_metadata_once`. -/
def runContractMetadataMaintenance : MaintenanceJob := ⟨true, false, 1⟩

def runNftMetadataMaintenance : MaintenanceJob := ⟨true, false, 0⟩

def runSeriesMetadataMaintenance : MaintenanceJob := ⟨true, false, 0⟩

def runFailedTxMaintenance : MaintenanceJob := ⟨true, false, 0⟩

/-- `spawn_maintenance_tasks`. -/
def maintenanceJobs : List MaintenanceJob :=
  [runBalanceMaintenance, runStakeProjectionMaintenance,
    runTokenSupplyMaintenance, runTokenMetadataMaintenance,
    runTokenPriceMaintenance, runTtrsMaintenance,
    runContractMetadataMaintenance, runNftMetadataMaintenance,
    runSeriesMetadataMaintenance, runFailedTxMaintenance]

/-- Where a task stands. -/
inductive TaskPhase where
  | waiting
  | readingLag
  | readingRelief
  | passing (further : Nat)
  | panicked
  | ended
  deriving Repr, DecidableEq

/-- How long the histories were. -/
structure Woke where
  published : Nat
  reliefCalls : Nat
  announcements : Nat
  deriving Repr, DecidableEq

structure MaintenanceTask where
  job : MaintenanceJob
  phase : TaskPhase
  woke : Woke
  deriving Repr, DecidableEq

/-! ## The state -/

/-- Where the block loop stands. `waiting` is a backoff, with the report that
is published after it. -/
inductive LoopPhase where
  | ticking
  | syncing (started : Nat)
  | delaying (started : Nat) (syncEnd : SyncEnd)
  | waiting (deadline : Nat) (report : Option SyncBatchReport)
  | publishing (report : SyncBatchReport)
  | announcing (report : SyncBatchReport)
  | joining
  | returned
  deriving Repr, DecidableEq

/-- A sync pass that was handled, and the backoff that it was given. -/
structure SyncPass where
  started : Nat
  ended : Nat
  syncEnd : SyncEnd
  wait : Nat
  deriving Repr, DecidableEq

structure Supervisor where
  now : Nat
  relief : RpcReliefState
  lag : Nat
  kick : Bool
  shutdown : Bool
  consecutiveSyncFailures : Nat
  loopPhase : LoopPhase
  tasks : List MaintenanceTask
  passes : List SyncPass
  published : List Nat
  reliefCalls : List ReliefCall
  announcements : Nat
  deriving Repr, DecidableEq

/-- The loops when they start. -/
def Supervisor.start : Supervisor where
  now := 0
  relief := {}
  lag := u64Max
  kick := false
  shutdown := false
  consecutiveSyncFailures := 0
  loopPhase := .ticking
  tasks := maintenanceJobs.map fun job => ⟨job, .waiting, ⟨0, 0, 0⟩⟩
  passes := []
  published := []
  reliefCalls := []
  announcements := 0

/-! ## Steps -/

inductive TaskAct where
  | tick
  | kick
  | readLag
  | readRelief
  | passEnds
  | panics
  | stop
  deriving Repr, DecidableEq

/-- `clock` and `signal` are the environment's, and the first of the others
are the block loop's. -/
inductive SupervisorAct where
  | clock (milliseconds : Nat)
  | signal
  | tick
  | sync (syncEnd : SyncEnd)
  | finish
  | resume
  | publish
  | announce
  | stop
  | join
  | task (i : Nat) (act : TaskAct)
  deriving Repr, DecidableEq

/-- The task leaves its `select!`. -/
def MaintenanceTask.wake (t : MaintenanceTask) (s : Supervisor) :
    MaintenanceTask :=
  { t with
    phase := .readingLag
    woke := ⟨s.published.length, s.reliefCalls.length, s.announcements⟩ }

/-- One step of a maintenance task. -/
def taskStep (s : Supervisor) (t : MaintenanceTask) :
    TaskAct → Option (Supervisor × MaintenanceTask)
  | .tick =>
      match t.phase with
      | .waiting => some (s, t.wake s)
      | _ => none
  | .kick =>
      match t.phase with
      | .waiting =>
          if t.job.kicked && s.kick then
            some ({ s with kick := false }, t.wake s)
          else none
      | _ => none
  | .readLag =>
      match t.phase with
      | .readingLag =>
          if balanceSyncLagThreshold < s.lag then
            some (s, { t with phase := .waiting })
          else if t.job.sparesNode then
            some (s, { t with phase := .readingRelief })
          else some (s, { t with phase := .passing t.job.furtherPasses })
      | _ => none
  | .readRelief =>
      match t.phase with
      | .readingRelief =>
          if s.relief.active then some (s, { t with phase := .waiting })
          else some (s, { t with phase := .passing t.job.furtherPasses })
      | _ => none
  | .passEnds =>
      match t.phase with
      | .passing 0 => some (s, { t with phase := .waiting })
      | .passing (further + 1) => some (s, { t with phase := .passing further })
      | _ => none
  | .panics =>
      match t.phase with
      | .passing _ => some (s, { t with phase := .panicked })
      | _ => none
  | .stop =>
      match t.phase with
      | .waiting | .passing _ =>
          if s.shutdown then some (s, { t with phase := .ended }) else none
      | _ => none

/-- The task will make no step again. -/
def TaskPhase.isOver : TaskPhase → Bool
  | .panicked | .ended => true
  | _ => false

/-- The block loop is in a `select!` with the shutdown signal. -/
def LoopPhase.listens : LoopPhase → Bool
  | .ticking | .syncing _ | .delaying _ _ | .waiting _ _ => true
  | _ => false

/-- The call that a pass makes on the load-shed state. -/
def RpcReliefState.book (relief : RpcReliefState) (syncEnd : SyncEnd) :
    RpcReliefState :=
  match syncEnd.reliefCall with
  | some call => relief.call call
  | none => relief

/-- A backoff of zero is no wait. -/
def LoopPhase.afterWait (now wait : Nat) (report : Option SyncBatchReport) :
    LoopPhase :=
  if wait = 0 then
    match report with
    | some report => .publishing report
    | none => .ticking
  else .waiting (now + wait) report

/-- What the loop does with the result of `sync_once`. -/
def Supervisor.handle (s : Supervisor) (started : Nat) (syncEnd : SyncEnd) :
    Supervisor :=
  match syncEnd.result with
  | .ok report =>
      let wait :=
        if report.stalledHeight.isSome then
          reliefStallBackoff s.relief.stallCount
        else 0
      { s with
        consecutiveSyncFailures := 0
        loopPhase := LoopPhase.afterWait s.now wait (some report)
        passes := s.passes ++ [⟨started, s.now, syncEnd, wait⟩] }
  | .error error =>
      let failures := satAdd32 s.consecutiveSyncFailures 1
      let wait := failedPassBackoff failures s.relief.stallCount
        (isDatabaseFailure error)
      { s with
        consecutiveSyncFailures := failures
        loopPhase := LoopPhase.afterWait s.now wait none
        passes := s.passes ++ [⟨started, s.now, syncEnd, wait⟩] }

/-- One step of the loops. -/
def supervisorStep (s : Supervisor) : SupervisorAct → Option Supervisor
  | .clock milliseconds => some { s with now := s.now + milliseconds }
  | .signal => some { s with shutdown := true }
  | .tick =>
      match s.loopPhase with
      | .ticking => some { s with loopPhase := .syncing s.now }
      | _ => none
  | .sync syncEnd =>
      match s.loopPhase with
      | .syncing started =>
          some { s with
            relief := s.relief.book syncEnd
            loopPhase := .delaying started syncEnd
            reliefCalls := s.reliefCalls ++ syncEnd.reliefCall.toList }
      | _ => none
  | .finish =>
      match s.loopPhase with
      | .delaying started syncEnd => some (s.handle started syncEnd)
      | _ => none
  | .resume =>
      match s.loopPhase with
      | .waiting deadline report =>
          if deadline ≤ s.now then
            some { s with loopPhase := LoopPhase.afterWait s.now 0 report }
          else none
      | _ => none
  | .publish =>
      match s.loopPhase with
      | .publishing report =>
          some { s with
            lag := report.currentLag
            loopPhase := .announcing report
            published := s.published ++ [report.currentLag] }
      | _ => none
  | .announce =>
      match s.loopPhase with
      | .announcing report =>
          if report.currentLag ≤ balanceSyncLagThreshold ∧
              0 < report.projectedBlocks then
            some { s with
              kick := true
              loopPhase := .ticking
              announcements := s.announcements + 1 }
          else some { s with loopPhase := .ticking }
      | _ => none
  | .stop =>
      if s.loopPhase.listens && s.shutdown then
        some { s with loopPhase := .joining }
      else none
  | .join =>
      match s.loopPhase with
      | .joining =>
          if s.tasks.all fun t => t.phase.isOver then
            some { s with loopPhase := .returned }
          else none
      | _ => none
  | .task i act =>
      s.tasks[i]?.bind fun t =>
        (taskStep s t act).map fun r =>
          { r.1 with tasks := s.tasks.set i r.2 }

/-- The action leads from one state to the other. -/
def SupervisorMoves (s : Supervisor) (a : SupervisorAct)
    (s' : Supervisor) : Prop :=
  supervisorStep s a = some s'

end Explorer.Ref
