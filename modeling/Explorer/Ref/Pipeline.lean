import Mathlib.Data.Finmap
import Mathlib.Data.Finset.Basic
import Mathlib.Data.String.Basic

/-!
# Projecting a window of blocks (`crates/ingestion/src/driver.rs`)

The worker projects a window `[from, to]` of heights on one of two paths.
The sequential one is a loop over the heights. The pipelined one keeps a set
of fetch tasks in flight, harvests what has finished, writes what has become
contiguous, and decides whether to leave; it is given here as a step
function over its local variables, one step for each pass through one of its
inner loops, with everything the code does not decide itself in the action:
which task has ended and how, and how a write went.

Heights are `u64` in the source and `Nat` here. The block that a fetch
returns is only ever handed on to the writer, so its type is a parameter.
`sleep` between blocks and the log lines are left out. What the database
holds is the list of committed writes, in order (`written`); the cursor it
stores is what the last write returned, because `advance_cursor` returns the
stored height after taking the greater of the two.
-/

namespace Explorer.Ref

/-! ## Errors -/

/-- `IngestionError`, less the two variants of the price and NFT feeds. What
a package outside the repository reports is carried as its text. -/
inductive IngestionError where
  | rpc (reason : String)
  | db (reason : String)
  | sqlx (reason : String)
  | emptyFetchBatch
  | fetchTask
  | payloadTooLarge (height : Nat)
  | rawBlockMissing (height : Nat)
  | missingBlockField (height : Nat) (field : String)
  | blockFieldOutOfRange (height : Nat) (field : String)
  | missingTransactionField (height index : Nat) (field : String)
  | transactionFieldOutOfRange (height index : Nat) (field : String)
  | eventFieldOutOfRange (height transactionIndex : Nat) (eventSource : String)
      (eventIndex : Nat) (field : String)
  | eventPayloadDecode (height transactionIndex eventIndex : Nat)
      (eventKind : String)
  | protectedZeroStateCursorBelowBoundary (chain : String)
      (cursorHeight boundaryHeight : Nat)
  | protectedZeroStateBlock (chain : String) (height boundaryHeight : Nat)
  | nodeChainMismatch (height : Nat) (dbHash nodeHash chain nexus : String)
  deriving Repr, DecidableEq

/-- `is_database_failure`. -/
def isDatabaseFailure : IngestionError → Bool
  | .db _ | .sqlx _ => true
  | _ => false

/-- `keeps_committed_prefix`. -/
def keepsCommittedPrefix (projectedBlocks : Nat) (error : IngestionError) :
    Bool :=
  decide (0 < projectedBlocks) && !isDatabaseFailure error

/-! ## Windows -/

structure FetchWindow where
  fromHeight : Nat
  toHeight : Nat
  concurrency : Nat
  ordered : fromHeight ≤ toHeight

structure WindowOutcome where
  projectedBlocks : Nat
  cursorHeightAfter : Nat
  stalledHeight : Option Nat
  deriving Repr, DecidableEq

/-- `MAIN_ZERO_STATE_BOUNDARY_HEIGHT`. -/
def mainZeroStateBoundaryHeight : Nat := 6422526

/-- `validate_zero_state_scope`. -/
def validateZeroStateScope (chain : String) (cursorHeight : Nat) :
    Except IngestionError Unit :=
  if chain = "main" ∧ cursorHeight < mainZeroStateBoundaryHeight then
    .error (.protectedZeroStateCursorBelowBoundary chain cursorHeight
      mainZeroStateBoundaryHeight)
  else .ok ()

/-- `validate_projected_height`. -/
def validateProjectedHeight (chain : String) (height : Nat) :
    Except IngestionError Unit :=
  if chain = "main" ∧ height ≤ mainZeroStateBoundaryHeight then
    .error (.protectedZeroStateBlock chain height mainZeroStateBoundaryHeight)
  else .ok ()

/-- How fetching and writing each height goes. `none` is a commit. -/
structure Outcomes (β : Type) where
  fetch : Nat → Except IngestionError β
  write : Nat → Option IngestionError

/-! ## The sequential path -/

/-- `project_raw_block_and_advance_cursor`, on the stored cursor. -/
def projectRawBlockAndAdvanceCursor {β : Type} (chain : String)
    (o : Outcomes β) (cursor height : Nat) : Except IngestionError (β × Nat) :=
  match validateZeroStateScope chain cursor with
  | .error e => .error e
  | .ok () =>
      match validateProjectedHeight chain height with
      | .error e => .error e
      | .ok () =>
          match o.fetch height with
          | .error e => .error e
          | .ok block =>
              match o.write height with
              | some e => .error e
              | none => .ok (block, max cursor height)

/-- The loop of `project_window_sequentially`, with the number of heights
still ahead. -/
def sequentialLoop {β : Type} (chain : String) (o : Outcomes β) :
    Nat → Nat → Nat → Nat → List (Nat × β) →
    Except IngestionError WindowOutcome × List (Nat × β)
  | 0, _, projected, cursor, written =>
      (.ok ⟨projected, cursor, none⟩, written)
  | ahead + 1, height, projected, cursor, written =>
      match projectRawBlockAndAdvanceCursor chain o cursor height with
      | .ok (block, advanced) =>
          sequentialLoop chain o ahead (height + 1) (projected + 1) advanced
            (written ++ [(height, block)])
      | .error e =>
          if keepsCommittedPrefix projected e then
            (.ok ⟨projected, cursor, some height⟩, written)
          else (.error e, written)

/-- `project_window_sequentially`: what it returns and what it commits. -/
def projectWindowSequentially {β : Type} (chain : String) (o : Outcomes β)
    (w : FetchWindow) (cursorHeight : Nat) :
    Except IngestionError WindowOutcome × List (Nat × β) :=
  sequentialLoop chain o (w.toHeight + 1 - w.fromHeight) w.fromHeight 0
    cursorHeight []

/-! ## The pipelined path -/

/-- How a fetch task ends. A join error is a cancellation or a panic. -/
inductive Joined (β : Type) where
  | fetched (block : β)
  | failed (error : IngestionError)
  | cancelled
  | panicked

/-- A task of the `JoinSet`. -/
structure FetchTask where
  height : Nat
  aborted : Bool
  deriving Repr, DecidableEq

/-- Where in its loop the pipeline stands. -/
inductive Phase where
  | topUp
  | harvest
  | write
  | exitCheck
  | await
  | returned (result : Except IngestionError WindowOutcome)

/-- The local variables of `project_window_pipelined`, and what it has
committed. -/
structure Pipeline (β : Type) where
  phase : Phase
  tasks : List FetchTask
  inFlight : Finset Nat
  ready : Finmap fun _ : Nat => β
  nextToSpawn : Nat
  nextToWrite : Nat
  projectedBlocks : Nat
  cursorHeightAfter : Nat
  fetchError : Option (Nat × IngestionError)
  written : List (Nat × β)

/-- The variables before the loop. -/
def Pipeline.start (β : Type) (w : FetchWindow) (cursorHeight : Nat) :
    Pipeline β where
  phase := .topUp
  tasks := []
  inFlight := ∅
  ready := ∅
  nextToSpawn := w.fromHeight
  nextToWrite := w.fromHeight
  projectedBlocks := 0
  cursorHeightAfter := cursorHeight
  fetchError := none
  written := []

def FetchWindow.slots (w : FetchWindow) : Nat := max w.concurrency 1

/-- `max_read_ahead`. -/
def FetchWindow.maxReadAhead (w : FetchWindow) (queueCapacity : Nat) : Nat :=
  max queueCapacity w.slots

variable {β : Type}

/-- The condition of the top-up loop. -/
def Pipeline.canSpawn (w : FetchWindow) (queueCapacity : Nat)
    (p : Pipeline β) : Prop :=
  p.fetchError = none ∧ p.nextToSpawn ≤ w.toHeight ∧
    p.tasks.length < w.slots ∧
    p.nextToSpawn - p.nextToWrite < w.maxReadAhead queueCapacity

instance (w : FetchWindow) (queueCapacity : Nat) (p : Pipeline β) :
    Decidable (p.canSpawn w queueCapacity) :=
  inferInstanceAs (Decidable (_ ∧ _ ∧ _ ∧ _))

/-- The body of the top-up loop. -/
def Pipeline.spawn (p : Pipeline β) : Pipeline β :=
  { p with
    tasks := p.tasks ++ [⟨p.nextToSpawn, false⟩]
    inFlight := insert p.nextToSpawn p.inFlight
    nextToSpawn := p.nextToSpawn + 1 }

/-- A joined task leaves the set. -/
def Pipeline.leave (p : Pipeline β) (height : Nat) : Pipeline β :=
  { p with tasks := p.tasks.filter fun t => t.height != height }

/-- A cancelled join needs an abort before it. -/
def Pipeline.canJoin (p : Pipeline β) (height : Nat) : Joined β → Prop
  | .cancelled => ⟨height, true⟩ ∈ p.tasks
  | _ => ∃ t ∈ p.tasks, t.height = height

instance (p : Pipeline β) (height : Nat) (r : Joined β) :
    Decidable (p.canJoin height r) :=
  match r with
  | .cancelled => inferInstanceAs (Decidable (⟨height, true⟩ ∈ p.tasks))
  | .fetched _ | .failed _ | .panicked =>
      inferInstanceAs (Decidable (∃ t ∈ p.tasks, t.height = height))

/-- Whether a failure at `height` is the lowest so far. -/
def Pipeline.supersedes (p : Pipeline β) (height : Nat) : Prop :=
  ∀ failure ∈ p.fetchError, height < failure.1

instance (p : Pipeline β) (height : Nat) : Decidable (p.supersedes height) :=
  match h : p.fetchError with
  | none => isTrue fun _ hmem => by rw [h] at hmem; cases hmem
  | some failure =>
      decidable_of_iff (height < failure.1) (by simp [Pipeline.supersedes, h])

/-- `record_fetched`. -/
def Pipeline.recordFetched (p : Pipeline β) (height : Nat) :
    Joined β → Except IngestionError (Pipeline β)
  | .cancelled => .ok p
  | .panicked => .error .fetchTask
  | .fetched block => .ok
      { p with
        inFlight := p.inFlight.erase height
        ready := p.ready.insert height block }
  | .failed error =>
      if p.supersedes height then .ok
        { p with
          tasks := p.tasks.map fun t =>
            if t.height ∈ p.inFlight.erase height ∧ height ≤ t.height then
              { t with aborted := true }
            else t
          inFlight := (p.inFlight.erase height).filter (· < height)
          fetchError := some (height, error) }
      else .ok { p with inFlight := p.inFlight.erase height }

/-- The exit condition. -/
def Pipeline.exits (w : FetchWindow) (p : Pipeline β) : Prop :=
  p.tasks = [] ∧ (p.fetchError.isSome = true ∨ w.toHeight < p.nextToSpawn)

instance (w : FetchWindow) (p : Pipeline β) : Decidable (p.exits w) :=
  inferInstanceAs (Decidable (_ ∧ _))

/-- What stands after the loop. -/
def Pipeline.conclude (p : Pipeline β) : Except IngestionError WindowOutcome :=
  match p.fetchError with
  | some (stalledHeight, error) =>
      if p.projectedBlocks = 0 then .error error
      else .ok ⟨p.projectedBlocks, p.cursorHeightAfter, some stalledHeight⟩
  | none => .ok ⟨p.projectedBlocks, p.cursorHeightAfter, none⟩

/-- A block committed: it leaves `ready`, the cursor and the counters move. -/
def Pipeline.commit (p : Pipeline β) (block : β) (advanced : Nat) :
    Pipeline β :=
  { p with
    ready := p.ready.erase p.nextToWrite
    cursorHeightAfter := advanced
    projectedBlocks := p.projectedBlocks + 1
    nextToWrite := p.nextToWrite + 1
    written := p.written ++ [(p.nextToWrite, block)] }

/-- What the code does not decide: which task ended and how, that none has,
and how a write went. -/
inductive PipelineAct (β : Type) where
  | tick
  | joined (height : Nat) (result : Joined β)
  | nothingFinished
  | wrote (result : Except IngestionError Nat)

/-- A join and its record; `next` is where the loop goes on. -/
def Pipeline.join (p : Pipeline β) (height : Nat) (r : Joined β)
    (next : Phase) : Option (Pipeline β) :=
  if p.canJoin height r then
    match (p.leave height).recordFetched height r with
    | .ok p' => some { p' with phase := next }
    | .error e => some { p.leave height with phase := .returned (.error e) }
  else none

/-- One pass through one of the loops of `project_window_pipelined`. -/
def pipelineStep (w : FetchWindow) (queueCapacity : Nat) (p : Pipeline β) :
    PipelineAct β → Option (Pipeline β)
  | .tick =>
      match p.phase with
      | .topUp =>
          if p.canSpawn w queueCapacity then some p.spawn
          else some { p with phase := .harvest }
      | .write =>
          match p.ready.lookup p.nextToWrite with
          | none => some { p with phase := .exitCheck }
          | some _ => none
      | .exitCheck =>
          if p.exits w then some { p with phase := .returned p.conclude }
          else some { p with phase := .await }
      -- `join_next` of an empty set is `None` at once
      | .await => if p.tasks = [] then some { p with phase := .topUp } else none
      | _ => none
  | .joined height r =>
      match p.phase with
      | .harvest => p.join height r .harvest
      | .await => p.join height r .topUp
      | _ => none
  | .nothingFinished =>
      match p.phase with
      | .harvest => some { p with phase := .write }
      | _ => none
  | .wrote r =>
      match p.phase, p.ready.lookup p.nextToWrite with
      | .write, some block =>
          match r with
          | .ok advanced => some (p.commit block advanced)
          | .error e =>
              -- `ready.remove` has taken the block out
              let p' := { p with ready := p.ready.erase p.nextToWrite }
              if keepsCommittedPrefix p.projectedBlocks e then
                some { p' with phase := .returned (.ok
                  ⟨p.projectedBlocks, p.cursorHeightAfter,
                    some p.nextToWrite⟩) }
              else some { p' with phase := .returned (.error e) }
      | _, _ => none

/-- The action is one the outcomes allow: tasks end as their height's fetch
does and do not panic, and writes go as their height's write does. -/
def Outcomes.Allow (o : Outcomes β) (p : Pipeline β) :
    PipelineAct β → Prop
  | .joined height (.fetched block) => o.fetch height = .ok block
  | .joined height (.failed error) => o.fetch height = .error error
  | .joined _ .panicked => False
  | .wrote r => r = match o.write p.nextToWrite with
      | none => .ok (max p.cursorHeightAfter p.nextToWrite)
      | some e => .error e
  | _ => True

/-- The steps of the pipeline under fixed outcomes, in any order. -/
def PipelineStep (w : FetchWindow) (queueCapacity : Nat) (o : Outcomes β)
    (p : Pipeline β) (a : PipelineAct β) (p' : Pipeline β) : Prop :=
  o.Allow p a ∧ pipelineStep w queueCapacity p a = some p'

/-- The pipeline has returned. -/
def Pipeline.Returned (p : Pipeline β) : Prop :=
  ∃ result, p.phase = .returned result

end Explorer.Ref
