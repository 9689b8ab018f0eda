import Explorer.Proofs.PipelineAgree
import Explorer.Ref.Worker

/-!
# What the worker commits

Only the sequential path checks the height of a block again before it writes
it. On the pipelined path the protection of the zero state rests on where the
window starts and on the writer never leaving the stored cursor: while a pass
runs, the next height it writes is the stored cursor plus one (`PassOk`), so
the scope check at the start of the pass speaks for every height of it.

`Effect` says what one step can do to the tables, whoever takes it: nothing,
the block after the cursor together with the cursor, or a block of a single
call, above the boundary and without the cursor. Everything about whole runs
is read off these three cases.
-/

namespace Explorer.Ref

open Explorer.Lib

/-- Fetches and writes that may end in any way. -/
def anyEnd : Ends DecodedBlock where
  fetch := fun _ _ => True
  write := fun _ _ => True

/-- The pass stands at the height after the stored cursor. -/
def PassOk (w : Worker) : Prop :=
  match w.pass with
  | .sequential window s =>
      s.height = w.tables.currentHeight + 1 ∧
        window.fromHeight + s.projectedBlocks = s.height ∧
        w.passCommits.length = s.projectedBlocks
  | .pipelined window p => ¬ p.Returned →
      (∃ cursor, cursor + 1 = window.fromHeight ∧
        PipelineOk window w.settings.queueCapacity anyEnd cursor p) ∧
      p.cursorHeightAfter = w.tables.currentHeight ∧
      w.passCommits.length = p.projectedBlocks ∧
      validateZeroStateScope w.chain w.tables.currentHeight = .ok ()
  | _ => True

structure WorkerOk (w : Worker) : Prop where
  pass : PassOk w
  calls : ∀ h ∈ w.calls, validateProjectedHeight w.chain h = .ok ()

/-- What a step can do to the tables. -/
inductive Effect (w w' : Worker) : Prop
  | none : w'.tables = w.tables → w'.commits = w.commits → Effect w w'
  | advanced (reg : Nat → Registry) (block : DecodedBlock) :
      validateZeroStateScope w.chain w.tables.currentHeight = .ok () →
      w'.tables = advanceCursor (w.tables.currentHeight + 1)
        (projectDecodedBlock reg (w.tables.currentHeight + 1) block w.tables) →
      w'.commits = w.commits ++ [⟨w.tables.currentHeight + 1,
        some (w.tables.currentHeight + 1)⟩] → Effect w w'
  | called (reg : Nat → Registry) (height : Nat) (block : DecodedBlock) :
      validateProjectedHeight w.chain height = .ok () →
      w'.tables = projectDecodedBlock reg height block w.tables →
      w'.commits = w.commits ++ [⟨height, Option.none⟩] → Effect w w'

/-! ## One step -/

theorem PipelineOk.after_eq {β : Type} {window : FetchWindow}
    {queueCapacity cursor : Nat} {ends : Ends β} {p : Pipeline β}
    (hok : PipelineOk window queueCapacity ends cursor p)
    (hcursor : cursor + 1 = window.fromHeight) :
    p.cursorHeightAfter + 1 = p.nextToWrite := by
  have hpe := hok.counters.projected_eq
  have hafter := hok.counters.cursor_eq
  split at hafter
  · omega
  · omega

theorem scope_mono {chain : String} {cursor cursor' : Nat}
    (h : validateZeroStateScope chain cursor = .ok ()) (hle : cursor ≤ cursor') :
    validateZeroStateScope chain cursor' = .ok () := by
  unfold validateZeroStateScope at h ⊢
  split at h
  · cases h
  · next hout =>
      rw [if_neg]
      intro hin
      exact hout ⟨hin.1, by omega⟩

theorem planFetchWindow_from {currentHeight rpcTip : Nat}
    {settings : WorkerConfig} {loadShed : Bool} {window : FetchWindow}
    (h : planFetchWindow currentHeight rpcTip settings loadShed =
      .ok (some window)) : window.fromHeight = currentHeight + 1 := by
  unfold planFetchWindow at h
  split at h
  · cases h
  · simp only at h
    split at h
    · cases h
    · cases h
      rfl

variable {w w' : Worker}

theorem commitBlock_effect {reg : Nat → Registry} {height : Nat}
    {block : DecodedBlock} (hnext : height = w.tables.currentHeight + 1)
    (hscope : validateZeroStateScope w.chain w.tables.currentHeight = .ok ()) :
    Effect w (w.commitBlock reg height block) := by
  subst hnext
  refine .advanced reg block hscope rfl ?_
  simp [Worker.commitBlock, advanceCursor, projectDecodedBlock]

theorem commitBlock_currentHeight (reg : Nat → Registry) {height : Nat}
    (block : DecodedBlock) (hnext : height = w.tables.currentHeight + 1) :
    (w.commitBlock reg height block).tables.currentHeight = height := by
  subst hnext
  simp [Worker.commitBlock, advanceCursor, projectDecodedBlock]

/-- The effect of a step does not depend on the pass. -/
theorem Effect.withPass (h : Effect w w') (pass : Pass) :
    Effect w { w' with pass := pass } := by
  cases h with
  | none ht hc => exact .none ht hc
  | advanced reg block hs ht hc => exact .advanced reg block hs ht hc
  | called reg height block hv ht hc => exact .called reg height block hv ht hc

theorem passOk_startPass (settings : WorkerConfig) {window : FetchWindow}
    (hfrom : window.fromHeight = w.tables.currentHeight + 1)
    (hscope : validateZeroStateScope w.chain w.tables.currentHeight = .ok ())
    (hpass : w.pass = startPass settings window w.tables.currentHeight)
    (hcommits : w.passCommits = []) : PassOk w := by
  unfold PassOk
  rw [hpass]
  unfold startPass
  cases settings.syncMode with
  | normal =>
      intro _
      refine ⟨⟨w.tables.currentHeight, hfrom.symm, pipelineOk_start⟩, rfl, ?_,
        hscope⟩
      rw [hcommits]
      rfl
  | sequential => exact ⟨hfrom, rfl, by rw [hcommits]; rfl⟩
  | relief => exact ⟨hfrom, rfl, by rw [hcommits]; rfl⟩

/-- What a step keeps, and what it has done. -/
structure Kept (w w' : Worker) : Prop where
  ok : WorkerOk w'
  effect : Effect w w'
  chain : w'.chain = w.chain

/-- A step that touches neither the tables nor the calls. -/
theorem kept_of_same (hok : WorkerOk w) (htables : w'.tables = w.tables)
    (hcommits : w'.commits = w.commits) (hcalls : w'.calls = w.calls)
    (hchain : w'.chain = w.chain) (hpass : PassOk w') : Kept w w' := by
  refine ⟨⟨hpass, ?_⟩, .none htables hcommits, hchain⟩
  rw [hcalls, hchain]
  exact hok.calls

theorem beginPass_kept (hok : WorkerOk w)
    (rpcTip : Except IngestionError Nat)
    (nodeHash : Except IngestionError String) :
    Kept w (w.beginPass rpcTip nodeHash) := by
  have hsame : Kept w w := kept_of_same hok rfl rfl rfl rfl hok.pass
  unfold Worker.beginPass
  simp only
  split
  · exact hsame
  · split
    · exact hsame
    · next hscope =>
        split
        · exact hsame
        · split
          · exact kept_of_same hok rfl rfl rfl rfl hok.pass
          · exact kept_of_same hok rfl rfl rfl rfl hok.pass
          · next hplan =>
              exact kept_of_same hok rfl rfl rfl rfl
                (passOk_startPass w.settings (planFetchWindow_from hplan)
                  hscope rfl rfl)

theorem commitBlock_kept (hok : WorkerOk w) {reg : Nat → Registry}
    {height : Nat} {block : DecodedBlock} {pass : Pass}
    (hnext : height = w.tables.currentHeight + 1)
    (hscope : validateZeroStateScope w.chain w.tables.currentHeight = .ok ())
    (hpass : PassOk { w.commitBlock reg height block with pass := pass }) :
    Kept w { w.commitBlock reg height block with pass := pass } :=
  ⟨⟨hpass, hok.calls⟩, (commitBlock_effect hnext hscope).withPass pass, rfl⟩

/-! ## The turns of the two loops -/

theorem keepsCommittedPrefix_sqlx (projected : Nat) (reason : String) :
    keepsCommittedPrefix projected (.sqlx reason) = false := by
  simp [keepsCommittedPrefix, isDatabaseFailure]

/-- The cases of a turn of the sequential loop. -/
inductive SequentialMove (w : Worker) (window : FetchWindow)
    (s : SequentialPass) : Worker → Prop
  | next (reg : Nat → Registry) (block : DecodedBlock) :
      validateZeroStateScope w.chain w.tables.currentHeight = .ok () →
      SequentialMove w window s
        { w.commitBlock reg s.height block with
          pass := .sequential window ⟨s.height + 1, s.projectedBlocks + 1,
            (w.commitBlock reg s.height block).tables.currentHeight⟩ }
  | last (reg : Nat → Registry) (block : DecodedBlock) :
      validateZeroStateScope w.chain w.tables.currentHeight = .ok () →
      SequentialMove w window s
        { w.commitBlock reg s.height block with
          pass := .returned window (.ok ⟨s.projectedBlocks + 1,
            (w.commitBlock reg s.height block).tables.currentHeight,
            none⟩) }
  | stalled (e : IngestionError) :
      keepsCommittedPrefix s.projectedBlocks e = true →
      SequentialMove w window s
        { w with
          pass := .returned window
            (.ok ⟨s.projectedBlocks, s.cursorHeightAfter, some s.height⟩) }
  | failed (e : IngestionError) :
      keepsCommittedPrefix s.projectedBlocks e = false →
      SequentialMove w window s
        { w with pass := .returned window (.error e) }
  | unacknowledged (reg : Nat → Registry) (block : DecodedBlock)
      (reason : String) :
      validateZeroStateScope w.chain w.tables.currentHeight = .ok () →
      SequentialMove w window s
        { w.commitBlock reg s.height block with
          pass := .returned window (.error (.sqlx reason)) }

/-- A block that was not written. -/
theorem sequentialMove_error (w : Worker) (window : FetchWindow)
    (s : SequentialPass) (e : IngestionError) :
    SequentialMove w window s
      (if keepsCommittedPrefix s.projectedBlocks e then
        { w with
          pass := .returned window
            (.ok ⟨s.projectedBlocks, s.cursorHeightAfter, some s.height⟩) }
      else { w with pass := .returned window (.error e) }) := by
  split
  · next hkeep => exact .stalled e hkeep
  · next hkeep => exact .failed e (Bool.eq_false_iff.mpr hkeep)

theorem sequentialTurn_move (w : Worker) (window : FetchWindow)
    (s : SequentialPass) (reg : Nat → Registry)
    (fetched : Except IngestionError DecodedBlock) (written : WriteEnd) :
    SequentialMove w window s
      (w.sequentialTurn window s reg fetched written) := by
  unfold Worker.sequentialTurn Worker.projectRawBlock
  cases hscope : validateZeroStateScope w.chain w.tables.currentHeight with
  | error e => exact sequentialMove_error w window s e
  | ok _ =>
      cases hheight : validateProjectedHeight w.chain s.height with
      | error e => exact sequentialMove_error w window s e
      | ok _ =>
          cases fetched with
          | error e => exact sequentialMove_error w window s e
          | ok block =>
              cases written with
              | committed =>
                  simp only [Worker.writeDecodedBlock]
                  split
                  · exact .next reg block hscope
                  · exact .last reg block hscope
              | rolledBack e => exact sequentialMove_error w window s e
              | unacknowledged reason =>
                  simp only [Worker.writeDecodedBlock,
                    keepsCommittedPrefix_sqlx]
                  exact .unacknowledged reg block reason hscope

/-- The cases of a turn of the pipeline; `panic` says that it joined a task
that panicked. -/
inductive PipelinedMove (w : Worker) (window : FetchWindow)
    (p : Pipeline DecodedBlock) (panic : Prop) : Worker → Prop
  | moved {p' : Pipeline DecodedBlock} :
      PipelineMove window w.settings.queueCapacity anyEnd p p' →
      p'.projectedBlocks = p.projectedBlocks →
      p'.cursorHeightAfter = p.cursorHeightAfter →
      PipelinedMove w window p panic { w with pass := .pipelined window p' }
  | panicked {p' : Pipeline DecodedBlock} : panic →
      p'.phase = .returned (.error .fetchTask) →
      PipelinedMove w window p panic { w with pass := .pipelined window p' }
  | committed (reg : Nat → Registry) {block : DecodedBlock} :
      p.phase = .write → p.ready.lookup p.nextToWrite = some block →
      PipelinedMove w window p panic
        { w.commitBlock reg p.nextToWrite block with
          pass := .pipelined window (p.commit block
            (w.commitBlock reg p.nextToWrite block).tables.currentHeight) }
  | unacknowledged (reg : Nat → Registry) (block : DecodedBlock)
      (reason : String) {p' : Pipeline DecodedBlock} :
      p.phase = .write → p'.phase = .returned (.error (.sqlx reason)) →
      PipelinedMove w window p panic
        { w.commitBlock reg p.nextToWrite block with
          pass := .pipelined window p' }

theorem recordFetched_frame {p p' : Pipeline DecodedBlock} {height : Nat}
    {r : Joined DecodedBlock} (h : p.recordFetched height r = .ok p') :
    p'.projectedBlocks = p.projectedBlocks ∧
      p'.cursorHeightAfter = p.cursorHeightAfter := by
  cases r with
  | cancelled => cases h; exact ⟨rfl, rfl⟩
  | panicked => cases h
  | fetched block => cases h; exact ⟨rfl, rfl⟩
  | failed e =>
      simp only [Pipeline.recordFetched] at h
      split at h
      · cases h; exact ⟨rfl, rfl⟩
      · cases h; exact ⟨rfl, rfl⟩

theorem join_frame {p p' : Pipeline DecodedBlock} {height : Nat}
    {r : Joined DecodedBlock} {next : Phase}
    (h : p.join height r next = some p') :
    p'.projectedBlocks = p.projectedBlocks ∧
      p'.cursorHeightAfter = p.cursorHeightAfter := by
  unfold Pipeline.join at h
  split at h
  · split at h
    · next hrec =>
        cases h
        have hframe := recordFetched_frame hrec
        exact hframe
    · cases h
      exact ⟨rfl, rfl⟩
  · cases h

/-- A step that is no write leaves the writer's counters alone. -/
theorem pipelineStep_frame {window : FetchWindow} {queueCapacity : Nat}
    {p p' : Pipeline DecodedBlock} {a : PipelineAct DecodedBlock}
    (hact : ∀ r, a ≠ .wrote r)
    (h : pipelineStep window queueCapacity p a = some p') :
    p'.projectedBlocks = p.projectedBlocks ∧
      p'.cursorHeightAfter = p.cursorHeightAfter := by
  cases a with
  | tick =>
      simp only [pipelineStep] at h
      split at h <;> (try split at h) <;> cases h <;> exact ⟨rfl, rfl⟩
  | joined height r =>
      simp only [pipelineStep] at h
      split at h
      · exact join_frame h
      · exact join_frame h
      · cases h
  | nothingFinished =>
      simp only [pipelineStep] at h
      split at h <;> cases h
      exact ⟨rfl, rfl⟩
  | wrote r => exact absurd rfl (hact r)

theorem join_panicked {p p' : Pipeline DecodedBlock} {height : Nat}
    {next : Phase} (h : p.join height .panicked next = some p') :
    p'.phase = .returned (.error .fetchTask) := by
  unfold Pipeline.join at h
  split at h
  · cases h
    rfl
  · cases h

theorem pipelineTurn_move {window : FetchWindow} {p : Pipeline DecodedBlock}
    {a : PipelineAct DecodedBlock} (h : w.pipelineTurn window p a = some w') :
    PipelinedMove w window p (∃ height, a = .joined height .panicked) w' := by
  have hact : ∀ r, a ≠ .wrote r := by
    rintro r rfl
    cases h
  have hstep : (pipelineStep window w.settings.queueCapacity p a).map (fun p' =>
      { w with pass := .pipelined window p' }) = some w' := by
    cases a with
    | wrote r => exact absurd rfl (hact r)
    | _ => exact h
  obtain ⟨p', hp', rfl⟩ := Option.map_eq_some_iff.mp hstep
  have hframe := pipelineStep_frame hact hp'
  have hmoved : anyEnd.Allow p a → PipelinedMove w window p
      (∃ height, a = .joined height .panicked)
      { w with pass := .pipelined window p' } := fun hallow =>
    .moved (move_of_step hallow hp') hframe.1 hframe.2
  cases a with
  | tick => exact hmoved trivial
  | nothingFinished => exact hmoved trivial
  | wrote r => exact absurd rfl (hact r)
  | joined height r =>
      cases r with
      | cancelled => exact hmoved trivial
      | fetched block => exact hmoved trivial
      | failed e => exact hmoved trivial
      | panicked =>
          refine .panicked ⟨height, rfl⟩ ?_
          simp only [pipelineStep] at hp'
          split at hp'
          · exact join_panicked hp'
          · exact join_panicked hp'
          · cases hp'

/-- A write that the database refused. -/
theorem wrote_error_frame {window : FetchWindow} {queueCapacity : Nat}
    {p p' : Pipeline DecodedBlock} {e : IngestionError}
    (h : pipelineStep window queueCapacity p (.wrote (.error e)) = some p') :
    p'.projectedBlocks = p.projectedBlocks ∧
      p'.cursorHeightAfter = p.cursorHeightAfter := by
  simp only [pipelineStep] at h
  split at h
  · split at h <;> cases h <;> exact ⟨rfl, rfl⟩
  · cases h

theorem pipelineWrite_move {window : FetchWindow} {p : Pipeline DecodedBlock}
    {reg : Nat → Registry} {written : WriteEnd}
    (h : w.pipelineWrite window p reg written = some w') :
    PipelinedMove w window p False w' := by
  unfold Worker.pipelineWrite at h
  split at h
  · cases h
  · next block hready =>
      obtain ⟨p', hp', rfl⟩ := Option.map_eq_some_iff.mp h
      cases written with
      | committed =>
          simp only [pipelineStep] at hp'
          split at hp'
          · next b hphase hb =>
              cases hready.symm.trans hb
              cases hp'
              exact .committed reg hphase hready
          · cases hp'
      | rolledBack e =>
          obtain ⟨hprojected, hafter⟩ := wrote_error_frame hp'
          have hallow : anyEnd.Allow p (.wrote (.error e)) := trivial
          exact .moved (move_of_step hallow hp') hprojected hafter
      | unacknowledged reason =>
          simp only [pipelineStep, keepsCommittedPrefix_sqlx] at hp'
          split at hp'
          · next b hphase hb =>
              cases hp'
              exact .unacknowledged reg block reason hphase rfl
          · cases hp'

/-! ## The invariant over a run -/

theorem WorkerOk.sequential (hok : WorkerOk w) {window : FetchWindow}
    {s : SequentialPass} (hpass : w.pass = .sequential window s) :
    s.height = w.tables.currentHeight + 1 ∧
      window.fromHeight + s.projectedBlocks = s.height ∧
      w.passCommits.length = s.projectedBlocks := by
  have hat := hok.pass
  unfold PassOk at hat
  rwa [hpass] at hat

/-- A running pipeline, with its writer at the height after the cursor. -/
theorem WorkerOk.pipelined (hok : WorkerOk w) {window : FetchWindow}
    {p : Pipeline DecodedBlock} (hpass : w.pass = .pipelined window p)
    (hrun : ¬ p.Returned) :
    ∃ cursor, cursor + 1 = window.fromHeight ∧
      PipelineOk window w.settings.queueCapacity anyEnd cursor p ∧
      p.cursorHeightAfter = w.tables.currentHeight ∧
      p.nextToWrite = w.tables.currentHeight + 1 ∧
      w.passCommits.length = p.projectedBlocks ∧
      validateZeroStateScope w.chain w.tables.currentHeight = .ok () := by
  have hat := hok.pass
  unfold PassOk at hat
  rw [hpass] at hat
  obtain ⟨⟨cursor, hcursor, hpipe⟩, hafter, hlen, hscope⟩ := hat hrun
  have hnext := hpipe.after_eq hcursor
  exact ⟨cursor, hcursor, hpipe, hafter, by omega, hlen, hscope⟩

theorem sequentialTurn_kept (hok : WorkerOk w) {window : FetchWindow}
    {s : SequentialPass} (hpass : w.pass = .sequential window s)
    (h : SequentialMove w window s w') : Kept w w' := by
  obtain ⟨hnext, hfrom, hlen⟩ := hok.sequential hpass
  cases h with
  | next reg block hscope =>
      refine commitBlock_kept hok hnext hscope ⟨?_, by simp only; omega, ?_⟩
      · have hcur := commitBlock_currentHeight reg block hnext
        simp only
        omega
      · simp [Worker.commitBlock, hlen]
  | last reg block hscope =>
      exact commitBlock_kept hok hnext hscope trivial
  | stalled e _ => exact kept_of_same hok rfl rfl rfl rfl trivial
  | failed e _ => exact kept_of_same hok rfl rfl rfl rfl trivial
  | unacknowledged reg block reason hscope =>
      exact commitBlock_kept hok hnext hscope trivial

theorem pipelinedTurn_kept (hok : WorkerOk w) {window : FetchWindow}
    {p : Pipeline DecodedBlock} (hpass : w.pass = .pipelined window p)
    (hrun : ¬ p.Returned) {panic : Prop}
    (h : PipelinedMove w window p panic w') : Kept w w' := by
  obtain ⟨cursor, hcursor, hpipe, hafter, hnext, hlen, hscope⟩ :=
    hok.pipelined hpass hrun
  cases h with
  | moved hmove hprojected hafter' =>
      refine kept_of_same hok rfl rfl rfl rfl fun _ => ?_
      exact ⟨⟨cursor, hcursor, hpipe.move hmove⟩, hafter'.trans hafter,
        hlen.trans hprojected.symm, hscope⟩
  | panicked _ hphase =>
      exact kept_of_same hok rfl rfl rfl rfl fun hrun' =>
        absurd ⟨_, hphase⟩ hrun'
  | @committed reg block hphase hready =>
      have hcur := commitBlock_currentHeight reg block hnext
      refine commitBlock_kept hok hnext hscope fun _ => ⟨⟨cursor, hcursor, ?_⟩,
        rfl, ?_, scope_mono hscope ?_⟩
      · have hmax : max p.cursorHeightAfter p.nextToWrite =
            (w.commitBlock reg p.nextToWrite block).tables.currentHeight := by
          omega
        rw [← hmax]
        exact hpipe.move (.committed hphase hready trivial)
      · simp [Worker.commitBlock, Pipeline.commit, hlen]
      · simp only
        omega
  | unacknowledged reg block reason _ hphase =>
      exact commitBlock_kept hok hnext hscope fun hrun' =>
        absurd ⟨_, hphase⟩ hrun'

theorem not_returned_of_step {β : Type} {window : FetchWindow}
    {queueCapacity : Nat} {p p' : Pipeline β} {a : PipelineAct β}
    (h : pipelineStep window queueCapacity p a = some p') : ¬ p.Returned := by
  rintro ⟨result, hphase⟩
  cases a <;> simp [pipelineStep, hphase] at h

theorem not_returned_of_turn {window : FetchWindow}
    {p : Pipeline DecodedBlock} {a : PipelineAct DecodedBlock}
    (h : w.pipelineTurn window p a = some w') : ¬ p.Returned := by
  cases a with
  | wrote r => cases h
  | _ =>
      obtain ⟨p', hp', -⟩ := Option.map_eq_some_iff.mp h
      exact not_returned_of_step hp'

theorem not_returned_of_write {window : FetchWindow}
    {p : Pipeline DecodedBlock} {reg : Nat → Registry} {written : WriteEnd}
    (h : w.pipelineWrite window p reg written = some w') : ¬ p.Returned := by
  unfold Worker.pipelineWrite at h
  split at h
  · cases h
  · obtain ⟨p', hp', -⟩ := Option.map_eq_some_iff.mp h
    exact not_returned_of_step hp'

theorem bookOutcome_same (w : Worker) (window : FetchWindow)
    (result : Except IngestionError WindowOutcome) :
    (w.bookOutcome window result).tables = w.tables ∧
      (w.bookOutcome window result).commits = w.commits ∧
      (w.bookOutcome window result).calls = w.calls ∧
      (w.bookOutcome window result).chain = w.chain := by
  cases result with
  | error e =>
      cases hdb : isDatabaseFailure e <;>
        simp [Worker.bookOutcome, Worker.noteFetchStall, hdb]
  | ok outcome =>
      cases hstall : outcome.stalledHeight <;>
        simp [Worker.bookOutcome, Worker.noteFetchStall,
          Worker.noteFetchProgress, hstall]

/-- Every step keeps the invariant and has one of the three effects. -/
theorem WorkerOk.step (hok : WorkerOk w) {a : WorkerAct}
    (h : WorkerStep w a w') : Kept w w' := by
  unfold WorkerStep workerStep at h
  cases a with
  | restart settings =>
      cases h
      exact ⟨⟨trivial, by intro x hx; cases hx⟩, .none rfl rfl, rfl⟩
  | begin rpcTip nodeHash =>
      simp only at h
      split at h <;> cases h
      exact beginPass_kept hok rpcTip nodeHash
  | project reg fetched written =>
      simp only at h
      split at h
      · next window s hpass =>
          cases h
          exact sequentialTurn_kept hok hpass
            (sequentialTurn_move w window s reg fetched written)
      · cases h
  | pipeline act =>
      simp only at h
      split at h
      · next window p hpass =>
          exact pipelinedTurn_kept hok hpass (not_returned_of_turn h)
            (pipelineTurn_move h)
      · cases h
  | write reg written =>
      simp only at h
      split at h
      · next window p hpass =>
          exact pipelinedTurn_kept hok hpass (not_returned_of_write h)
            (pipelineWrite_move h)
      · cases h
  | book =>
      simp only at h
      split at h
      · next window result _ =>
          cases h
          obtain ⟨htables, hcommits, hcalls, hchain⟩ :=
            bookOutcome_same w window result
          exact kept_of_same hok htables hcommits hcalls hchain trivial
      · cases h
  | cancel =>
      cases h
      exact kept_of_same hok rfl rfl rfl rfl trivial
  | call height =>
      simp only at h
      split at h
      · next hscope hheight =>
          cases h
          refine ⟨⟨hok.pass, ?_⟩, .none rfl rfl, rfl⟩
          intro x hx
          rcases List.mem_cons.mp hx with rfl | hx
          · exact hheight
          · exact hok.calls x hx
      · cases h
        exact kept_of_same hok rfl rfl rfl rfl hok.pass
  | callWrite height block reg committed =>
      simp only at h
      split at h
      · next hmem =>
          have hcalls : ∀ x ∈ w.calls.erase height,
              validateProjectedHeight w.chain x = .ok () :=
            fun x hx => hok.calls x (List.mem_of_mem_erase hx)
          split at h
          · cases h
            exact ⟨⟨hok.pass, hcalls⟩,
              .called reg height block (hok.calls height hmem) rfl rfl, rfl⟩
          · cases h
            exact ⟨⟨hok.pass, hcalls⟩, .none rfl rfl, rfl⟩
      · cases h

theorem workerOk_start (chain nexus : String) (settings : WorkerConfig)
    (tables : ChainTables) : WorkerOk (Worker.start chain nexus settings tables)
    where
  pass := trivial
  calls := by intro h hh; cases hh

theorem workerOk_of_steps {chain nexus : String} {settings : WorkerConfig}
    {t₀ : ChainTables} {acts : List WorkerAct}
    (h : Steps WorkerStep (Worker.start chain nexus settings t₀) acts w) :
    WorkerOk w :=
  h.invariant (fun _ _ _ hok hstep => (hok.step hstep).ok)
    (workerOk_start chain nexus settings t₀)

end Explorer.Ref
