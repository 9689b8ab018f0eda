import Explorer.Proofs.WorkerSafe

/-!
# The height a stall is booked on

`sync_once` books a failed pass on the first height of its window, on the
grounds that a path returns an error only when it has committed nothing. That
is so for every failure a path classifies through `keeps_committed_prefix`.
A fetch task that panics is not classified: its join error leaves the
pipelined path through `?`, whatever has been committed by then. So a stall is
booked on the height that blocks in every run in which panics are only joined
before the window's first commit, and after a later one it is booked on a
height that is already committed.
-/

namespace Explorer.Ref

open Explorer.Lib

/-- A panicked fetch task is joined only while the pass has committed
nothing. -/
def PanicsBeforeCommits (w : Worker) : WorkerAct → Prop
  | .pipeline (.joined _ .panicked) => w.passCommits = []
  | _ => True

instance (w : Worker) (a : WorkerAct) : Decidable (PanicsBeforeCommits w a) :=
  match a with
  | .pipeline (.joined _ .panicked) =>
      inferInstanceAs (Decidable (w.passCommits = []))
  | .pipeline (.joined _ (.fetched _)) | .pipeline (.joined _ (.failed _))
  | .pipeline (.joined _ .cancelled) | .pipeline .tick
  | .pipeline .nothingFinished | .pipeline (.wrote _) | .restart _
  | .begin _ _ | .project _ _ _ | .write _ _ | .book | .cancel | .call _
  | .callWrite _ _ _ _ => isTrue trivial

/-- The steps that meet the condition. -/
def CleanStep (w : Worker) (a : WorkerAct) (w' : Worker) : Prop :=
  PanicsBeforeCommits w a ∧ WorkerStep w a w'

/-- The result names the first height that is not committed: as its stall, or
by failing with nothing committed. -/
def Blames (w : Worker) (window : FetchWindow) :
    Except IngestionError WindowOutcome → Prop
  | .error e => isDatabaseFailure e = false →
      w.passCommits = [] ∧ window.fromHeight = w.tables.currentHeight + 1
  | .ok outcome => ∀ h ∈ outcome.stalledHeight,
      h = w.tables.currentHeight + 1

structure StallsOk (w : Worker) : Prop where
  ok : WorkerOk w
  result : ∀ window result, w.pass.result = some (window, result) →
    Blames w window result
  stalls : ∀ x ∈ w.stalls, x.1 = x.2 + 1

variable {w w' : Worker}

/-- A step that books nothing and leaves no result behind. -/
theorem stallsOk_of_running (hok : WorkerOk w')
    (hresult : w'.pass.result = none)
    (hstalls : ∀ x ∈ w'.stalls, x.1 = x.2 + 1) : StallsOk w' := by
  refine ⟨hok, ?_, hstalls⟩
  intro window result h
  rw [hresult] at h
  cases h

theorem keeps_false_cases {projected : Nat} {e : IngestionError}
    (h : keepsCommittedPrefix projected e = false)
    (hnode : isDatabaseFailure e = false) : projected = 0 := by
  simp only [keepsCommittedPrefix, hnode, Bool.not_false, Bool.and_true,
    decide_eq_false_iff_not, Nat.not_lt, Nat.le_zero] at h
  exact h

theorem sequentialTurn_blames (hs : StallsOk w) {window : FetchWindow}
    {s : SequentialPass} (hpass : w.pass = .sequential window s)
    (h : SequentialMove w window s w') : StallsOk w' := by
  have hok' := (sequentialTurn_kept hs.ok hpass h).ok
  obtain ⟨hnext, hfrom, hlen⟩ := hs.ok.sequential hpass
  cases h with
  | next reg block _ => exact stallsOk_of_running hok' rfl hs.stalls
  | last reg block _ =>
      refine ⟨hok', ?_, hs.stalls⟩
      intro window' result hresult
      cases hresult
      intro h hh
      cases hh
  | stalled e _ =>
      refine ⟨hok', ?_, hs.stalls⟩
      intro window' result hresult
      cases hresult
      intro h hh
      cases hh
      exact hnext
  | failed e hkeep =>
      refine ⟨hok', ?_, hs.stalls⟩
      intro window' result hresult
      cases hresult
      intro hnode
      have hzero := keeps_false_cases hkeep hnode
      exact ⟨List.eq_nil_of_length_eq_zero (hlen.trans hzero), by
        simp only
        omega⟩
  | unacknowledged reg block reason _ =>
      refine ⟨hok', ?_, hs.stalls⟩
      intro window' result hresult
      cases hresult
      intro hnode
      cases hnode

theorem Pass.result_pipelined {window window' : FetchWindow}
    {p : Pipeline DecodedBlock} {result : Except IngestionError WindowOutcome}
    (h : (Pass.pipelined window p).result = some (window', result)) :
    window' = window ∧ p.phase = .returned result := by
  unfold Pass.result at h
  simp only at h
  split at h
  · next hphase =>
      cases h
      exact ⟨rfl, hphase⟩
  · cases h

theorem pipelinedTurn_blames (hs : StallsOk w) {window : FetchWindow}
    {p : Pipeline DecodedBlock} (hpass : w.pass = .pipelined window p)
    (hrun : ¬ p.Returned) {panic : Prop} (hpanic : panic → w.passCommits = [])
    (h : PipelinedMove w window p panic w') : StallsOk w' := by
  have hok' := (pipelinedTurn_kept hs.ok hpass hrun h).ok
  obtain ⟨cursor, -, hpipe, -, hnext, hlen, -⟩ := hs.ok.pipelined hpass hrun
  have hfrom := hpipe.counters.projected_eq
  cases h with
  | moved hmove hprojected hafter =>
      refine ⟨hok', ?_, hs.stalls⟩
      intro window' result hresult
      obtain ⟨rfl, hphase⟩ := Pass.result_pipelined hresult
      rcases ((hpipe.move hmove).settled result hphase).cases with
        ⟨rfl, -⟩ | ⟨e, -, -, ⟨rfl, -⟩ | ⟨rfl, hwhy⟩⟩
      · intro h hh
        cases hh
      · intro h hh
        cases hh
        rw [hprojected]
        simp only
        omega
      · intro hnode
        rcases hwhy with hzero | ⟨hdb, -⟩
        · rw [hprojected] at hzero
          exact ⟨List.eq_nil_of_length_eq_zero (hlen.trans hzero), by
            simp only
            omega⟩
        · rw [hnode] at hdb
          cases hdb
  | panicked hp hphase =>
      refine ⟨hok', ?_, hs.stalls⟩
      intro window' result hresult
      obtain ⟨rfl, hphase'⟩ := Pass.result_pipelined hresult
      cases hphase.symm.trans hphase'
      intro _
      have hnil := hpanic hp
      rw [hnil, List.length_nil] at hlen
      exact ⟨hnil, by simp only; omega⟩
  | committed reg hphase _ =>
      refine stallsOk_of_running hok' ?_ hs.stalls
      simp [Pass.result, Pipeline.commit, hphase]
  | unacknowledged reg block reason _ hphase =>
      refine ⟨hok', ?_, hs.stalls⟩
      intro window' result hresult
      obtain ⟨rfl, hphase'⟩ := Pass.result_pipelined hresult
      cases hphase.symm.trans hphase'
      intro hnode
      cases hnode

/-- A stall is booked with the cursor of that moment. -/
theorem bookOutcome_stalls {window : FetchWindow}
    {result : Except IngestionError WindowOutcome}
    (hblames : Blames w window result)
    (hstalls : ∀ x ∈ w.stalls, x.1 = x.2 + 1) :
    ∀ x ∈ (w.bookOutcome window result).stalls, x.1 = x.2 + 1 := by
  have hnew : ∀ height, height = w.tables.currentHeight + 1 →
      ∀ x ∈ (w.noteFetchStall height).stalls, x.1 = x.2 + 1 := by
    intro height heq x hx
    rcases List.mem_append.mp hx with hx | hx
    · exact hstalls x hx
    · rw [List.mem_singleton.mp hx]
      exact heq
  unfold Worker.bookOutcome
  cases result with
  | error e =>
      simp only
      split
      · exact hstalls
      · next hnode =>
          exact hnew _ (hblames (Bool.eq_false_iff.mpr hnode)).2
  | ok outcome =>
      simp only
      split
      · next height hheight => exact hnew height (hblames height hheight)
      · exact hstalls

theorem beginPass_result (w : Worker) (rpcTip : Except IngestionError Nat)
    (nodeHash : Except IngestionError String) (hidle : w.pass = .idle) :
    (w.beginPass rpcTip nodeHash).pass.result = none ∧
      (w.beginPass rpcTip nodeHash).stalls = w.stalls := by
  have hnone : w.pass.result = none := by rw [hidle]; rfl
  unfold Worker.beginPass
  simp only
  split
  · exact ⟨hnone, rfl⟩
  · split
    · exact ⟨hnone, rfl⟩
    · split
      · exact ⟨hnone, rfl⟩
      · split
        · exact ⟨hnone, rfl⟩
        · exact ⟨hnone, rfl⟩
        · refine ⟨?_, rfl⟩
          simp only [startPass]
          cases w.settings.syncMode <;> rfl

theorem StallsOk.step (hs : StallsOk w) {a : WorkerAct}
    (h : CleanStep w a w') : StallsOk w' := by
  obtain ⟨hclean, hstep⟩ := h
  have hok' := (hs.ok.step hstep).ok
  unfold WorkerStep workerStep at hstep
  cases a with
  | restart settings =>
      cases hstep
      exact stallsOk_of_running hok' rfl hs.stalls
  | begin rpcTip nodeHash =>
      simp only at hstep
      split at hstep
      · next hidle =>
          cases hstep
          obtain ⟨hresult, hsame⟩ := beginPass_result w rpcTip nodeHash hidle
          refine stallsOk_of_running hok' hresult ?_
          rw [hsame]
          exact hs.stalls
      · cases hstep
  | project reg fetched written =>
      simp only at hstep
      split at hstep
      · next window s hpass =>
          cases hstep
          exact sequentialTurn_blames hs hpass
            (sequentialTurn_move w window s reg fetched written)
      · cases hstep
  | pipeline act =>
      simp only at hstep
      split at hstep
      · next window p hpass =>
          refine pipelinedTurn_blames hs hpass (not_returned_of_turn hstep) ?_
            (pipelineTurn_move hstep)
          rintro ⟨height, rfl⟩
          exact hclean
      · cases hstep
  | write reg written =>
      simp only at hstep
      split at hstep
      · next window p hpass =>
          exact pipelinedTurn_blames hs hpass (not_returned_of_write hstep)
            (fun h => h.elim) (pipelineWrite_move hstep)
      · cases hstep
  | book =>
      simp only at hstep
      split at hstep
      · next window result hresult =>
          cases hstep
          exact stallsOk_of_running hok' rfl
            (bookOutcome_stalls (hs.result window result hresult) hs.stalls)
      · cases hstep
  | cancel =>
      cases hstep
      exact stallsOk_of_running hok' rfl hs.stalls
  | call height =>
      simp only at hstep
      split at hstep <;> cases hstep <;> exact ⟨hok', hs.result, hs.stalls⟩
  | callWrite height block reg committed =>
      -- the block of a call leaves the cursor where it is
      simp only at hstep
      split at hstep
      · split at hstep <;> cases hstep <;> exact ⟨hok', hs.result, hs.stalls⟩
      · cases hstep

theorem stallsOk_of_steps {chain nexus : String} {settings : WorkerConfig}
    {t₀ : ChainTables} {acts : List WorkerAct}
    (h : Steps CleanStep (Worker.start chain nexus settings t₀) acts w) :
    StallsOk w := by
  refine h.invariant (fun w a w' hs hstep => hs.step hstep) ?_
  exact stallsOk_of_running (workerOk_start chain nexus settings t₀) rfl
    (by intro x hx; cases hx)

/-- A panic that is joined later is booked on a committed height. -/
theorem panic_after_commit (hok : WorkerOk w) {height : Nat}
    {w₁ w₂ : Worker}
    (hjoin : WorkerStep w (.pipeline (.joined height .panicked)) w₁)
    (hcommits : w.passCommits ≠ []) (hbook : WorkerStep w₁ .book w₂) :
    ∃ x ∈ w₂.stalls, x.1 ≠ x.2 + 1 := by
  unfold WorkerStep workerStep at hjoin hbook
  simp only at hjoin hbook
  split at hjoin
  · next window p hpass =>
      have hrun := not_returned_of_turn hjoin
      obtain ⟨cursor, -, hpipe, -, hnext, hlen, -⟩ := hok.pipelined hpass hrun
      have hfrom := hpipe.counters.projected_eq
      have hpos := List.length_pos_of_ne_nil hcommits
      obtain ⟨p', hp', rfl⟩ := Option.map_eq_some_iff.mp hjoin
      have hphase : p'.phase = .returned (.error .fetchTask) := by
        simp only [pipelineStep] at hp'
        split at hp'
        · exact join_panicked hp'
        · exact join_panicked hp'
        · cases hp'
      simp only [Pass.result, hphase] at hbook
      cases hbook
      refine ⟨(window.fromHeight, w.tables.currentHeight),
        List.mem_append_right _ List.mem_cons_self, ?_⟩
      simp only
      omega
  · cases hjoin

/-- In every run in which panicked fetch tasks are joined only before the
first commit of their window, every stall is booked on the height after the
cursor stored at that moment, and a path that returns an error of the node has
committed nothing. A panic joined later is always booked on another height. -/
theorem stall_names_the_blocking_height (chain nexus : String)
    (settings : WorkerConfig) (t₀ : ChainTables) :
    (∀ acts w, Steps CleanStep (Worker.start chain nexus settings t₀) acts w →
      (∀ x ∈ w.stalls, x.1 = x.2 + 1) ∧
      ∀ window e, w.pass.result = some (window, .error e) →
        isDatabaseFailure e = false → w.passCommits = []) ∧
    ∀ acts w height w₁ w₂,
      Steps WorkerStep (Worker.start chain nexus settings t₀) acts w →
      WorkerStep w (.pipeline (.joined height .panicked)) w₁ →
      w.passCommits ≠ [] → WorkerStep w₁ .book w₂ →
      ∃ x ∈ w₂.stalls, x.1 ≠ x.2 + 1 := by
  refine ⟨?_, ?_⟩
  · intro acts w hrun
    have hs := stallsOk_of_steps hrun
    refine ⟨hs.stalls, ?_⟩
    intro window e hresult hnode
    exact (hs.result window _ hresult hnode).1
  · intro acts w height w₁ w₂ hrun hjoin hcommits hbook
    exact panic_after_commit (workerOk_of_steps hrun) hjoin hcommits hbook

/-! ## A panic after a commit -/

def twoBlockSettings : WorkerConfig where
  syncMode := .normal
  fetchBatchSize := 2
  fetchConcurrency := 2
  queueCapacity := 2
  heightLimit := none

def freshTables : ChainTables where
  currentHeight := 6422526
  blocks := []
  transactions := []
  events := []

def plainBlock : DecodedBlock where
  header :=
    { hash := "A1"
      protocol := none
      chainAddress := none
      validatorAddress := none
      producerAddress := none
      timestampUnixSeconds := 0
      reward := none }
  transactions := []

def blankRegistry : Registry where
  symbol := fun _ => none
  nonFungible := fun _ => false
  nft := fun _ _ => none

/-- The two fetches of a window are in flight. -/
def bothInFlight : List WorkerAct :=
  [.begin (.ok 6422528) (.ok ""), .pipeline .tick, .pipeline .tick,
    .pipeline .tick]

/-- The first block is committed before the second task panics. -/
def latePanic : List WorkerAct :=
  bothInFlight ++
    [.pipeline (.joined 6422527 (.fetched plainBlock)),
      .pipeline .nothingFinished,
      .write (fun _ => blankRegistry) .committed,
      .pipeline .tick, .pipeline .tick,
      .pipeline (.joined 6422528 .panicked), .book]

/-- The stall is booked on the height that was just committed. -/
theorem late_panic_blames_committed_height :
    ¬ ∀ (chain nexus : String) (settings : WorkerConfig) (t₀ : ChainTables)
      (acts : List WorkerAct) (w : Worker),
      Steps WorkerStep (Worker.start chain nexus settings t₀) acts w →
      ∀ x ∈ w.stalls, x.1 = x.2 + 1 := by
  intro hclaim
  have hend : (runSteps workerStep (Worker.start "main" "mainnet"
      twoBlockSettings freshTables) latePanic).map Worker.stalls =
      some [(6422527, 6422527)] := by decide
  obtain ⟨w, hw, hstalls⟩ := Option.map_eq_some_iff.mp hend
  have hall := hclaim "main" "mainnet" twoBlockSettings freshTables latePanic w
    (steps_of_runSteps hw)
  rw [hstalls] at hall
  exact absurd (hall _ List.mem_cons_self) (by decide)

/-- A panic before the first commit is booked where it belongs. -/
theorem stall_names_early_panic :
    ∃ w, Steps CleanStep (Worker.start "main" "mainnet" twoBlockSettings
        freshTables) (bothInFlight ++
          [.pipeline (.joined 6422528 .panicked), .book]) w ∧
      w.stalls = [(6422527, 6422526)] ∧ ∀ x ∈ w.stalls, x.1 = x.2 + 1 := by
  have hend : (runSteps (fun w a =>
      if PanicsBeforeCommits w a then workerStep w a else none)
      (Worker.start "main" "mainnet" twoBlockSettings freshTables)
      (bothInFlight ++ [.pipeline (.joined 6422528 .panicked), .book])).map
        Worker.stalls = some [(6422527, 6422526)] := by decide
  obtain ⟨w, hw, hstalls⟩ := Option.map_eq_some_iff.mp hend
  have hrun : Steps CleanStep (Worker.start "main" "mainnet" twoBlockSettings
      freshTables) (bothInFlight ++
        [.pipeline (.joined 6422528 .panicked), .book]) w := by
    refine (steps_of_runSteps hw).mono ?_
    intro w a w' hstep
    split at hstep
    · next hclean => exact ⟨hclean, hstep⟩
    · cases hstep
  exact ⟨w, hrun, hstalls, ((stall_names_the_blocking_height "main" "mainnet"
    twoBlockSettings freshTables).1 _ w hrun).1⟩

end Explorer.Ref
