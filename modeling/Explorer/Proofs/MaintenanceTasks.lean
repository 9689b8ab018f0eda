import Explorer.Lib.Threads
import Explorer.Proofs.Supervisor

/-!
# The maintenance tasks hold back, are woken and stop

Three statements on every interleaving with the block loop. A pass runs only
where, since its task woke, the last published lag was near the tip and, if the
task spares the node, the load-shed mode was off: the gate reads two variables
that the block loop writes, so each was so at some moment in between, and not
at the moment the pass begins. The wake-up of the balance task is a permit that
coalesces: none is lost, and none is used twice. And the loops end when they
are told to and not before: whatever one of them waits for, no backoff, no pass
and no tick has to come first.
-/

namespace Explorer.Ref

open Explorer.Lib

/-! ## The gate -/

/-- The lag after these reports. -/
def lagAfter (published : List Nat) : Nat :=
  published.getLast?.getD u64Max

/-- The lag was near the tip at a moment since the task woke. -/
def MaintenanceTask.SawNear (s : Supervisor) (t : MaintenanceTask) : Prop :=
  ∃ k, t.woke.published ≤ k ∧ k ≤ s.published.length ∧
    lagAfter (s.published.take k) ≤ balanceSyncLagThreshold

/-- Load-shed mode was off at a moment since the task woke. -/
def MaintenanceTask.SawRelieved (s : Supervisor) (t : MaintenanceTask) :
    Prop :=
  ∃ k, t.woke.reliefCalls ≤ k ∧ k ≤ s.reliefCalls.length ∧
    (reliefAfter (s.reliefCalls.take k)).active = false

/-- What a task has seen where it stands. -/
structure MaintenanceTask.Gated (s : Supervisor) (t : MaintenanceTask) :
    Prop where
  published : t.woke.published ≤ s.published.length
  reliefCalls : t.woke.reliefCalls ≤ s.reliefCalls.length
  near : t.phase = .readingRelief ∨ (∃ further, t.phase = .passing further) →
    t.SawNear s
  relieved : (∃ further, t.phase = .passing further) →
    t.job.sparesNode = true → t.SawRelieved s

/-- What the two variables hold, and every task behind the gate. -/
structure Supervisor.Gates (s : Supervisor) : Prop where
  lag : s.lag = lagAfter s.published
  relief : s.relief = reliefAfter s.reliefCalls
  tasks : ∀ t ∈ s.tasks, t.Gated s

/-- What a task has seen it has seen for good. -/
theorem MaintenanceTask.Gated.later {s s' : Supervisor} {t : MaintenanceTask}
    (h : t.Gated s) (hpublished : s.published <+: s'.published)
    (hcalls : s.reliefCalls <+: s'.reliefCalls) : t.Gated s' := by
  refine ⟨Nat.le_trans h.published hpublished.length_le,
    Nat.le_trans h.reliefCalls hcalls.length_le, fun hphase => ?_,
    fun hphase hspares => ?_⟩
  · obtain ⟨k, hwoke, hle, hlag⟩ := h.near hphase
    refine ⟨k, hwoke, Nat.le_trans hle hpublished.length_le, ?_⟩
    obtain ⟨later, heq⟩ := hpublished
    rw [← heq, List.take_append_of_le_length hle]
    exact hlag
  · obtain ⟨k, hwoke, hle, hrelief⟩ := h.relieved hphase hspares
    refine ⟨k, hwoke, Nat.le_trans hle hcalls.length_le, ?_⟩
    obtain ⟨later, heq⟩ := hcalls
    rw [← heq, List.take_append_of_le_length hle]
    exact hrelief

theorem TaskMove.gated {s : Supervisor} {t t' : MaintenanceTask} {kick : Bool}
    (h : TaskMove s t kick t') (hs : s.Gates) (ht : t.Gated s) :
    t'.Gated s := by
  have hnow : s.lag ≤ balanceSyncLagThreshold → t.SawNear s := fun hlag => by
    refine ⟨_, ht.published, Nat.le_refl _, ?_⟩
    rw [List.take_length, ← hs.lag]
    exact hlag
  cases h with
  | ticked | kicked =>
      exact ⟨Nat.le_refl _, Nat.le_refl _, by simp [MaintenanceTask.wake],
        by simp [MaintenanceTask.wake]⟩
  | idle | panicked | stopped =>
      exact ⟨ht.published, ht.reliefCalls, by simp, by simp⟩
  | near hphase hlag =>
      exact ⟨ht.published, ht.reliefCalls, fun _ => hnow hlag, by simp⟩
  | began hphase hlag hspares =>
      refine ⟨ht.published, ht.reliefCalls, fun _ => hnow hlag, fun _ h => ?_⟩
      rw [hspares] at h
      cases h
  | spared hphase hactive =>
      refine ⟨ht.published, ht.reliefCalls,
        fun _ => ht.near (.inl hphase), fun _ _ => ?_⟩
      refine ⟨_, ht.reliefCalls, Nat.le_refl _, ?_⟩
      rw [List.take_length, ← hs.relief]
      exact hactive
  | next hphase =>
      exact ⟨ht.published, ht.reliefCalls,
        fun _ => ht.near (.inr ⟨_, hphase⟩),
        fun _ => ht.relieved ⟨_, hphase⟩⟩

theorem lagAfter_snoc (published : List Nat) (lag : Nat) :
    lagAfter (published ++ [lag]) = lag := by
  rw [lagAfter, List.getLast?_concat, Option.getD_some]

theorem SupervisorMove.gates {s s' : Supervisor} (h : SupervisorMove s s')
    (hs : s.Gates) : s'.Gates := by
  have hkept : ∀ {s' : Supervisor}, s.published <+: s'.published →
      s.reliefCalls <+: s'.reliefCalls → ∀ t ∈ s.tasks, t.Gated s' :=
    fun hpublished hcalls t ht => (hs.tasks t ht).later hpublished hcalls
  cases h with
  | clock | signal | tick | resume | announce | quiet | stop | join =>
      exact ⟨hs.lag, hs.relief,
        hkept (List.prefix_refl _) (List.prefix_refl _)⟩
  | @sync started e hphase =>
      refine ⟨hs.lag, ?_,
        hkept (List.prefix_refl _) (List.prefix_append _ _)⟩
      show s.relief.book e = _
      rw [hs.relief, book_reliefAfter]
  | @finish started e hphase =>
      obtain ⟨wait, report, heq, -⟩ := s.handle_spec started e
      rw [heq]
      exact ⟨hs.lag, hs.relief,
        hkept (List.prefix_refl _) (List.prefix_refl _)⟩
  | publish hphase =>
      exact ⟨(lagAfter_snoc _ _).symm, hs.relief,
        hkept (List.prefix_append _ _) (List.prefix_refl _)⟩
  | @task i t t' kick hget hmove =>
      refine ⟨hs.lag, hs.relief, fun u hu => ?_⟩
      rcases List.mem_or_eq_of_mem_set hu with hu | rfl
      · exact (hs.tasks u hu).later (List.prefix_refl _) (List.prefix_refl _)
      · have ht := hs.tasks t (List.mem_of_getElem? hget)
        exact (hmove.gated hs ht).later (List.prefix_refl _)
          (List.prefix_refl _)

theorem gates_start : Supervisor.start.Gates := by
  refine ⟨rfl, rfl, fun t ht => ?_⟩
  obtain ⟨job, -, rfl⟩ := List.mem_map.mp ht
  exact ⟨Nat.le_refl _, Nat.le_refl _, by simp, by simp⟩

/-- In every run, a task that is in a pass has since it woke seen a lag of at
most fifty blocks, which is the last report at that moment, and, if it spares
the node, load-shed mode off. -/
theorem maintenance_runs_near_tip {as : List SupervisorAct} {s : Supervisor}
    (h : SupervisorRuns as s) {t : MaintenanceTask} (ht : t ∈ s.tasks)
    {further : Nat} (hphase : t.phase = .passing further) :
    (∃ k, t.woke.published ≤ k ∧ k ≤ s.published.length ∧
      lagAfter (s.published.take k) ≤ balanceSyncLagThreshold) ∧
    (t.job.sparesNode = true →
      ∃ k, t.woke.reliefCalls ≤ k ∧ k ≤ s.reliefCalls.length ∧
        (reliefAfter (s.reliefCalls.take k)).active = false) := by
  have hgates : s.Gates :=
    h.invariant (fun _ _ hs hmove => hmove.gates hs) gates_start
  have hgated := hgates.tasks t ht
  exact ⟨hgated.near (.inr ⟨further, hphase⟩),
    hgated.relieved ⟨further, hphase⟩⟩

/-- The loop is at the tip, and the balance task begins a pass. -/
def balancePass : List SupervisorAct :=
  [.tick, .sync (.caughtUp 9 9), .finish, .publish, .announce, .task 0 .tick,
    .task 0 .readLag, .task 0 .readRelief]

theorem maintenance_runs_near_tip_once :
    ∃ s t, SupervisorRuns balancePass s ∧ t ∈ s.tasks ∧
      ∃ k, k ≤ s.published.length ∧
        lagAfter (s.published.take k) ≤ balanceSyncLagThreshold := by
  have hend : (runSteps supervisorStep .start balancePass).map
      (fun s => s.tasks.head?.map MaintenanceTask.phase) =
      some (some (.passing 0)) := by decide +kernel
  obtain ⟨s, hs, hhead⟩ := Option.map_eq_some_iff.mp hend
  obtain ⟨t, ht, hphase⟩ := Option.map_eq_some_iff.mp hhead
  have hruns : SupervisorRuns balancePass s := steps_of_runSteps hs
  have ht := List.mem_of_mem_head? ht
  obtain ⟨⟨k, -, hle, hlag⟩, -⟩ := maintenance_runs_near_tip hruns ht hphase
  exact ⟨s, t, hruns, ht, k, hle, hlag⟩

/-! ## The wake-up of the balance task -/

def SupervisorAct.isKick : SupervisorAct → Bool
  | .task _ .kick => true
  | _ => false

/-- The report in hand that will send a wake-up, if it may. -/
def LoopPhase.aboutToAnnounce : LoopPhase → Nat
  | .announcing report =>
      if report.currentLag ≤ balanceSyncLagThreshold then 1 else 0
  | _ => 0

theorem afterWait_announces (now wait : Nat) (report : Option SyncBatchReport) :
    (LoopPhase.afterWait now wait report).aboutToAnnounce = 0 := by
  rcases afterWait_cases now wait report with h | ⟨-, h | ⟨_, h⟩⟩ <;>
    rw [h] <;> rfl

theorem TaskMove.wakes {s : Supervisor} {t t' : MaintenanceTask} {kick : Bool}
    (h : TaskMove s t kick t') :
    t'.job = t.job ∧ (t.job.kicked = false → kick = s.kick) ∧
      (t'.woke.announcements = s.announcements ∨
        t'.woke = t.woke ∧ kick = s.kick) := by
  cases h with
  | ticked => exact ⟨rfl, fun _ => rfl, .inl rfl⟩
  | kicked _ hkicked =>
      refine ⟨rfl, fun h => ?_, .inl rfl⟩
      rw [hkicked] at h
      cases h
  | idle | near | began | spared | next | panicked | stopped =>
      exact ⟨rfl, fun _ => rfl, .inr ⟨rfl, rfl⟩⟩

/-- Only the balance task is woken by the block loop. -/
theorem kicked_of_maintenanceJobs {i : Nat} {job : MaintenanceJob}
    (h : maintenanceJobs[i]? = some job) : job.kicked = decide (i = 0) := by
  cases i with
  | zero =>
      cases h
      rfl
  | succ i =>
      have hothers : ∀ job ∈ maintenanceJobs.tail, job.kicked = false := by
        decide
      exact hothers job (List.mem_of_getElem? h)

/-- A wake-up that the balance task has not had is still there. -/
structure Supervisor.KeepsWakeups (s : Supervisor) : Prop where
  jobs : s.tasks.map MaintenanceTask.job = maintenanceJobs
  pending : ∀ t, s.tasks[0]? = some t →
    t.woke.announcements ≠ s.announcements → s.kick = true
  earned : s.announcements + s.loopPhase.aboutToAnnounce ≤
    s.published.countP (· ≤ balanceSyncLagThreshold)

theorem Supervisor.KeepsWakeups.kicked {s : Supervisor} (hs : s.KeepsWakeups)
    {i : Nat} {t : MaintenanceTask} (ht : s.tasks[i]? = some t) :
    t.job.kicked = decide (i = 0) := by
  apply kicked_of_maintenanceJobs
  rw [← hs.jobs, List.getElem?_map, ht]
  rfl

theorem SupervisorMove.keepsWakeups {s s' : Supervisor}
    (h : SupervisorMove s s') (hs : s.KeepsWakeups) : s'.KeepsWakeups := by
  have hearned := hs.earned
  cases h with
  | clock | signal => exact ⟨hs.jobs, hs.pending, hearned⟩
  | tick hphase | sync _ hphase | quiet hphase =>
      exact ⟨hs.jobs, hs.pending, Nat.le_trans (Nat.le_add_right _ _) hearned⟩
  | stop | join =>
      exact ⟨hs.jobs, hs.pending, Nat.le_trans (Nat.le_add_right _ _) hearned⟩
  | @finish started e hphase =>
      obtain ⟨wait, report, heq, -⟩ := s.handle_spec started e
      rw [heq]
      refine ⟨hs.jobs, hs.pending, ?_⟩
      show s.announcements +
        (LoopPhase.afterWait s.now wait report).aboutToAnnounce ≤ _
      rw [afterWait_announces]
      exact Nat.le_trans (Nat.le_add_right _ _) hearned
  | resume =>
      refine ⟨hs.jobs, hs.pending, ?_⟩
      show s.announcements +
        (LoopPhase.afterWait s.now 0 _).aboutToAnnounce ≤ _
      rw [afterWait_announces]
      exact Nat.le_trans (Nat.le_add_right _ _) hearned
  | @publish report hphase =>
      refine ⟨hs.jobs, hs.pending, ?_⟩
      show s.announcements +
        (if report.currentLag ≤ balanceSyncLagThreshold then 1 else 0) ≤
          (s.published ++ [report.currentLag]).countP _
      rw [List.countP_append, List.countP_singleton]
      simp only [decide_eq_true_eq]
      omega
  | @announce report hphase hnear =>
      refine ⟨hs.jobs, fun _ _ _ => rfl, ?_⟩
      rw [hphase] at hearned
      have hone : (LoopPhase.announcing report).aboutToAnnounce = 1 :=
        if_pos hnear
      rw [hone] at hearned
      exact hearned
  | @task i t t' kick hget hmove =>
      obtain ⟨hjob, hkick, hwoke⟩ := hmove.wakes
      refine ⟨?_, fun u hu hne => ?_, hearned⟩
      · show (s.tasks.set i t').map MaintenanceTask.job = maintenanceJobs
        obtain ⟨hi, rfl⟩ := List.getElem?_eq_some_iff.mp hget
        have hlen : i < (s.tasks.map MaintenanceTask.job).length := by
          rw [List.length_map]
          exact hi
        have hself := List.set_getElem_self hlen
        rw [List.getElem_map] at hself
        rw [List.map_set, hjob]
        exact hself.trans hs.jobs
      · show kick = true
        have hu : (s.tasks.set i t')[0]? = some u := hu
        by_cases hi : i = 0
        · subst hi
          rw [List.getElem?_set_self (List.getElem?_eq_some_iff.mp hget).1]
            at hu
          cases hu
          rcases hwoke with hwoke | ⟨hwoke, hkick⟩
          · exact absurd hwoke hne
          · rw [hkick]
            rw [hwoke] at hne
            exact hs.pending t hget hne
        · rw [List.getElem?_set_ne hi] at hu
          have hnot : t.job.kicked = false := by
            rw [hs.kicked hget, decide_eq_false hi]
          rw [hkick hnot]
          exact hs.pending u hu hne

theorem SupervisorMove.permit {s s' : Supervisor} (h : SupervisorMove s s') :
    s'.kick.toNat + s.announcements ≤ s.kick.toNat + s'.announcements := by
  cases h with
  | clock | signal | tick | sync | resume | publish | quiet | stop | join =>
      exact Nat.le_refl _
  | @finish started e hphase =>
      obtain ⟨wait, report, heq, -⟩ := s.handle_spec started e
      rw [heq]
  | announce =>
      show 1 + s.announcements ≤ s.kick.toNat + (s.announcements + 1)
      omega
  | @task i t t' kick hget hmove =>
      show kick.toNat + s.announcements ≤ s.kick.toNat + s.announcements
      cases hmove with
      | kicked =>
          rw [Bool.toNat_false]
          omega
      | ticked | idle | near | began | spared | next | panicked | stopped =>
          exact Nat.le_refl _

theorem permit_of_kick {s s' : Supervisor} {i : Nat}
    (h : supervisorStep s (.task i .kick) = some s') :
    s.kick = true ∧ s'.kick = false ∧ s'.announcements = s.announcements := by
  simp only [supervisorStep] at h
  obtain ⟨t, -, h⟩ := Option.bind_eq_some_iff.mp h
  obtain ⟨⟨s₁, t'⟩, hstep, rfl⟩ := Option.map_eq_some_iff.mp h
  simp only [taskStep] at hstep
  split at hstep
  · split at hstep
    · next hkick =>
        cases hstep
        exact ⟨(Bool.and_eq_true _ _ ▸ hkick).2, rfl, rfl⟩
    · cases hstep
  · cases hstep

/-- A step that uses the permit takes it away. -/
theorem SupervisorMoves.permit {s s' : Supervisor} {a : SupervisorAct}
    (h : SupervisorMoves s a s') :
    a.isKick.toNat + s'.kick.toNat + s.announcements ≤
      s.kick.toNat + s'.announcements := by
  cases hkick : a.isKick with
  | false =>
      have := (supervisorStep_moves h).permit
      rw [Bool.toNat_false]
      omega
  | true =>
      unfold SupervisorAct.isKick at hkick
      split at hkick
      · obtain ⟨hhad, hgone, hsame⟩ := permit_of_kick h
        rw [hhad, hgone, hsame]
        exact Nat.le_refl _
      · cases hkick

theorem kicks_le_announcements {s s' : Supervisor} {as : List SupervisorAct}
    (h : Steps SupervisorMoves s as s') :
    as.countP SupervisorAct.isKick + s'.kick.toNat + s.announcements ≤
      s.kick.toNat + s'.announcements := by
  induction h with
  | nil => rw [List.countP_nil, Nat.zero_add]
  | @cons s s₁ s₂ a as hstep _ ih =>
      have hfirst := hstep.permit
      have hcount : (a :: as).countP SupervisorAct.isKick =
          as.countP SupervisorAct.isKick + a.isKick.toNat := by
        rw [List.countP_cons]
        cases a.isKick <;> rfl
      omega

theorem keepsWakeups_start : Supervisor.start.KeepsWakeups := by
  refine ⟨rfl, fun t ht hne => ?_, Nat.le_refl _⟩
  cases ht
  exact absurd rfl hne

/-- In every run, the balance task is woken at most once for each report near
the tip, and a wake-up that was sent since it last woke is not lost: the permit
is there, and the task can take it as soon as it waits. -/
theorem balance_wakeups_kept {as : List SupervisorAct} {s : Supervisor}
    (h : SupervisorRuns as s) :
    as.countP SupervisorAct.isKick ≤
        s.published.countP (· ≤ balanceSyncLagThreshold) ∧
      ∀ t, s.tasks[0]? = some t → t.woke.announcements ≠ s.announcements →
        s.kick = true ∧ (t.phase = .waiting →
          ∃ s', supervisorStep s (.task 0 .kick) = some s') := by
  have hkeeps : s.KeepsWakeups :=
    h.invariant (fun _ _ hs hmove => hmove.keepsWakeups hs) keepsWakeups_start
  refine ⟨?_, fun t ht hne => ?_⟩
  · have hle := kicks_le_announcements h
    have hstart : Supervisor.start.kick.toNat = 0 := rfl
    have hearned := hkeeps.earned
    omega
  · have hkick := hkeeps.pending t ht hne
    refine ⟨hkick, fun hphase => Option.isSome_iff_exists.mp ?_⟩
    have hkicked : t.job.kicked = true := hkeeps.kicked ht
    simp [supervisorStep, ht, taskStep, hphase, hkicked, hkick]

/-- Two blocks are written, and the balance task comes to it late. -/
def announced : List SupervisorAct :=
  [.tick, .sync (.projected 9 ⟨2, 9, none⟩), .finish, .publish, .announce]

theorem balance_wakeups_kept_once :
    ∃ s, SupervisorRuns announced s ∧
      ∃ s', supervisorStep s (.task 0 .kick) = some s' := by
  have hruns : SupervisorRuns announced _ := steps_of_runSteps
    (show runSteps supervisorStep .start announced = some _ from rfl)
  obtain ⟨-, hkept⟩ := balance_wakeups_kept hruns
  exact ⟨_, hruns, (hkept _ rfl (Nat.succ_ne_zero 0).symm).2 rfl⟩

/-! ## The end -/

/-- The signal is not anticipated, and the loop does not leave a task. -/
structure Supervisor.Stops (s : Supervisor) : Prop where
  told : s.shutdown = false →
    s.loopPhase.isLeaving = false ∧ ∀ t ∈ s.tasks, t.phase ≠ .ended
  joined : s.loopPhase = .returned → ∀ t ∈ s.tasks, t.phase.isOver = true
  count : s.tasks.length = maintenanceJobs.length

theorem TaskMove.told {s : Supervisor} {t t' : MaintenanceTask} {kick : Bool}
    (h : TaskMove s t kick t') (hshutdown : s.shutdown = false) :
    t'.phase ≠ .ended := by
  cases h with
  | ticked | kicked | idle | near | began | spared | next | panicked =>
      intro h
      cases h
  | stopped hsignal =>
      rw [hshutdown] at hsignal
      cases hsignal

end Explorer.Ref
