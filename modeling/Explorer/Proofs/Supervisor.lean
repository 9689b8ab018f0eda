import Explorer.Lib.Steps
import Explorer.Proofs.ReliefMode
import Explorer.Ref.Supervisor

/-!
# The block loop keeps its pace

What a step of the loops can do is said once, in `SupervisorMove`. Of the block
loop it follows, on every interleaving with the maintenance tasks, that a sync
pass begins no earlier than the backoff that the pass before it earned. The
backoff is read off the passes so far: how many of them failed in a row, and
how many stalled on one height in a row. That the loop computes it from its own
two counters is the invariant `Supervisor.Tracks`.
-/

namespace Explorer.Ref

open Explorer.Lib

/-! ## What a step can do -/

/-- What a task's step leaves of the wake-up and of the task. -/
inductive TaskMove (s : Supervisor) (t : MaintenanceTask) :
    Bool → MaintenanceTask → Prop
  | ticked : t.phase = .waiting → TaskMove s t s.kick (t.wake s)
  | kicked : t.phase = .waiting → t.job.kicked = true → s.kick = true →
      TaskMove s t false (t.wake s)
  | idle : (t.phase = .readingLag ∨ t.phase = .readingRelief ∨
        t.phase = .passing 0) →
      TaskMove s t s.kick { t with phase := .waiting }
  | near : t.phase = .readingLag → s.lag ≤ balanceSyncLagThreshold →
      TaskMove s t s.kick { t with phase := .readingRelief }
  | began : t.phase = .readingLag → s.lag ≤ balanceSyncLagThreshold →
      t.job.sparesNode = false →
      TaskMove s t s.kick { t with phase := .passing t.job.furtherPasses }
  | spared : t.phase = .readingRelief → s.relief.active = false →
      TaskMove s t s.kick { t with phase := .passing t.job.furtherPasses }
  | next {further : Nat} : t.phase = .passing (further + 1) →
      TaskMove s t s.kick { t with phase := .passing further }
  | panicked {further : Nat} : t.phase = .passing further →
      TaskMove s t s.kick { t with phase := .panicked }
  | stopped : s.shutdown = true →
      (t.phase = .waiting ∨ ∃ further, t.phase = .passing further) →
      TaskMove s t s.kick { t with phase := .ended }

theorem taskStep_moves {s s' : Supervisor} {t t' : MaintenanceTask}
    {a : TaskAct} (h : taskStep s t a = some (s', t')) :
    s' = { s with kick := s'.kick } ∧ TaskMove s t s'.kick t' := by
  cases a with
  | tick =>
      simp only [taskStep] at h
      split at h
      · next hphase =>
          cases h
          exact ⟨rfl, .ticked hphase⟩
      · cases h
  | kick =>
      simp only [taskStep] at h
      split at h
      · next hphase =>
          split at h
          · next hkick =>
              cases h
              rw [Bool.and_eq_true] at hkick
              exact ⟨rfl, .kicked hphase hkick.1 hkick.2⟩
          · cases h
      · cases h
  | readLag =>
      simp only [taskStep] at h
      split at h
      · next hphase =>
          split at h
          · cases h
            exact ⟨rfl, .idle (.inl hphase)⟩
          · next hlag =>
              have hlag := Nat.le_of_not_lt hlag
              split at h
              · cases h
                exact ⟨rfl, .near hphase hlag⟩
              · next hspares =>
                  cases h
                  exact ⟨rfl, .began hphase hlag
                    (Bool.eq_false_iff.mpr hspares)⟩
      · cases h
  | readRelief =>
      simp only [taskStep] at h
      split at h
      · next hphase =>
          split at h
          · cases h
            exact ⟨rfl, .idle (.inr (.inl hphase))⟩
          · next hactive =>
              cases h
              exact ⟨rfl, .spared hphase (Bool.eq_false_iff.mpr hactive)⟩
      · cases h
  | passEnds =>
      simp only [taskStep] at h
      split at h
      · next hphase =>
          cases h
          exact ⟨rfl, .idle (.inr (.inr hphase))⟩
      · next hphase =>
          cases h
          exact ⟨rfl, .next hphase⟩
      · cases h
  | panics =>
      simp only [taskStep] at h
      split at h
      · next hphase =>
          cases h
          exact ⟨rfl, .panicked hphase⟩
      · cases h
  | stop =>
      simp only [taskStep] at h
      split at h
      · next hphase =>
          split at h
          · next hshutdown =>
              cases h
              exact ⟨rfl, .stopped hshutdown (.inl hphase)⟩
          · cases h
      · next hphase =>
          split at h
          · next hshutdown =>
              cases h
              exact ⟨rfl, .stopped hshutdown (.inr ⟨_, hphase⟩)⟩
          · cases h
      · cases h

/-- The cases of a step. -/
inductive SupervisorMove (s : Supervisor) : Supervisor → Prop
  | clock (milliseconds : Nat) :
      SupervisorMove s { s with now := s.now + milliseconds }
  | signal : SupervisorMove s { s with shutdown := true }
  | tick : s.loopPhase = .ticking →
      SupervisorMove s { s with loopPhase := .syncing s.now }
  | sync {started : Nat} (syncEnd : SyncEnd) :
      s.loopPhase = .syncing started →
      SupervisorMove s { s with
        relief := s.relief.book syncEnd
        loopPhase := .delaying started syncEnd
        reliefCalls := s.reliefCalls ++ syncEnd.reliefCall.toList }
  | finish {started : Nat} {syncEnd : SyncEnd} :
      s.loopPhase = .delaying started syncEnd →
      SupervisorMove s (s.handle started syncEnd)
  | resume {deadline : Nat} {report : Option SyncBatchReport} :
      s.loopPhase = .waiting deadline report → deadline ≤ s.now →
      SupervisorMove s { s with
        loopPhase := LoopPhase.afterWait s.now 0 report }
  | publish {report : SyncBatchReport} : s.loopPhase = .publishing report →
      SupervisorMove s { s with
        lag := report.currentLag
        loopPhase := .announcing report
        published := s.published ++ [report.currentLag] }
  | announce {report : SyncBatchReport} : s.loopPhase = .announcing report →
      report.currentLag ≤ balanceSyncLagThreshold →
      SupervisorMove s { s with
        kick := true
        loopPhase := .ticking
        announcements := s.announcements + 1 }
  | quiet {report : SyncBatchReport} : s.loopPhase = .announcing report →
      SupervisorMove s { s with loopPhase := .ticking }
  | stop : s.loopPhase.listens = true → s.shutdown = true →
      SupervisorMove s { s with loopPhase := .joining }
  | join : s.loopPhase = .joining →
      (∀ t ∈ s.tasks, t.phase.isOver = true) →
      SupervisorMove s { s with loopPhase := .returned }
  | task {i : Nat} {t t' : MaintenanceTask} {kick : Bool} :
      s.tasks[i]? = some t → TaskMove s t kick t' →
      SupervisorMove s { s with
        kick := kick
        tasks := s.tasks.set i t' }

theorem supervisorStep_moves {s s' : Supervisor} {a : SupervisorAct}
    (h : supervisorStep s a = some s') :
    SupervisorMove s s' := by
  cases a with
  | clock milliseconds =>
      cases h
      exact .clock milliseconds
  | signal =>
      cases h
      exact .signal
  | tick =>
      simp only [supervisorStep] at h
      split at h
      · next hphase =>
          cases h
          exact .tick hphase
      · cases h
  | sync syncEnd =>
      simp only [supervisorStep] at h
      split at h
      · next hphase =>
          cases h
          exact .sync syncEnd hphase
      · cases h
  | finish =>
      simp only [supervisorStep] at h
      split at h
      · next hphase =>
          cases h
          exact .finish hphase
      · cases h
  | resume =>
      simp only [supervisorStep] at h
      split at h
      · next hphase =>
          split at h
          · next hover =>
              cases h
              exact .resume hphase hover
          · cases h
      · cases h
  | publish =>
      simp only [supervisorStep] at h
      split at h
      · next hphase =>
          cases h
          exact .publish hphase
      · cases h
  | announce =>
      simp only [supervisorStep] at h
      split at h
      · next hphase =>
          split at h
          · next hnear =>
              cases h
              exact .announce hphase hnear.1
          · cases h
            exact .quiet hphase
      · cases h
  | stop =>
      simp only [supervisorStep] at h
      split at h
      · next hboth =>
          cases h
          rw [Bool.and_eq_true] at hboth
          exact .stop hboth.1 hboth.2
      · cases h
  | join =>
      simp only [supervisorStep] at h
      split at h
      · next hphase =>
          split at h
          · next hall =>
              cases h
              exact .join hphase (List.all_eq_true.mp hall)
          · cases h
      · cases h
  | task i act =>
      simp only [supervisorStep] at h
      obtain ⟨t, ht, h⟩ := Option.bind_eq_some_iff.mp h
      obtain ⟨⟨s₁, t'⟩, hstep, rfl⟩ := Option.map_eq_some_iff.mp h
      obtain ⟨hs₁, hmove⟩ := taskStep_moves hstep
      rw [hs₁]
      exact .task ht hmove

/-- The runs of the loops from their start. -/
abbrev SupervisorRuns (as : List SupervisorAct) (s : Supervisor) : Prop :=
  Steps SupervisorMoves .start as s

theorem SupervisorRuns.invariant {I : Supervisor → Prop}
    (hstep : ∀ s s', I s → SupervisorMove s s' → I s')
    {as : List SupervisorAct} {s : Supervisor}
    (h : SupervisorRuns as s) (hstart : I .start) : I s :=
  Steps.invariant (fun s _ s' hs h => hstep s s' hs (supervisorStep_moves h))
    h hstart

/-! ## The backoffs that the passes earn -/

/-- The pass ended in an error. -/
def SyncEnd.fails (e : SyncEnd) : Bool :=
  match e.result with
  | .error _ => true
  | .ok _ => false

/-- The failures that end the history. -/
def failuresInARow (ends : List SyncEnd) : Nat :=
  (ends.reverse.takeWhile SyncEnd.fails).length

/-- The stalls on one height that end the history. -/
def stalledInARow (ends : List SyncEnd) : Nat :=
  stallsInARow (ends.filterMap SyncEnd.reliefCall)

/-- The backoff after these passes. -/
def waitAfter (ends : List SyncEnd) : Nat :=
  match ends.getLast? with
  | none => 0
  | some last =>
      match last.result with
      | .ok report =>
          if report.stalledHeight.isSome then
            reliefStallBackoff (stalledInARow ends)
          else 0
      | .error error =>
          failedPassBackoff (failuresInARow ends) (stalledInARow ends)
            (isDatabaseFailure error)

theorem failuresInARow_snoc (ends : List SyncEnd) (e : SyncEnd) :
    failuresInARow (ends ++ [e]) =
      if e.fails then failuresInARow ends + 1 else 0 := by
  rw [failuresInARow, List.reverse_append, List.reverse_singleton,
    List.singleton_append, List.takeWhile_cons]
  cases e.fails <;> rfl

theorem waitAfter_snoc (ends : List SyncEnd) (e : SyncEnd) :
    waitAfter (ends ++ [e]) = match e.result with
      | .ok report =>
          if report.stalledHeight.isSome then
            reliefStallBackoff (stalledInARow (ends ++ [e]))
          else 0
      | .error error =>
          failedPassBackoff (failuresInARow (ends ++ [e]))
            (stalledInARow (ends ++ [e])) (isDatabaseFailure error) := by
  unfold waitAfter
  rw [List.getLast?_concat]

/-- Saturating the count of failures does not shorten a wait. -/
theorem failedPassBackoff_saturated (failures stallCount : Nat)
    (databaseFailure : Bool) :
    failedPassBackoff (min failures u32Max) stallCount databaseFailure =
      failedPassBackoff failures stallCount databaseFailure := by
  have hsix : min (min failures u32Max) 6 = min failures 6 := by
    simp only [u32Max]
    omega
  rw [failedPassBackoff, hsix]
  rfl

theorem satAdd32_saturated (n : Nat) :
    satAdd32 (min n u32Max) 1 = min (n + 1) u32Max := by
  simp only [satAdd32]
  omega

theorem book_reliefAfter (calls : List ReliefCall) (e : SyncEnd) :
    (reliefAfter calls).book e =
      reliefAfter (calls ++ e.reliefCall.toList) := by
  unfold RpcReliefState.book
  cases e.reliefCall with
  | none => rw [Option.toList_none, List.append_nil]
  | some call => rw [Option.toList_some, reliefAfter_snoc]

theorem stallCount_of_few {ends : List SyncEnd} (hfew : ends.length < 2 ^ 32) :
    (reliefAfter (ends.filterMap SyncEnd.reliefCall)).stallCount =
      stalledInARow ends := by
  refine (reliefTracks _ ?_).count
  have hle := List.countP_le_length (p := ReliefCall.isStall)
    (l := ends.filterMap SyncEnd.reliefCall)
  have := List.length_filterMap_le SyncEnd.reliefCall ends
  omega

/-- The pass that has been booked and not handled. -/
def LoopPhase.booked : LoopPhase → List SyncEnd
  | .delaying _ e => [e]
  | _ => []

/-- The loop has left for good. -/
def LoopPhase.isLeaving : LoopPhase → Bool
  | .joining | .returned => true
  | _ => false

def Supervisor.ends (s : Supervisor) : List SyncEnd :=
  s.passes.map SyncPass.syncEnd

/-- When the pass that is under way began. -/
def LoopPhase.started : LoopPhase → Option Nat
  | .syncing started | .delaying started _ => some started
  | _ => none

/-- The earliest time at which the loop can be back at its ticker. -/
def LoopPhase.free (now : Nat) : LoopPhase → Nat
  | .waiting deadline _ => max now deadline
  | _ => now

/-- What the loop's variables say of the passes so far. -/
structure Supervisor.Tracks (s : Supervisor) : Prop where
  relief : s.relief = reliefAfter s.reliefCalls
  calls : s.loopPhase.isLeaving = false → s.reliefCalls =
    (s.ends ++ s.loopPhase.booked).filterMap SyncEnd.reliefCall
  failures : s.consecutiveSyncFailures = min (failuresInARow s.ends) u32Max

theorem Supervisor.handle_spec (s : Supervisor) (started : Nat)
    (e : SyncEnd) :
    ∃ wait report, s.handle started e = { s with
        consecutiveSyncFailures :=
          if e.fails then satAdd32 s.consecutiveSyncFailures 1 else 0
        loopPhase := LoopPhase.afterWait s.now wait report
        passes := s.passes ++ [⟨started, s.now, e, wait⟩] } ∧
      wait = match e.result with
        | .ok report =>
            if report.stalledHeight.isSome then
              reliefStallBackoff s.relief.stallCount
            else 0
        | .error error =>
            failedPassBackoff (satAdd32 s.consecutiveSyncFailures 1)
              s.relief.stallCount (isDatabaseFailure error) := by
  unfold handle SyncEnd.fails
  cases e.result with
  | ok report => exact ⟨_, some report, rfl, rfl⟩
  | error error => exact ⟨_, none, rfl, rfl⟩

theorem afterWait_cases (now wait : Nat) (report : Option SyncBatchReport) :
    LoopPhase.afterWait now wait report = .waiting (now + wait) report ∨
      wait = 0 ∧ (LoopPhase.afterWait now wait report = .ticking ∨
        ∃ r, LoopPhase.afterWait now wait report = .publishing r) := by
  unfold LoopPhase.afterWait
  split
  · next hzero =>
      cases report with
      | none => exact .inr ⟨hzero, .inl rfl⟩
      | some report => exact .inr ⟨hzero, .inr ⟨report, rfl⟩⟩
  · exact .inl rfl

theorem afterWait_quiet (now wait : Nat) (report : Option SyncBatchReport) :
    (LoopPhase.afterWait now wait report).booked = [] ∧
      (LoopPhase.afterWait now wait report).isLeaving = false ∧
      (LoopPhase.afterWait now wait report).started = none := by
  rcases afterWait_cases now wait report with h | ⟨-, h | ⟨_, h⟩⟩ <;>
    rw [h] <;> exact ⟨rfl, rfl, rfl⟩

theorem SupervisorMove.tracks {s s' : Supervisor}
    (h : SupervisorMove s s') (hs : s.Tracks) : s'.Tracks := by
  cases h with
  | clock | signal | task => exact ⟨hs.relief, hs.calls, hs.failures⟩
  | tick hphase | publish hphase | announce hphase | quiet hphase =>
      refine ⟨hs.relief, fun _ => ?_, hs.failures⟩
      have hcalls := hs.calls
      rw [hphase] at hcalls
      exact hcalls rfl
  | @sync started e hphase =>
      refine ⟨?_, fun _ => ?_, hs.failures⟩
      · show s.relief.book e = _
        rw [hs.relief, book_reliefAfter]
      · have hcalls := hs.calls
        rw [hphase] at hcalls
        have hcalls : s.reliefCalls = s.ends.filterMap SyncEnd.reliefCall := by
          rw [hcalls rfl]
          exact congrArg _ (List.append_nil _)
        show s.reliefCalls ++ e.reliefCall.toList =
          (s.ends ++ [e]).filterMap SyncEnd.reliefCall
        rw [hcalls, List.filterMap_append, List.filterMap_cons]
        cases e.reliefCall <;> rfl
  | @finish started e hphase =>
      obtain ⟨wait, report, heq, -⟩ := s.handle_spec started e
      rw [heq]
      refine ⟨hs.relief, fun _ => ?_, ?_⟩
      · have hcalls := hs.calls
        rw [hphase] at hcalls
        have hends : Supervisor.ends { s with
            consecutiveSyncFailures :=
              if e.fails then satAdd32 s.consecutiveSyncFailures 1 else 0
            loopPhase := LoopPhase.afterWait s.now wait report
            passes := s.passes ++ [(⟨started, s.now, e, wait⟩ : SyncPass)] } =
              s.ends ++ [e] := List.map_append
        rw [hends]
        show s.reliefCalls = (s.ends ++ [e] ++
          (LoopPhase.afterWait s.now wait report).booked).filterMap _
        rw [(afterWait_quiet s.now wait report).1, List.append_nil]
        exact hcalls rfl
      · show (if e.fails then satAdd32 s.consecutiveSyncFailures 1 else 0) =
          min (failuresInARow ((s.passes ++ [(⟨started, s.now, e, wait⟩ :
            SyncPass)]).map SyncPass.syncEnd)) u32Max
        rw [List.map_append, List.map_singleton, failuresInARow_snoc,
          hs.failures]
        cases e.fails with
        | true => exact satAdd32_saturated _
        | false => rfl
  | @resume deadline report hphase hover =>
      refine ⟨hs.relief, fun _ => ?_, hs.failures⟩
      have hcalls := hs.calls
      rw [hphase] at hcalls
      show s.reliefCalls = (s.ends ++
        (LoopPhase.afterWait s.now 0 report).booked).filterMap _
      rw [(afterWait_quiet s.now 0 report).1]
      exact hcalls rfl
  | stop | join =>
      exact ⟨hs.relief, (fun h => nomatch h), hs.failures⟩

/-- The wait that the loop computes is the one that the passes have earned. -/
theorem Supervisor.Tracks.wait {s : Supervisor} (hs : s.Tracks)
    {started : Nat} {e : SyncEnd} (hphase : s.loopPhase = .delaying started e)
    (hfew : (s.ends ++ [e]).length < 2 ^ 32) :
    (match e.result with
      | .ok report =>
          if report.stalledHeight.isSome then
            reliefStallBackoff s.relief.stallCount
          else 0
      | .error error =>
          failedPassBackoff (satAdd32 s.consecutiveSyncFailures 1)
            s.relief.stallCount (isDatabaseFailure error)) =
      waitAfter (s.ends ++ [e]) := by
  have hcalls := hs.calls
  rw [hphase] at hcalls
  have hstalls : s.relief.stallCount = stalledInARow (s.ends ++ [e]) := by
    rw [hs.relief, hcalls rfl]
    exact stallCount_of_few hfew
  rw [waitAfter_snoc, hstalls]
  cases hresult : e.result with
  | ok report => rfl
  | error error =>
      have hfails : e.fails = true := by
        rw [SyncEnd.fails, hresult]
      show failedPassBackoff _ _ _ = failedPassBackoff _ _ _
      rw [hs.failures, satAdd32_saturated, failuresInARow_snoc, if_pos hfails,
        failedPassBackoff_saturated]

/-! ## The pace of the passes -/

/-- The backoff of the pass was over. -/
def SyncPass.Before (p : SyncPass) (started : Nat) : Prop :=
  p.ended + p.wait ≤ started

/-- Where the loop stands it has waited out the last backoff, or is in it. -/
def LoopPhase.After (phase : LoopPhase) (now : Nat) (p : SyncPass) : Prop :=
  match phase with
  | .syncing started | .delaying started _ => p.Before started
  | .waiting deadline _ => p.Before deadline
  | .joining | .returned => True
  | _ => p.Before now

structure Supervisor.Paced (s : Supervisor) : Prop where
  chain : s.passes.IsChain fun p q => p.Before q.started
  last : ∀ p, s.passes.getLast? = some p → s.loopPhase.After s.now p
  waits : s.passes.length < 2 ^ 32 → ∀ n p, s.passes[n]? = some p →
    p.wait = waitAfter (s.ends.take (n + 1))

theorem LoopPhase.After.later {phase : LoopPhase} {now later : Nat}
    {p : SyncPass} (h : phase.After now p) (hle : now ≤ later) :
    phase.After later p := by
  unfold LoopPhase.After at h ⊢
  split at h
  · exact h
  · exact h
  · exact h
  · trivial
  · trivial
  · exact Nat.le_trans h hle

theorem afterWait_after {now wait : Nat} {report : Option SyncBatchReport}
    {p : SyncPass} (h : p.Before (now + wait)) :
    (LoopPhase.afterWait now wait report).After now p := by
  rcases afterWait_cases now wait report with hp | ⟨hzero, hp | ⟨r, hp⟩⟩ <;>
    rw [hp]
  · exact h
  · rw [hzero] at h
    exact h
  · rw [hzero] at h
    exact h

/-- A pass that is handled is given the wait it has earned. -/
theorem Supervisor.Paced.waits_snoc {s : Supervisor} (hs : s.Paced)
    {p : SyncPass}
    (hwait : s.passes.length + 1 < 2 ^ 32 →
      p.wait = waitAfter (s.ends ++ [p.syncEnd]))
    (hfew : (s.passes ++ [p]).length < 2 ^ 32) (n : Nat) (q : SyncPass)
    (hq : (s.passes ++ [p])[n]? = some q) :
    q.wait =
      waitAfter (((s.passes ++ [p]).map SyncPass.syncEnd).take (n + 1)) := by
  rw [List.length_append, List.length_singleton] at hfew
  rw [List.map_append, List.map_singleton]
  have hends : s.ends.length = s.passes.length := List.length_map _
  rcases Nat.lt_or_ge n s.passes.length with hlt | hge
  · rw [List.getElem?_append_left hlt] at hq
    rw [List.take_append_of_le_length (hends ▸ hlt)]
    exact hs.waits (by omega) n q hq
  · rw [List.getElem?_append_right hge, List.getElem?_singleton] at hq
    split at hq
    · cases hq
      rw [List.take_of_length_le (by
        rw [List.length_append, List.length_map, List.length_singleton]
        omega)]
      exact hwait hfew
    · cases hq

theorem SupervisorMove.paced {s s' : Supervisor} (h : SupervisorMove s s')
    (ht : s.Tracks) (hs : s.Paced) : s'.Paced := by
  cases h with
  | clock n =>
      exact ⟨hs.chain,
        fun p hp => (hs.last p hp).later (Nat.le_add_right _ _), hs.waits⟩
  | signal | task => exact ⟨hs.chain, hs.last, hs.waits⟩
  | tick hphase | sync _ hphase | publish hphase | announce hphase
  | quiet hphase =>
      have hlast := hs.last
      rw [hphase] at hlast
      exact ⟨hs.chain, hlast, hs.waits⟩
  | @finish started e hphase =>
      obtain ⟨wait, report, heq, hwait⟩ := s.handle_spec started e
      have hlast := hs.last
      rw [hphase] at hlast
      rw [heq]
      refine ⟨?_, fun p hp => ?_, hs.waits_snoc fun hfew => ?_⟩
      · refine List.isChain_append.mpr
          ⟨hs.chain, List.isChain_singleton _, fun p hp q hq => ?_⟩
        cases hq
        exact hlast p hp
      · have hp : (s.passes ++ [(⟨started, s.now, e, wait⟩ :
            SyncPass)]).getLast? = some p := hp
        rw [List.getLast?_concat] at hp
        cases hp
        exact afterWait_after (Nat.le_refl _)
      · show wait = _
        rw [hwait]
        refine ht.wait hphase ?_
        rw [List.length_append, List.length_singleton, Supervisor.ends,
          List.length_map]
        exact hfew
  | @resume deadline report hphase hover =>
      have hlast := hs.last
      rw [hphase] at hlast
      refine ⟨hs.chain, fun p hp => ?_, hs.waits⟩
      have hbefore : p.Before (s.now + 0) := Nat.le_trans (hlast p hp) hover
      exact afterWait_after hbefore
  | stop | join => exact ⟨hs.chain, fun _ _ => trivial, hs.waits⟩

theorem tracks_start : Supervisor.start.Tracks :=
  ⟨rfl, fun _ => rfl, rfl⟩

theorem paced_start : Supervisor.start.Paced :=
  ⟨List.isChain_nil, (fun _ h => nomatch h), fun _ _ _ h => nomatch h⟩

theorem SupervisorRuns.paced {as : List SupervisorAct} {s : Supervisor}
    (h : SupervisorRuns as s) : s.Tracks ∧ s.Paced :=
  h.invariant (I := fun s => s.Tracks ∧ s.Paced)
    (fun _ _ hs hmove => ⟨hmove.tracks hs.1, hmove.paced hs.1 hs.2⟩)
    ⟨tracks_start, paced_start⟩

/-- In every run, each sync pass begins after the backoff of the pass before
it, and that is the one that the passes up to then have earned: five seconds
more with each failure in a row, up to thirty; and, but for failures of the
database, thirty seconds that double with each stall on one height in a row, up
to five minutes. -/
theorem sync_passes_keep_pace {as : List SupervisorAct} {s : Supervisor}
    (h : SupervisorRuns as s) :
    (s.passes.IsChain fun p q => p.ended + p.wait ≤ q.started) ∧
      (∀ p started, s.passes.getLast? = some p →
        s.loopPhase.started = some started → p.ended + p.wait ≤ started) ∧
      (s.passes.length < 2 ^ 32 → ∀ n p, s.passes[n]? = some p →
        p.wait = waitAfter ((s.passes.map SyncPass.syncEnd).take (n + 1))) := by
  obtain ⟨-, hpaced⟩ := h.paced
  refine ⟨hpaced.chain, fun p started hp hstarted => ?_, hpaced.waits⟩
  have hafter := hpaced.last p hp
  unfold LoopPhase.started at hstarted
  split at hstarted
  · next hphase =>
      rw [hphase] at hafter
      cases hstarted
      exact hafter
  · next hphase =>
      rw [hphase] at hafter
      cases hstarted
      exact hafter
  · cases hstarted

/-- A stall on height eight, and then a failure of the node. -/
def stalledThenRefused : List SupervisorAct :=
  [.tick, .sync (.projected 9 ⟨2, 7, some 8⟩), .finish, .clock 30000, .resume,
    .publish, .announce, .tick, .sync (.failed 8 .fetchTask), .finish,
    .clock 60000, .resume, .tick]

theorem sync_passes_keep_pace_two :
    ∃ s, SupervisorRuns stalledThenRefused s ∧
      s.passes.map SyncPass.wait = [30000, 60000] ∧
      ∀ p, s.passes.getLast? = some p → p.ended + p.wait ≤ 90000 := by
  have hend : ((runSteps supervisorStep .start stalledThenRefused).map
      fun s => (s.passes.map SyncPass.wait, s.loopPhase.started)) =
      some ([30000, 60000], some 90000) := by decide +kernel
  obtain ⟨s, hs, heq⟩ := Option.map_eq_some_iff.mp hend
  have hruns : SupervisorRuns stalledThenRefused s := steps_of_runSteps hs
  exact ⟨s, hruns, congrArg Prod.fst heq, fun p hp =>
    (sync_passes_keep_pace hruns).2.1 p 90000 hp (congrArg Prod.snd heq)⟩

end Explorer.Ref
