import Explorer.Lib.Steps
import Explorer.Ref.Pipeline

/-!
# The pipelined window is safe and returns

Fetches end in any order, a failure may be replaced by a lower one, aborted
tasks may still deliver, and the loop decides when to leave from three
variables that different inner loops change. What rules out a gap, a lost
block or a wrong stall height is one invariant in two halves.

`Counters` is about the writer: what has been committed is the contiguous
run of heights from the start of the window, and the reader is never further
ahead than the bound. `Fetches` is about everything between the writer and
the reader: each such height is still a task, or is ready, or lies at or
above the lowest failed fetch. So when nothing is ready at the writer's
height and no task is left, the writer stands exactly at the failed height,
or at the end of what was spawned.

`PipelineMove` lists what one step can do; the invariant is kept by each of
its cases. The measure of the last section counts a height twice until it is
spawned, once while it is a task and once until it is written, and breaks
ties by how far the loop body is from its end. It falls with every step, so
every interleaving returns.
-/

namespace Explorer.Ref

open Explorer.Lib

variable {β : Type}

/-- The error a height raises, at its fetch or at its write. -/
def Outcomes.failure (o : Outcomes β) (height : Nat) :
    Option IngestionError :=
  match o.fetch height with
  | .error e => some e
  | .ok _ => o.write height

/-- How the fetch and the write of each height may end. -/
structure Ends (β : Type) where
  fetch : Nat → Except IngestionError β → Prop
  write : Nat → Option IngestionError → Prop

/-- The height may raise the error, at its fetch or at its write. -/
def Ends.Fails (ends : Ends β) (height : Nat) (e : IngestionError) : Prop :=
  ends.fetch height (.error e) ∨
    ∃ b, ends.fetch height (.ok b) ∧ ends.write height (some e)

/-- The action is one of those that may happen. -/
def Ends.Allow (ends : Ends β) (p : Pipeline β) : PipelineAct β → Prop
  | .joined height (.fetched block) => ends.fetch height (.ok block)
  | .joined height (.failed error) => ends.fetch height (.error error)
  | .joined _ .panicked => False
  | .wrote (.ok advanced) => ends.write p.nextToWrite none ∧
      advanced = max p.cursorHeightAfter p.nextToWrite
  | .wrote (.error e) => ends.write p.nextToWrite (some e)
  | _ => True

/-- Fixed outcomes leave each height one end. -/
def Outcomes.ends (o : Outcomes β) : Ends β where
  fetch := fun h r => o.fetch h = r
  write := fun h r => o.write h = r

theorem Outcomes.Allow.ends {o : Outcomes β} {p : Pipeline β}
    {a : PipelineAct β} (h : o.Allow p a) : o.ends.Allow p a := by
  cases a with
  | tick => trivial
  | joined height r => cases r <;> exact h
  | nothingFinished => trivial
  | wrote r =>
      simp only [Outcomes.Allow] at h
      cases hw : o.write p.nextToWrite with
      | none =>
          rw [hw] at h
          subst h
          exact ⟨hw, rfl⟩
      | some e =>
          rw [hw] at h
          subst h
          exact hw

theorem Outcomes.failure_of_fails {o : Outcomes β} {height : Nat}
    {e : IngestionError} (h : o.ends.Fails height e) :
    o.failure height = some e := by
  unfold Outcomes.failure
  rcases h with h | ⟨b, hfetch, hwrite⟩
  · have h : o.fetch height = .error e := h
    rw [h]
  · have hfetch : o.fetch height = .ok b := hfetch
    rw [hfetch]
    exact hwrite

/-! ## What a step can do -/

/-- Where a join leads: back into the harvest, or out of the wait. -/
def Pipeline.Resumes (p : Pipeline β) (next : Phase) : Prop :=
  p.phase = .harvest ∧ next = .harvest ∨ p.phase = .await ∧ next = .topUp

/-- The cases of a step under fixed outcomes. -/
inductive PipelineMove (w : FetchWindow) (queueCapacity : Nat)
    (ends : Ends β) (p : Pipeline β) : Pipeline β → Prop
  | spawn : p.phase = .topUp → p.canSpawn w queueCapacity →
      PipelineMove w queueCapacity ends p p.spawn
  | filled : p.phase = .topUp → ¬ p.canSpawn w queueCapacity →
      PipelineMove w queueCapacity ends p { p with phase := .harvest }
  | cancelled {next : Phase} {h : Nat} : p.Resumes next →
      ⟨h, true⟩ ∈ p.tasks →
      PipelineMove w queueCapacity ends p { p.leave h with phase := next }
  | fetched {next : Phase} {h : Nat} {b : β} : p.Resumes next →
      (∃ t ∈ p.tasks, t.height = h) → ends.fetch h (.ok b) →
      PipelineMove w queueCapacity ends p
        { p.leave h with
          inFlight := p.inFlight.erase h
          ready := p.ready.insert h b
          phase := next }
  | failed {next : Phase} {h : Nat} {e : IngestionError} : p.Resumes next →
      (∃ t ∈ p.tasks, t.height = h) → ends.fetch h (.error e) →
      p.supersedes h →
      PipelineMove w queueCapacity ends p
        { p.leave h with
          tasks := (p.leave h).tasks.map fun t =>
            if t.height ∈ p.inFlight.erase h ∧ h ≤ t.height then
              { t with aborted := true }
            else t
          inFlight := (p.inFlight.erase h).filter (· < h)
          fetchError := some (h, e)
          phase := next }
  | failedAbove {next : Phase} {h : Nat} {e : IngestionError} :
      p.Resumes next → (∃ t ∈ p.tasks, t.height = h) →
      ends.fetch h (.error e) → ¬ p.supersedes h →
      PipelineMove w queueCapacity ends p
        { p.leave h with
          inFlight := p.inFlight.erase h
          phase := next }
  | drained : p.phase = .harvest →
      PipelineMove w queueCapacity ends p { p with phase := .write }
  | committed {b : β} : p.phase = .write →
      p.ready.lookup p.nextToWrite = some b → ends.write p.nextToWrite none →
      PipelineMove w queueCapacity ends p
        (p.commit b (max p.cursorHeightAfter p.nextToWrite))
  | writeFailed {b : β} {e : IngestionError} : p.phase = .write →
      p.ready.lookup p.nextToWrite = some b → ends.write p.nextToWrite (some e) →
      PipelineMove w queueCapacity ends p
        { p with
          ready := p.ready.erase p.nextToWrite
          phase := .returned (if keepsCommittedPrefix p.projectedBlocks e then
            .ok ⟨p.projectedBlocks, p.cursorHeightAfter, some p.nextToWrite⟩
            else .error e) }
  | blocked : p.phase = .write → p.ready.lookup p.nextToWrite = none →
      PipelineMove w queueCapacity ends p { p with phase := .exitCheck }
  | exit : p.phase = .exitCheck → p.exits w →
      PipelineMove w queueCapacity ends p
        { p with phase := .returned p.conclude }
  | stay : p.phase = .exitCheck → ¬ p.exits w →
      PipelineMove w queueCapacity ends p { p with phase := .await }
  | wake : p.phase = .await → p.tasks = [] →
      PipelineMove w queueCapacity ends p { p with phase := .topUp }

theorem join_move {w : FetchWindow} {queueCapacity : Nat} {ends : Ends β}
    {p p' : Pipeline β} {h : Nat} {r : Joined β} {next : Phase}
    (hnext : p.Resumes next) (hallow : ends.Allow p (.joined h r))
    (hjoin : p.join h r next = some p') :
    PipelineMove w queueCapacity ends p p' := by
  unfold Pipeline.join at hjoin
  split at hjoin
  · next hcan =>
      cases r with
      | cancelled =>
          cases hjoin
          exact .cancelled hnext hcan
      | panicked => exact absurd hallow id
      | fetched b =>
          cases hjoin
          exact .fetched hnext hcan hallow
      | failed e =>
          by_cases hs : p.supersedes h
          · have hs' : (p.leave h).supersedes h := hs
            simp only [Pipeline.recordFetched, if_pos hs'] at hjoin
            cases hjoin
            exact .failed hnext hcan hallow hs
          · have hs' : ¬ (p.leave h).supersedes h := hs
            simp only [Pipeline.recordFetched, if_neg hs'] at hjoin
            cases hjoin
            exact .failedAbove hnext hcan hallow hs
  · cases hjoin

theorem move_of_step {w : FetchWindow} {queueCapacity : Nat}
    {ends : Ends β} {p p' : Pipeline β} {a : PipelineAct β}
    (hallow : ends.Allow p a)
    (hstep : pipelineStep w queueCapacity p a = some p') :
    PipelineMove w queueCapacity ends p p' := by
  cases a with
  | tick =>
      simp only [pipelineStep] at hstep
      split at hstep
      · next hphase =>
          split at hstep
          · next hspawn => cases hstep; exact .spawn hphase hspawn
          · next hspawn => cases hstep; exact .filled hphase hspawn
      · next hphase =>
          split at hstep
          · next hready => cases hstep; exact .blocked hphase hready
          · cases hstep
      · next hphase =>
          split at hstep
          · next hexit => cases hstep; exact .exit hphase hexit
          · next hexit => cases hstep; exact .stay hphase hexit
      · next hphase =>
          split at hstep
          · next hempty => cases hstep; exact .wake hphase hempty
          · cases hstep
      · cases hstep
  | joined h r =>
      simp only [pipelineStep] at hstep
      split at hstep
      · next hphase => exact join_move (Or.inl ⟨hphase, rfl⟩) hallow hstep
      · next hphase => exact join_move (Or.inr ⟨hphase, rfl⟩) hallow hstep
      · cases hstep
  | nothingFinished =>
      simp only [pipelineStep] at hstep
      split at hstep
      · next hphase => cases hstep; exact .drained hphase
      · cases hstep
  | wrote r =>
      simp only [pipelineStep] at hstep
      split at hstep
      · next b hphase hready =>
          cases r with
          | ok advanced =>
              obtain ⟨hw, rfl⟩ := hallow
              cases hstep
              exact .committed hphase hready hw
          | error e =>
              have hmove : PipelineMove w queueCapacity ends p _ :=
                .writeFailed hphase hready hallow
              simp only at hstep
              split at hstep
              · next hkeep =>
                  cases hstep
                  rwa [if_pos hkeep] at hmove
              · next hkeep =>
                  cases hstep
                  rwa [if_neg hkeep] at hmove
      · cases hstep

theorem PipelineStep.move {w : FetchWindow} {queueCapacity : Nat}
    {o : Outcomes β} {p p' : Pipeline β} {a : PipelineAct β}
    (h : PipelineStep w queueCapacity o p a p') :
    PipelineMove w queueCapacity o.ends p p' :=
  move_of_step h.1.ends h.2

/-! ## The invariant -/

/-- The writer's side: the committed heights are the first ones of the
window, without a gap, and the reader keeps its distance. -/
structure Counters (w : FetchWindow) (queueCapacity : Nat) (ends : Ends β)
    (cursor spawn write projected after : Nat) (written : List (Nat × β)) :
    Prop where
  projected_eq : w.fromHeight + projected = write
  writeSpawn : write ≤ spawn
  spawnTo : spawn ≤ w.toHeight + 1
  readAhead : spawn ≤ write + w.maxReadAhead queueCapacity
  heights : written.map Prod.fst = List.range' w.fromHeight projected
  writtenOk : ∀ x ∈ written, ends.fetch x.1 (.ok x.2) ∧ ends.write x.1 none
  cursor_eq : after = if projected = 0 then cursor else max cursor (write - 1)

/-- The reader's side: where the heights between the writer (`lo`) and the
reader (`hi`) are. -/
structure Fetches (ends : Ends β) (slots lo hi : Nat)
    (tasks : List FetchTask) (inFlight : Finset Nat)
    (ready : Finmap fun _ : Nat => β)
    (failure : Option (Nat × IngestionError)) : Prop where
  slots_le : tasks.length ≤ slots
  distinct : (tasks.map FetchTask.height).Nodup
  taskRange : ∀ t ∈ tasks, lo ≤ t.height ∧ t.height < hi
  readyRange : ∀ h b, ready.lookup h = some b →
    lo ≤ h ∧ h < hi ∧ ends.fetch h (.ok b)
  taskNotReady : ∀ t ∈ tasks, ready.lookup t.height = none
  inFlight_iff : ∀ h, h ∈ inFlight ↔ ⟨h, false⟩ ∈ tasks
  abortedAbove : ∀ t ∈ tasks, t.aborted = true →
    ∃ f ∈ failure, f.1 < t.height
  failureRange : ∀ f ∈ failure,
    lo ≤ f.1 ∧ f.1 < hi ∧ ends.fetch f.1 (.error f.2)
  failureGone : ∀ f ∈ failure, (∀ t ∈ tasks, t.height ≠ f.1) ∧
    ready.lookup f.1 = none
  covered : ∀ h, lo ≤ h → h < hi → (∃ t ∈ tasks, t.height = h) ∨
    (ready.lookup h).isSome ∨ ∃ f ∈ failure, f.1 ≤ h

theorem fetches_start (ends : Ends β) (slots lo : Nat) :
    Fetches ends slots lo lo [] ∅ ∅ none where
  slots_le := Nat.zero_le _
  distinct := List.nodup_nil
  taskRange := by simp
  readyRange := by simp
  taskNotReady := by simp
  inFlight_iff := by simp
  abortedAbove := by simp
  failureRange := by simp
  failureGone := by simp
  covered := by
    intro h h1 h2
    omega

section Fetches

variable {ends : Ends β} {slots lo hi : Nat} {tasks : List FetchTask}
  {inFlight : Finset Nat} {ready : Finmap fun _ : Nat => β}
  {failure : Option (Nat × IngestionError)}

theorem Fetches.spawn (hf : Fetches ends slots lo hi tasks inFlight ready none)
    (hroom : tasks.length < slots) (hlo : lo ≤ hi) :
    Fetches ends slots lo (hi + 1) (tasks ++ [⟨hi, false⟩]) (insert hi inFlight)
      ready none := by
  have hnew : ready.lookup hi = none := by
    cases hr : ready.lookup hi with
    | none => rfl
    | some b => exact absurd (hf.readyRange hi b hr).2.1 (by omega)
  refine ⟨?_, ?_, ?_, ?_, ?_, ?_, ?_, ?_, ?_, ?_⟩
  · simp only [List.length_append, List.length_singleton]
    omega
  · rw [List.map_append, List.map_singleton, List.nodup_append]
    refine ⟨hf.distinct, List.nodup_singleton hi, ?_⟩
    intro a ha b hb heq
    obtain ⟨t, ht, rfl⟩ := List.mem_map.mp ha
    have hb : b = hi := List.mem_singleton.mp hb
    exact absurd (hf.taskRange t ht).2 (by omega)
  · intro t ht
    rcases List.mem_append.mp ht with ht | ht
    · have := hf.taskRange t ht
      omega
    · rw [List.mem_singleton.mp ht]
      exact ⟨hlo, Nat.lt_succ_self hi⟩
  · intro h b hr
    have := hf.readyRange h b hr
    exact ⟨this.1, by omega, this.2.2⟩
  · intro t ht
    rcases List.mem_append.mp ht with ht | ht
    · exact hf.taskNotReady t ht
    · rw [List.mem_singleton.mp ht]
      exact hnew
  · intro h
    rw [Finset.mem_insert, hf.inFlight_iff, List.mem_append,
      List.mem_singleton]
    simp only [FetchTask.mk.injEq, and_true]
    tauto
  · intro t ht hab
    rcases List.mem_append.mp ht with ht | ht
    · exact hf.abortedAbove t ht hab
    · rw [List.mem_singleton.mp ht] at hab
      cases hab
  · intro f hmem
    cases hmem
  · intro f hmem
    cases hmem
  · intro h h1 h2
    by_cases hh : h = hi
    · exact Or.inl ⟨⟨hi, false⟩, List.mem_append_right _
        List.mem_cons_self, hh.symm⟩
    · rcases hf.covered h h1 (by omega) with ⟨t, ht, heq⟩ | hrest
      · exact Or.inl ⟨t, List.mem_append_left _ ht, heq⟩
      · exact Or.inr hrest

/-- The tasks a join leaves. -/
def others (tasks : List FetchTask) (h : Nat) : List FetchTask :=
  tasks.filter fun t => t.height != h

theorem mem_others {h : Nat} {t : FetchTask} :
    t ∈ others tasks h ↔ t ∈ tasks ∧ t.height ≠ h := by
  simp [others]

/-- A task that ends without a block: some failure stands at or below its
height already. -/
theorem Fetches.lose {h : Nat}
    (hf : Fetches ends slots lo hi tasks inFlight ready failure)
    (hlost : ∃ f ∈ failure, f.1 ≤ h) :
    Fetches ends slots lo hi (others tasks h) (inFlight.erase h) ready
      failure := by
  refine ⟨?_, ?_, ?_, hf.readyRange, ?_, ?_, ?_, hf.failureRange, ?_, ?_⟩
  · exact le_trans (List.length_filter_le _ _) hf.slots_le
  · exact hf.distinct.sublist (List.filter_sublist.map _)
  · intro t ht
    exact hf.taskRange t (mem_others.mp ht).1
  · intro t ht
    exact hf.taskNotReady t (mem_others.mp ht).1
  · intro x
    rw [Finset.mem_erase, hf.inFlight_iff, mem_others, and_comm]
  · intro t ht
    exact hf.abortedAbove t (mem_others.mp ht).1
  · intro f hfm
    exact ⟨fun t ht => (hf.failureGone f hfm).1 t (mem_others.mp ht).1,
      (hf.failureGone f hfm).2⟩
  · intro x h1 h2
    rcases hf.covered x h1 h2 with ⟨t, ht, rfl⟩ | hrest
    · by_cases heq : t.height = h
      · rw [heq]
        exact Or.inr (Or.inr hlost)
      · exact Or.inl ⟨t, mem_others.mpr ⟨ht, heq⟩, rfl⟩
    · exact Or.inr hrest

/-- A cancelled task was aborted, so it has no handle any more. -/
theorem Fetches.erase_aborted {h : Nat}
    (hf : Fetches ends slots lo hi tasks inFlight ready failure)
    (hmem : ⟨h, true⟩ ∈ tasks) : inFlight.erase h = inFlight := by
  refine Finset.erase_eq_of_notMem fun hin => ?_
  have := List.inj_on_of_nodup_map hf.distinct ((hf.inFlight_iff h).mp hin)
    hmem rfl
  cases this

theorem Fetches.fetched {h : Nat} {b : β}
    (hf : Fetches ends slots lo hi tasks inFlight ready failure)
    (hmem : ∃ t ∈ tasks, t.height = h) (hfetch : ends.fetch h (.ok b)) :
    Fetches ends slots lo hi (others tasks h) (inFlight.erase h)
      (ready.insert h b) failure := by
  obtain ⟨t0, ht0, rfl⟩ := hmem
  refine ⟨?_, ?_, ?_, ?_, ?_, ?_, ?_, hf.failureRange, ?_, ?_⟩
  · exact le_trans (List.length_filter_le _ _) hf.slots_le
  · exact hf.distinct.sublist (List.filter_sublist.map _)
  · intro t ht
    exact hf.taskRange t (mem_others.mp ht).1
  · intro x c hr
    by_cases hx : x = t0.height
    · subst hx
      rw [Finmap.lookup_insert] at hr
      cases hr
      have := hf.taskRange t0 ht0
      exact ⟨this.1, this.2, hfetch⟩
    · rw [Finmap.lookup_insert_of_ne _ hx] at hr
      exact hf.readyRange x c hr
  · intro t ht
    obtain ⟨ht, hne⟩ := mem_others.mp ht
    rw [Finmap.lookup_insert_of_ne _ hne]
    exact hf.taskNotReady t ht
  · intro x
    rw [Finset.mem_erase, hf.inFlight_iff, mem_others, and_comm]
  · intro t ht
    exact hf.abortedAbove t (mem_others.mp ht).1
  · intro f hfm
    have hgone := hf.failureGone f hfm
    refine ⟨fun t ht => hgone.1 t (mem_others.mp ht).1, ?_⟩
    rw [Finmap.lookup_insert_of_ne _ (Ne.symm (hgone.1 t0 ht0))]
    exact hgone.2
  · intro x h1 h2
    by_cases hx : x = t0.height
    · subst hx
      rw [Finmap.lookup_insert]
      exact Or.inr (Or.inl rfl)
    · rw [Finmap.lookup_insert_of_ne _ hx]
      rcases hf.covered x h1 h2 with ⟨t, ht, heq⟩ | hrest
      · exact Or.inl ⟨t, mem_others.mpr ⟨ht, by omega⟩, heq⟩
      · exact Or.inr hrest

/-- The tasks after an abort of the look-ahead above `h`. -/
def abortAbove (inFlight : Finset Nat) (h : Nat) (t : FetchTask) :
    FetchTask :=
  if t.height ∈ inFlight.erase h ∧ h ≤ t.height then
    { t with aborted := true }
  else t

theorem abortAbove_height (inFlight : Finset Nat) (h : Nat) (t : FetchTask) :
    (abortAbove inFlight h t).height = t.height := by
  unfold abortAbove
  split <;> rfl

/-- A new lowest failure takes the place of the one before it. -/
theorem Fetches.failed {h : Nat} {e : IngestionError}
    (hf : Fetches ends slots lo hi tasks inFlight ready failure)
    (hmem : ∃ t ∈ tasks, t.height = h) (hfetch : ends.fetch h (.error e))
    (hlow : ∀ f ∈ failure, h < f.1) :
    Fetches ends slots lo hi
      ((others tasks h).map (abortAbove inFlight h))
      ((inFlight.erase h).filter (· < h)) ready (some (h, e)) := by
  have hheights : ((others tasks h).map (abortAbove inFlight h)).map
      FetchTask.height = (others tasks h).map FetchTask.height := by
    rw [List.map_map]
    exact List.map_congr_left fun t _ => abortAbove_height inFlight h t
  refine ⟨?_, ?_, ?_, hf.readyRange, ?_, ?_, ?_, ?_, ?_, ?_⟩
  · rw [List.length_map]
    exact le_trans (List.length_filter_le _ _) hf.slots_le
  · rw [hheights]
    exact hf.distinct.sublist (List.filter_sublist.map _)
  · intro t' ht'
    obtain ⟨t, ht, rfl⟩ := List.mem_map.mp ht'
    rw [abortAbove_height]
    exact hf.taskRange t (mem_others.mp ht).1
  · intro t' ht'
    obtain ⟨t, ht, rfl⟩ := List.mem_map.mp ht'
    rw [abortAbove_height]
    exact hf.taskNotReady t (mem_others.mp ht).1
  · intro x
    rw [Finset.mem_filter, Finset.mem_erase, hf.inFlight_iff, List.mem_map]
    constructor
    · rintro ⟨⟨hne, hin⟩, hlt⟩
      refine ⟨⟨x, false⟩, mem_others.mpr ⟨hin, hne⟩, ?_⟩
      unfold abortAbove
      rw [if_neg]
      intro hc
      simp only at hc
      omega
    · rintro ⟨t, ht, heq⟩
      obtain ⟨ht, hne⟩ := mem_others.mp ht
      have hx : t.height = x := by
        rw [← abortAbove_height inFlight h t, heq]
      unfold abortAbove at heq
      split at heq
      · cases heq
      · next hc =>
          subst heq
          have hin : x ∈ inFlight := (hf.inFlight_iff x).mpr ht
          refine ⟨⟨hne, ht⟩, ?_⟩
          by_contra hge
          exact hc ⟨Finset.mem_erase.mpr ⟨hne, hin⟩, by simp only; omega⟩
  · intro t' ht' hab
    obtain ⟨t, ht, rfl⟩ := List.mem_map.mp ht'
    obtain ⟨ht, hne⟩ := mem_others.mp ht
    rw [abortAbove_height]
    refine ⟨(h, e), rfl, ?_⟩
    unfold abortAbove at hab
    split at hab
    · next hc =>
        have := hc.2
        simp only
        omega
    · obtain ⟨f, hfm, hlt⟩ := hf.abortedAbove t ht hab
      have := hlow f hfm
      simp only
      omega
  · intro f hfm
    cases hfm
    obtain ⟨t, ht, rfl⟩ := hmem
    have := hf.taskRange t ht
    exact ⟨this.1, this.2, hfetch⟩
  · intro f hfm
    cases hfm
    refine ⟨?_, ?_⟩
    · intro t' ht'
      obtain ⟨t, ht, rfl⟩ := List.mem_map.mp ht'
      rw [abortAbove_height]
      exact (mem_others.mp ht).2
    · obtain ⟨t, ht, rfl⟩ := hmem
      exact hf.taskNotReady t ht
  · intro x h1 h2
    rcases hf.covered x h1 h2 with ⟨t, ht, rfl⟩ | hready | ⟨f, hfm, hle⟩
    · by_cases heq : t.height = h
      · exact Or.inr (Or.inr ⟨(h, e), rfl, by simp only; omega⟩)
      · exact Or.inl ⟨abortAbove inFlight h t,
          List.mem_map_of_mem (mem_others.mpr ⟨ht, heq⟩),
          abortAbove_height inFlight h t⟩
    · exact Or.inr (Or.inl hready)
    · have := hlow f hfm
      exact Or.inr (Or.inr ⟨(h, e), rfl, by simp only; omega⟩)

/-- The writer takes the block at its height. -/
theorem Fetches.commit {b : β}
    (hf : Fetches ends slots lo hi tasks inFlight ready failure)
    (hready : ready.lookup lo = some b) :
    Fetches ends slots (lo + 1) hi tasks inFlight (ready.erase lo) failure := by
  refine ⟨hf.slots_le, hf.distinct, ?_, ?_, ?_, hf.inFlight_iff,
    hf.abortedAbove, ?_, ?_, ?_⟩
  · intro t ht
    have hrange := hf.taskRange t ht
    have hne : t.height ≠ lo := by
      intro heq
      have := hf.taskNotReady t ht
      rw [heq, hready] at this
      cases this
    omega
  · intro h c hr
    by_cases hh : h = lo
    · rw [hh, Finmap.lookup_erase] at hr
      cases hr
    · rw [Finmap.lookup_erase_ne hh] at hr
      have := hf.readyRange h c hr
      exact ⟨by omega, this.2⟩
  · intro t ht
    by_cases hh : t.height = lo
    · rw [hh, Finmap.lookup_erase]
    · rw [Finmap.lookup_erase_ne hh]
      exact hf.taskNotReady t ht
  · intro f hfm
    have hrange := hf.failureRange f hfm
    have hne : f.1 ≠ lo := by
      intro heq
      have hgone := (hf.failureGone f hfm).2
      rw [heq, hready] at hgone
      cases hgone
    exact ⟨by omega, hrange.2⟩
  · intro f hfm
    obtain ⟨htask, hnone⟩ := hf.failureGone f hfm
    refine ⟨htask, ?_⟩
    by_cases heq : f.1 = lo
    · rw [heq, Finmap.lookup_erase]
    · rw [Finmap.lookup_erase_ne heq]
      exact hnone
  · intro h h1 h2
    rw [Finmap.lookup_erase_ne (by omega : h ≠ lo)]
    exact hf.covered h (by omega) h2

/-- With nothing ready at the writer's height and no task left, the writer
stands at the failed height, or has caught up with the reader. -/
theorem Fetches.idle (hf : Fetches ends slots lo hi [] inFlight ready failure)
    (hlo : lo ≤ hi) (hready : ready.lookup lo = none) :
    (failure = none → lo = hi) ∧ ∀ f ∈ failure, lo = f.1 := by
  have hcov : lo < hi → ∃ f ∈ failure, f.1 ≤ lo := by
    intro hlt
    rcases hf.covered lo (le_refl lo) hlt with ⟨t, ht, -⟩ | hr | hfail
    · cases ht
    · rw [hready] at hr
      cases hr
    · exact hfail
  refine ⟨?_, ?_⟩
  · intro hnone
    by_contra hne
    obtain ⟨f, hfm, -⟩ := hcov (by omega)
    rw [hnone] at hfm
    cases hfm
  · intro f hfm
    have hrange := hf.failureRange f hfm
    obtain ⟨f', hfm', hle⟩ := hcov (by omega)
    have heq : f = f' := Option.mem_unique hfm hfm'
    rw [← heq] at hle
    omega

end Fetches

/-! ## The invariant over a run -/

/-- What a returned window has to say: everything was written, or the first
height that was not is the first one that raises an error, and the error is
a stall or fails the pass. -/
structure Settled (w : FetchWindow) (ends : Ends β) (projected after : Nat)
    (result : Except IngestionError WindowOutcome) : Prop where
  cases : (result = .ok ⟨projected, after, none⟩ ∧
      w.fromHeight + projected = w.toHeight + 1) ∨
    ∃ e, ends.Fails (w.fromHeight + projected) e ∧
      w.fromHeight + projected ≤ w.toHeight ∧
      (result = .ok ⟨projected, after, some (w.fromHeight + projected)⟩ ∧
          0 < projected ∧ (isDatabaseFailure e = true →
            ends.fetch (w.fromHeight + projected) (.error e)) ∨
        result = .error e ∧ (projected = 0 ∨ isDatabaseFailure e = true ∧
          ends.write (w.fromHeight + projected) (some e)))

/-- What holds of the variables at each point of the loop. -/
structure PipelineOk (w : FetchWindow) (queueCapacity : Nat)
    (ends : Ends β) (cursor : Nat) (p : Pipeline β) : Prop where
  counters : Counters w queueCapacity ends cursor p.nextToSpawn p.nextToWrite
    p.projectedBlocks p.cursorHeightAfter p.written
  slots : p.tasks.length ≤ w.slots
  fetches : ¬ p.Returned → Fetches ends w.slots p.nextToWrite p.nextToSpawn
    p.tasks p.inFlight p.ready p.fetchError
  atExit : p.phase = .exitCheck → p.ready.lookup p.nextToWrite = none
  atAwait : p.phase = .await →
    p.ready.lookup p.nextToWrite = none ∧ ¬ p.exits w
  settled : ∀ result, p.phase = .returned result →
    Settled w ends p.projectedBlocks p.cursorHeightAfter result

theorem Phase.not_returned {p : Pipeline β} {phase : Phase}
    (h : p.phase = phase) (hne : ∀ result, phase ≠ .returned result) :
    ¬ p.Returned := by
  rintro ⟨result, hr⟩
  rw [h] at hr
  exact hne result hr

section Run

variable {w : FetchWindow} {queueCapacity : Nat} {ends : Ends β}
  {cursor : Nat} {p p' : Pipeline β}

theorem pipelineOk_start : PipelineOk w queueCapacity ends cursor
    (Pipeline.start β w cursor) where
  counters := by
    refine ⟨rfl, le_refl _, ?_, Nat.le_add_right _ _, rfl, ?_, rfl⟩
    · have := w.ordered
      simp only [Pipeline.start]
      omega
    · intro x hx
      cases hx
  slots := Nat.zero_le _
  fetches := fun _ => fetches_start ends w.slots w.fromHeight
  atExit := by intro h; cases h
  atAwait := by intro h; cases h
  settled := by intro _ h; cases h

theorem Pipeline.Resumes.running {next : Phase} (h : p.Resumes next) :
    ¬ p.Returned ∧ (next = .harvest ∨ next = .topUp) := by
  rcases h with ⟨hp, hn⟩ | ⟨hp, hn⟩
  · exact ⟨Phase.not_returned hp (by intro r h; cases h), Or.inl hn⟩
  · exact ⟨Phase.not_returned hp (by intro r h; cases h), Or.inr hn⟩

/-- A step that ends in a phase without obligations of its own. -/
theorem pipelineOk_of_fetches
    (hphase : p'.phase = .topUp ∨ p'.phase = .harvest ∨ p'.phase = .write)
    (hcount : Counters w queueCapacity ends cursor p'.nextToSpawn p'.nextToWrite
      p'.projectedBlocks p'.cursorHeightAfter p'.written)
    (hfetch : Fetches ends w.slots p'.nextToWrite p'.nextToSpawn p'.tasks
      p'.inFlight p'.ready p'.fetchError) :
    PipelineOk w queueCapacity ends cursor p' := by
  refine ⟨hcount, hfetch.slots_le, fun _ => hfetch, ?_, ?_, ?_⟩ <;>
    intros <;> simp_all

theorem Counters.spawn {spawn write projected after : Nat}
    {written : List (Nat × β)}
    (hc : Counters w queueCapacity ends cursor spawn write projected after
      written) (hto : spawn ≤ w.toHeight)
    (hahead : spawn - write < w.maxReadAhead queueCapacity) :
    Counters w queueCapacity ends cursor (spawn + 1) write projected after
      written := by
  refine ⟨hc.projected_eq, ?_, ?_, ?_, hc.heights, hc.writtenOk, hc.cursor_eq⟩
  · have := hc.writeSpawn
    omega
  · omega
  · have := hc.writeSpawn
    omega

theorem Counters.commit {spawn write projected after : Nat}
    {written : List (Nat × β)} {b : β}
    (hc : Counters w queueCapacity ends cursor spawn write projected after
      written) (hspawn : write < spawn) (hfetch : ends.fetch write (.ok b))
    (hwrite : ends.write write none) :
    Counters w queueCapacity ends cursor spawn (write + 1) (projected + 1)
      (max after write) (written ++ [(write, b)]) := by
  have hpe := hc.projected_eq
  refine ⟨by omega, by omega, hc.spawnTo, ?_, ?_, ?_, ?_⟩
  · have := hc.readAhead
    omega
  · rw [List.map_append, hc.heights, List.range'_concat, List.map_singleton,
      Nat.one_mul, hpe]
  · intro x hx
    rcases List.mem_append.mp hx with hx | hx
    · exact hc.writtenOk x hx
    · rw [List.mem_singleton.mp hx]
      exact ⟨hfetch, hwrite⟩
  · rw [if_neg (Nat.succ_ne_zero projected), hc.cursor_eq]
    split <;> omega

/-- The result of a failed write. -/
theorem settled_writeFailed {projected after : Nat} {b : β}
    {e : IngestionError} (hto : w.fromHeight + projected ≤ w.toHeight)
    (hfetch : ends.fetch (w.fromHeight + projected) (.ok b))
    (hwrite : ends.write (w.fromHeight + projected) (some e)) :
    Settled w ends projected after (if keepsCommittedPrefix projected e then
      .ok ⟨projected, after, some (w.fromHeight + projected)⟩
      else .error e) := by
  refine ⟨Or.inr ⟨e, Or.inr ⟨b, hfetch, hwrite⟩, hto, ?_⟩⟩
  split
  · next hkeep =>
      simp only [keepsCommittedPrefix, Bool.and_eq_true, decide_eq_true_eq,
        Bool.not_eq_true'] at hkeep
      refine Or.inl ⟨rfl, hkeep.1, ?_⟩
      intro hdb
      rw [hkeep.2] at hdb
      cases hdb
  · next hkeep =>
      simp only [keepsCommittedPrefix, Bool.and_eq_true, decide_eq_true_eq,
        Bool.not_eq_true', not_and, Bool.not_eq_false] at hkeep
      refine Or.inr ⟨rfl, ?_⟩
      rcases Nat.eq_zero_or_pos projected with hzero | hpos
      · exact Or.inl hzero
      · exact Or.inr ⟨hkeep hpos, hwrite⟩

/-- The result after the loop. -/
theorem settled_conclude
    (hcount : Counters w queueCapacity ends cursor p.nextToSpawn p.nextToWrite
      p.projectedBlocks p.cursorHeightAfter p.written)
    (hfetch : Fetches ends w.slots p.nextToWrite p.nextToSpawn p.tasks
      p.inFlight p.ready p.fetchError)
    (hready : p.ready.lookup p.nextToWrite = none) (hexit : p.exits w) :
    Settled w ends p.projectedBlocks p.cursorHeightAfter p.conclude := by
  obtain ⟨hempty, hwhy⟩ := hexit
  rw [hempty] at hfetch
  obtain ⟨hcaught, hstands⟩ := hfetch.idle hcount.writeSpawn hready
  have hpe := hcount.projected_eq
  unfold Pipeline.conclude
  cases hfail : p.fetchError with
  | none =>
      rw [hfail] at hwhy
      have hto : w.toHeight < p.nextToSpawn := by
        rcases hwhy with h | h
        · cases h
        · exact h
      have hlast := hcaught hfail
      have hspawn := hcount.spawnTo
      exact ⟨Or.inl ⟨rfl, by omega⟩⟩
  | some f =>
      obtain ⟨h, e⟩ := f
      have hat : p.nextToWrite = h := hstands (h, e) hfail
      have hrange := hfetch.failureRange (h, e) hfail
      have hspawn := hcount.spawnTo
      simp only at hrange
      rw [← hat, ← hpe] at hrange
      refine ⟨Or.inr ⟨e, Or.inl hrange.2.2, by omega, ?_⟩⟩
      simp only
      split
      · next hzero => exact Or.inr ⟨rfl, Or.inl hzero⟩
      · next hpos =>
          rw [← hat, ← hpe]
          exact Or.inl ⟨rfl, by omega, fun _ => hrange.2.2⟩

/-- Every step keeps the invariant. -/
theorem PipelineOk.move (hok : PipelineOk w queueCapacity ends cursor p)
    (h : PipelineMove w queueCapacity ends p p') :
    PipelineOk w queueCapacity ends cursor p' := by
  have hcount := hok.counters
  cases h with
  | spawn hphase hspawn =>
      obtain ⟨hnone, hto, hroom, hahead⟩ := hspawn
      have hfetch := hok.fetches
        (Phase.not_returned hphase (by intro r h; cases h))
      rw [hnone] at hfetch
      refine pipelineOk_of_fetches (Or.inl hphase) (hcount.spawn hto hahead) ?_
      simp only [Pipeline.spawn, hnone]
      exact hfetch.spawn hroom hcount.writeSpawn
  | filled hphase _ =>
      exact pipelineOk_of_fetches (Or.inr (Or.inl rfl)) hcount
        (hok.fetches (Phase.not_returned hphase (by intro r h; cases h)))
  | @cancelled next height hnext hmem =>
      obtain ⟨hrun, hnext⟩ := hnext.running
      have hfetch := hok.fetches hrun
      refine pipelineOk_of_fetches (by simp only; tauto) hcount ?_
      have hlost := hfetch.abortedAbove _ hmem rfl
      have hlose := hfetch.lose (h := height)
        (hlost.imp fun f hf => ⟨hf.1, le_of_lt hf.2⟩)
      rwa [hfetch.erase_aborted hmem] at hlose
  | fetched hnext hmem hok' =>
      obtain ⟨hrun, hnext⟩ := hnext.running
      exact pipelineOk_of_fetches (by simp only; tauto) hcount
        ((hok.fetches hrun).fetched hmem hok')
  | failed hnext hmem herr hlow =>
      obtain ⟨hrun, hnext⟩ := hnext.running
      exact pipelineOk_of_fetches (by simp only; tauto) hcount
        ((hok.fetches hrun).failed hmem herr hlow)
  | @failedAbove next height e hnext hmem herr hlow =>
      obtain ⟨hrun, hnext⟩ := hnext.running
      refine pipelineOk_of_fetches (by simp only; tauto) hcount
        ((hok.fetches hrun).lose ?_)
      simp only [Pipeline.supersedes, not_forall, not_lt] at hlow
      obtain ⟨f, hfm, hle⟩ := hlow
      exact ⟨f, hfm, hle⟩
  | drained hphase =>
      exact pipelineOk_of_fetches (Or.inr (Or.inr rfl)) hcount
        (hok.fetches (Phase.not_returned hphase (by intro r h; cases h)))
  | committed hphase hready hwrite =>
      have hfetch := hok.fetches
        (Phase.not_returned hphase (by intro r h; cases h))
      have hrange := hfetch.readyRange _ _ hready
      exact pipelineOk_of_fetches (Or.inr (Or.inr hphase))
        (hcount.commit hrange.2.1 hrange.2.2 hwrite) (hfetch.commit hready)
  | writeFailed hphase hready hwrite =>
      have hfetch := hok.fetches
        (Phase.not_returned hphase (by intro r h; cases h))
      have hrange := hfetch.readyRange _ _ hready
      have hto := hcount.spawnTo
      have hpe := hcount.projected_eq
      refine ⟨hcount, hok.slots, ?_, (by intro h; cases h),
        (by intro h; cases h), ?_⟩
      · intro hrun
        exact absurd ⟨_, rfl⟩ hrun
      · intro result hresult
        cases hresult
        simp only [← hpe] at hrange hwrite ⊢
        exact settled_writeFailed (by omega) hrange.2.2 hwrite
  | blocked hphase hready =>
      refine ⟨hcount, hok.slots, fun _ => hok.fetches
        (Phase.not_returned hphase (by intro r h; cases h)), fun _ => hready,
        (by intro h; cases h), (by intro r h; cases h)⟩
  | exit hphase hexit =>
      have hfetch := hok.fetches
        (Phase.not_returned hphase (by intro r h; cases h))
      refine ⟨hcount, hok.slots, ?_, (by intro h; cases h),
        (by intro h; cases h), ?_⟩
      · intro hrun
        exact absurd ⟨_, rfl⟩ hrun
      · intro result hresult
        cases hresult
        exact settled_conclude hcount hfetch (hok.atExit hphase) hexit
  | stay hphase hexit =>
      refine ⟨hcount, hok.slots, fun _ => hok.fetches
        (Phase.not_returned hphase (by intro r h; cases h)),
        (by intro h; cases h), fun _ => ⟨hok.atExit hphase, hexit⟩,
        (by intro r h; cases h)⟩
  | wake hphase _ =>
      exact pipelineOk_of_fetches (Or.inl rfl) hcount
        (hok.fetches (Phase.not_returned hphase (by intro r h; cases h)))

/-- Waiting with nothing in flight, the pipeline can spawn. -/
theorem PipelineOk.canSpawn (hok : PipelineOk w queueCapacity ends cursor p)
    (hphase : p.phase = .await) (hempty : p.tasks = []) :
    p.canSpawn w queueCapacity := by
  obtain ⟨hready, hstays⟩ := hok.atAwait hphase
  have hfetch := hok.fetches
    (Phase.not_returned hphase (by intro r h; cases h))
  rw [hempty] at hfetch
  have hidle := hfetch.idle hok.counters.writeSpawn hready
  have hnone : p.fetchError = none := by
    by_contra hsome
    exact hstays ⟨hempty, Or.inl (Option.isSome_iff_ne_none.mpr hsome)⟩
  have hto : p.nextToSpawn ≤ w.toHeight := by
    by_contra hgt
    exact hstays ⟨hempty, Or.inr (by omega)⟩
  have hslots : 0 < w.slots := by
    unfold FetchWindow.slots
    omega
  have hcaught := hidle.1 hnone
  refine ⟨hnone, hto, by rw [hempty]; exact hslots, ?_⟩
  have : 0 < w.maxReadAhead queueCapacity := by
    unfold FetchWindow.maxReadAhead
    omega
  omega

/-! ## Every interleaving returns -/

/-- How far the loop body is from its end. -/
def Pipeline.rank (w : FetchWindow) (queueCapacity : Nat) (p : Pipeline β) :
    Nat :=
  match p.phase with
  | .topUp => if p.canSpawn w queueCapacity then 0 else 5
  | .harvest => 4
  | .write => 3
  | .exitCheck => 2
  | .await => 1
  | .returned _ => 0

/-- What is left to spawn, to join and to write. -/
def Pipeline.backlog (w : FetchWindow) (p : Pipeline β) : Nat :=
  2 * (w.toHeight + 1 - p.nextToSpawn) + p.tasks.length +
    (w.toHeight + 1 - p.nextToWrite)

def Pipeline.measure (w : FetchWindow) (queueCapacity : Nat)
    (p : Pipeline β) : Nat :=
  6 * p.backlog w + p.rank w queueCapacity

theorem rank_le (w : FetchWindow) (queueCapacity : Nat) (p : Pipeline β) :
    p.rank w queueCapacity ≤ 5 := by
  unfold Pipeline.rank
  split
  · split <;> omega
  all_goals omega

theorem others_length {tasks : List FetchTask} {h : Nat}
    (hmem : ∃ t ∈ tasks, t.height = h) :
    (others tasks h).length < tasks.length := by
  obtain ⟨t, ht, rfl⟩ := hmem
  exact List.length_filter_lt_length_iff_exists.mpr ⟨t, ht, by simp⟩

/-- A join makes the backlog smaller, and that outweighs the way back to the
top of the loop. -/
theorem measure_join {next : Phase} (hnext : p.Resumes next) {h : Nat}
    (hmem : ∃ t ∈ p.tasks, t.height = h) (hphase : p'.phase = next)
    (htasks : p'.tasks.length = (others p.tasks h).length)
    (hspawn : p'.nextToSpawn = p.nextToSpawn)
    (hwrite : p'.nextToWrite = p.nextToWrite) :
    p'.measure w queueCapacity < p.measure w queueCapacity := by
  have hlt := others_length hmem
  have hback : p'.backlog w < p.backlog w := by
    simp only [Pipeline.backlog, hspawn, hwrite]
    omega
  have hrank : p'.rank w queueCapacity ≤ p.rank w queueCapacity + 4 := by
    rcases hnext with ⟨hp, hn⟩ | ⟨hp, hn⟩
    · simp only [Pipeline.rank, hp, hphase, hn]
      omega
    · have := rank_le w queueCapacity p'
      simp only [Pipeline.rank, hp] at this ⊢
      omega
  unfold Pipeline.measure
  omega

theorem measure_lt (hok : PipelineOk w queueCapacity ends cursor p)
    (h : PipelineMove w queueCapacity ends p p') :
    p'.measure w queueCapacity < p.measure w queueCapacity := by
  cases h with
  | spawn hphase hspawn =>
      have hrank : p.rank w queueCapacity = 0 := by
        simp [Pipeline.rank, hphase, hspawn]
      have hrank' := rank_le w queueCapacity p.spawn
      have hto := hspawn.2.1
      have hback : p.spawn.backlog w + 1 = p.backlog w := by
        simp only [Pipeline.backlog, Pipeline.spawn, List.length_append,
          List.length_singleton]
        omega
      unfold Pipeline.measure
      omega
  | filled hphase hspawn =>
      simp only [Pipeline.measure, Pipeline.rank, Pipeline.backlog, hphase,
        if_neg hspawn]
      omega
  | cancelled hnext hmem =>
      exact measure_join hnext ⟨_, hmem, rfl⟩ rfl rfl rfl rfl
  | fetched hnext hmem _ => exact measure_join hnext hmem rfl rfl rfl rfl
  | failed hnext hmem _ _ =>
      exact measure_join hnext hmem rfl (List.length_map _) rfl rfl
  | failedAbove hnext hmem _ _ =>
      exact measure_join hnext hmem rfl rfl rfl rfl
  | drained hphase =>
      simp only [Pipeline.measure, Pipeline.rank, Pipeline.backlog, hphase]
      omega
  | committed hphase hready _ =>
      have hfetch := hok.fetches
        (Phase.not_returned hphase (by intro r h; cases h))
      have hrange := hfetch.readyRange _ _ hready
      have hto := hok.counters.spawnTo
      simp only [Pipeline.measure, Pipeline.rank, Pipeline.backlog,
        Pipeline.commit, hphase]
      omega
  | writeFailed hphase _ _ =>
      simp only [Pipeline.measure, Pipeline.rank, Pipeline.backlog, hphase]
      omega
  | blocked hphase _ =>
      simp only [Pipeline.measure, Pipeline.rank, Pipeline.backlog, hphase]
      omega
  | exit hphase _ =>
      simp only [Pipeline.measure, Pipeline.rank, Pipeline.backlog, hphase]
      omega
  | stay hphase _ =>
      simp only [Pipeline.measure, Pipeline.rank, Pipeline.backlog, hphase]
      omega
  | wake hphase hempty =>
      have hspawn := hok.canSpawn hphase hempty
      have hspawn' : ({ p with phase := .topUp } : Pipeline β).canSpawn w
          queueCapacity := hspawn
      simp only [Pipeline.measure, Pipeline.rank, Pipeline.backlog, hphase,
        if_pos hspawn']
      omega

theorem join_of_canJoin {h : Nat} {r : Joined β} (hcan : p.canJoin h r)
    (next : Phase) : ∃ p', p.join h r next = some p' := by
  unfold Pipeline.join
  rw [if_pos hcan]
  split
  · exact ⟨_, rfl⟩
  · exact ⟨_, rfl⟩

/-- A pipeline that has not returned can take a step. -/
theorem pipeline_progress (o : Outcomes β) (p : Pipeline β) :
    p.Returned ∨ ∃ a p', PipelineStep w queueCapacity o p a p' := by
  cases hphase : p.phase with
  | returned result => exact Or.inl ⟨result, hphase⟩
  | topUp =>
      right
      by_cases hspawn : p.canSpawn w queueCapacity
      · exact ⟨.tick, p.spawn, trivial,
          by simp only [pipelineStep, hphase, if_pos hspawn]⟩
      · exact ⟨.tick, { p with phase := .harvest }, trivial,
          by simp only [pipelineStep, hphase, if_neg hspawn]⟩
  | harvest =>
      exact Or.inr ⟨.nothingFinished, { p with phase := .write }, trivial,
        by simp only [pipelineStep, hphase]⟩
  | write =>
      right
      cases hready : p.ready.lookup p.nextToWrite with
      | none =>
          exact ⟨.tick, { p with phase := .exitCheck }, trivial,
            by simp only [pipelineStep, hphase, hready]⟩
      | some b =>
          cases hw : o.write p.nextToWrite with
          | none =>
              exact ⟨.wrote (.ok (max p.cursorHeightAfter p.nextToWrite)), _,
                by simp only [Outcomes.Allow, hw],
                by simp only [pipelineStep, hphase, hready]; rfl⟩
          | some e =>
              by_cases hkeep : keepsCommittedPrefix p.projectedBlocks e = true
              · exact ⟨.wrote (.error e), _,
                  by simp only [Outcomes.Allow, hw],
                  by simp only [pipelineStep, hphase, hready, if_pos hkeep]
                     rfl⟩
              · exact ⟨.wrote (.error e), _,
                  by simp only [Outcomes.Allow, hw],
                  by simp only [pipelineStep, hphase, hready, if_neg hkeep]
                     rfl⟩
  | exitCheck =>
      right
      by_cases hexit : p.exits w
      · exact ⟨.tick, { p with phase := .returned p.conclude }, trivial,
          by simp only [pipelineStep, hphase, if_pos hexit]⟩
      · exact ⟨.tick, { p with phase := .await }, trivial,
          by simp only [pipelineStep, hphase, if_neg hexit]⟩
  | await =>
      right
      cases htasks : p.tasks with
      | nil =>
          exact ⟨.tick, { p with phase := .topUp }, trivial,
            by simp only [pipelineStep, hphase, htasks, if_true]⟩
      | cons t ts =>
          have hmem : ∃ t' ∈ p.tasks, t'.height = t.height :=
            ⟨t, htasks ▸ List.mem_cons_self, rfl⟩
          cases hfetch : o.fetch t.height with
          | ok b =>
              obtain ⟨p', hp'⟩ := join_of_canJoin (r := .fetched b) hmem .topUp
              exact ⟨.joined t.height (.fetched b), p', hfetch,
                by simpa only [pipelineStep, hphase] using hp'⟩
          | error e =>
              obtain ⟨p', hp'⟩ := join_of_canJoin (r := .failed e) hmem .topUp
              exact ⟨.joined t.height (.failed e), p', hfetch,
                by simpa only [pipelineStep, hphase] using hp'⟩

theorem pipelineOk_of_steps {o : Outcomes β} {acts : List (PipelineAct β)}
    (h : Steps (PipelineStep w queueCapacity o) (Pipeline.start β w cursor)
      acts p) : PipelineOk w queueCapacity o.ends cursor p := by
  refine h.invariant ?_ pipelineOk_start
  intro p a p' hok hstep
  exact hok.move hstep.move

/-- No interleaving runs forever, and none stops before it has returned. -/
theorem pipeline_completes (w : FetchWindow) (queueCapacity : Nat)
    (o : Outcomes β) (cursor : Nat) :
    Completes (PipelineStep w queueCapacity o) Pipeline.Returned
      (Pipeline.start β w cursor) := by
  refine completes_of_measure (I := PipelineOk w queueCapacity o.ends cursor)
    (Pipeline.measure w queueCapacity) ?_ ?_ pipelineOk_start
  · intro p a p' hok hstep
    exact ⟨hok.move hstep.move, measure_lt hok hstep.move⟩
  · intro p _
    exact pipeline_progress o p

theorem PipelineOk.length_written
    (hok : PipelineOk w queueCapacity ends cursor p) :
    p.written.length = p.projectedBlocks := by
  have h := congrArg List.length hok.counters.heights
  rwa [List.length_map, List.length_range'] at h

/-- The heights below the writer raise nothing. -/
theorem PipelineOk.failure_none {o : Outcomes β}
    (hok : PipelineOk w queueCapacity o.ends cursor p) {h : Nat}
    (hfrom : w.fromHeight ≤ h) (hlt : h < w.fromHeight + p.projectedBlocks) :
    o.failure h = none := by
  have hmem : h ∈ p.written.map Prod.fst := by
    rw [hok.counters.heights, List.mem_range'_1]
    exact ⟨hfrom, hlt⟩
  obtain ⟨x, hx, rfl⟩ := List.mem_map.mp hmem
  obtain ⟨hfetch, hwrite⟩ := hok.counters.writtenOk x hx
  have hfetch : o.fetch x.1 = .ok x.2 := hfetch
  rw [Outcomes.failure, hfetch]
  exact hwrite

end Run

/-! ## The main statement -/

/-- Whatever order the fetches end in and whatever the outcomes are: heights
are written in increasing order from the start of the window without a gap,
the fetches in flight and the read-ahead stay within their bounds, and the
loop never waits with nothing in flight and nothing to spawn. What it returns
counts the blocks written, is free of a stall only if all were, and otherwise
names the height after the last one written, which is the lowest whose fetch
or write fails. Every interleaving returns. -/
theorem pipelined_window_is_safe (w : FetchWindow)
    (queueCapacity cursor : Nat) (o : Outcomes β) :
    (∀ acts p, Steps (PipelineStep w queueCapacity o)
        (Pipeline.start β w cursor) acts p →
      p.written.map Prod.fst = List.range' w.fromHeight p.written.length ∧
      p.tasks.length ≤ max w.concurrency 1 ∧
      p.nextToSpawn ≤
        p.nextToWrite + max queueCapacity (max w.concurrency 1) ∧
      (p.phase = .await → p.tasks = [] → p.canSpawn w queueCapacity) ∧
      ∀ outcome, p.phase = .returned (.ok outcome) →
        outcome.projectedBlocks = p.written.length ∧
        (outcome.stalledHeight = none →
          w.fromHeight + p.written.length = w.toHeight + 1) ∧
        ∀ h, outcome.stalledHeight = some h →
          h = w.fromHeight + p.written.length ∧ (o.failure h).isSome ∧
          ∀ h', w.fromHeight ≤ h' → h' < h → o.failure h' = none) ∧
    Completes (PipelineStep w queueCapacity o) Pipeline.Returned
      (Pipeline.start β w cursor) := by
  refine ⟨?_, pipeline_completes w queueCapacity o cursor⟩
  intro acts p hrun
  have hok := pipelineOk_of_steps hrun
  have hlen := hok.length_written
  refine ⟨?_, hok.slots, hok.counters.readAhead, hok.canSpawn, ?_⟩
  · rw [hlen]
    exact hok.counters.heights
  · intro outcome hphase
    rw [hlen]
    rcases (hok.settled _ hphase).cases with ⟨hres, hall⟩ |
      ⟨e, hfail, -, ⟨hres, hpos, -⟩ | ⟨hres, -⟩⟩
    · cases hres
      exact ⟨rfl, fun _ => hall, by intro h hh; cases hh⟩
    · cases hres
      refine ⟨rfl, (by intro hh; cases hh), ?_⟩
      intro h hh
      cases hh
      refine ⟨rfl, by rw [Outcomes.failure_of_fails hfail]; rfl, ?_⟩
      intro h' h1 h2
      exact hok.failure_none h1 h2
    · cases hres

end Explorer.Ref
