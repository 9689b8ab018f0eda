import Explorer.Proofs.StakeBuild
import Explorer.Proofs.StakeConsistent

/-!
# Resuming the curve is rebuilding it

A run of the forward projector may start from the seed or from the state a
previous run left behind, may skip, may find the chain in the middle of a
day, and never looks again at a day it has closed. The schedule of the runs
is arbitrary. What keeps the curve right is one invariant, `Curve`: the
tables hold, for the cursor of the last run that built anything, the points
one fold from the seed would give, and the persisted state is that fold's
state at the last closed day.

Three facts carry it from run to run. The chain clock does not run backwards
(`StakeLog.clock`), so once the cursor has reached a day, the transactions of
the earlier days are all there (`window_viewAt`). A fold stopped at the end
of a day and taken up again is the same fold (`stateBy_resume`). And the skip
gate lets a run build only when the cursor day is new, so a window after the
first always holds two days or more and leaves a state behind; only a first
run on the day right after the seed leaves none, and the next one then starts
from the seed again.
-/

namespace Explorer.Ref

open Explorer.Lib

/-! ## The chain over time -/

/-- The chain the projector works along: transactions in chain order with
times that do not decrease, and blocks on the same clock. -/
structure StakeLog where
  blocks : List ChainBlock
  transactions : List StakeTransaction
  chainOrder : transactions.Pairwise fun a b =>
    a.timestampUnixSeconds ≤ b.timestampUnixSeconds ∧
      (a.blockHeight < b.blockHeight ∨
        a.blockHeight = b.blockHeight ∧ a.txIndex < b.txIndex)
  distinctIds : (transactions.map StakeTransaction.txId).Nodup
  clock : ∀ b ∈ blocks, ∀ tx ∈ transactions, b.height < tx.blockHeight →
    b.timestampUnixSeconds ≤ tx.timestampUnixSeconds

/-- What is projected when the cursor stands at a height. -/
def StakeLog.viewAt (log : StakeLog) (cursor : Nat) : ChainView where
  currentHeight := cursor
  blocks := log.blocks.filter fun b => decide (b.height ≤ cursor)
  transactions := log.transactions.filter fun tx =>
    decide (tx.blockHeight ≤ cursor)

/-- All of the log, wherever the cursor stands. -/
def StakeLog.entire (log : StakeLog) (cursor : Nat) : ChainView where
  currentHeight := cursor
  blocks := log.blocks
  transactions := log.transactions

/-- One fold from the seed over the events up to a time, read off as daily
points up to a day. -/
def oneFold (parse : String → Option Int) (view : ChainView)
    (boundaryDay : Int) (seed : StakeSnapshotState)
    (toTs toExclusiveDay : Int) : Except StakeError
      (List StakeSnapshotDailyPoint × Option (Int × StakeSnapshotState)) :=
  match loadStakeSnapshotEvents parse view (boundaryDay + secondsPerDay) toTs
      .none with
  | .error e => .error e
  | .ok (rows, an) =>
      let built := buildStakeSnapshotDailyPoints seed rows
        (boundaryDay + secondsPerDay) toExclusiveDay an
      .ok (built.1, built.2.1)

/-- The tables after runs at the given cursors. -/
def projectRuns (parse : String → Option Int) (log : StakeLog)
    (t : StakeTables) (cursors : List Nat) : StakeTables :=
  cursors.foldl (fun t cursor =>
    projectStakeSnapshotsForward parse (log.viewAt cursor) t) t

/-- A captured seed, on a day boundary as the capture leaves it and with the
distinct addresses its key gives it, before anything was built on it. -/
structure Seeded (parse : String → Option Int) (t : StakeTables)
    (boundaryDay : Int) (seed : StakeSnapshotState) : Prop where
  loads : loadStakeBoundarySlice parse t = .ok (some (boundaryDay, seed))
  distinct : (t.boundaryBalances.map Prod.fst).Nodup
  aligned : boundaryDay % secondsPerDay = 0
  noCurve : t.dailies = []
  noResume : t.resume = none

theorem StakeLog.timeOrder (log : StakeLog) :
    log.transactions.Pairwise fun a b =>
      a.timestampUnixSeconds ≤ b.timestampUnixSeconds :=
  log.chainOrder.imp fun h => h.1

theorem StakeLog.txOrdered (log : StakeLog) :
    log.transactions.Pairwise fun a b => txOrder a b = true := by
  refine log.chainOrder.imp ?_
  intro a b h
  simp only [txOrder, Bool.or_eq_true, Bool.and_eq_true, decide_eq_true_eq,
    beq_iff_eq]
  omega

theorem StakeLog.viewAt_ordered (log : StakeLog) (c : Nat) :
    (log.viewAt c).transactions.Pairwise fun a b => txOrder a b = true :=
  log.txOrdered.filter _

theorem StakeLog.viewAt_timeOrder (log : StakeLog) (c : Nat) :
    (log.viewAt c).transactions.Pairwise fun a b =>
      a.timestampUnixSeconds ≤ b.timestampUnixSeconds :=
  log.timeOrder.filter _

theorem StakeLog.viewAt_distinctIds (log : StakeLog) (c : Nat) :
    ((log.viewAt c).transactions.map StakeTransaction.txId).Nodup :=
  log.distinctIds.sublist (List.filter_sublist.map _)

/-! ## Days on the grid -/

theorem daysBetween_eq (day : Int) (n : Nat) :
    daysBetween day (day + secondsPerDay * n) =
      (List.range n).map fun i : Nat => day + secondsPerDay * i := by
  have hn : ((day + secondsPerDay * n - day + (secondsPerDay - 1)) /
      secondsPerDay).toNat = n := by
    simp only [secondsPerDay]
    omega
  rw [daysBetween, hn]

theorem mem_daysBetween {day d : Int} {n : Nat}
    (h : d ∈ daysBetween day (day + secondsPerDay * n)) :
    ∃ i : Nat, i < n ∧ d = day + secondsPerDay * i := by
  rw [daysBetween_eq] at h
  obtain ⟨i, hi, rfl⟩ := List.mem_map.mp h
  exact ⟨i, List.mem_range.mp hi, rfl⟩

theorem daysBetween_append (day : Int) (a b : Nat) :
    daysBetween day (day + secondsPerDay * a) ++
      daysBetween (day + secondsPerDay * a)
        (day + secondsPerDay * a + secondsPerDay * b) =
      daysBetween day (day + secondsPerDay * (a + b : Nat)) := by
  rw [daysBetween_eq, daysBetween_eq, daysBetween_eq, List.range_add,
    List.map_append, List.map_map]
  congr 1
  refine List.map_congr_left fun i _ => ?_
  simp only [Function.comp_apply, secondsPerDay]
  omega

theorem daysBetween_one (day : Int) :
    daysBetween day (day + secondsPerDay) = [day] := by
  have h := daysBetween_eq day 1
  simpa using h

theorem closedAfter_of_ne {toExclusiveDay : Int}
    {state : Int → StakeSnapshotState} {days : List Int}
    (h : ∀ d ∈ days, d + 2 * secondsPerDay ≠ toExclusiveDay)
    (closed : Option (Int × StakeSnapshotState)) :
    closedAfter toExclusiveDay state closed days = closed := by
  induction days generalizing closed with
  | nil => rfl
  | cons d days ih =>
      rw [closedAfter, List.foldl_cons, if_neg (h d List.mem_cons_self)]
      exact ih (fun d' hd' => h d' (List.mem_cons_of_mem _ hd')) closed

/-- A window of two days or more closes its last day but one. -/
theorem closedAfter_daysBetween (state : Int → StakeSnapshotState)
    (day : Int) (n : Nat) :
    closedAfter (day + secondsPerDay * (n + 2 : Nat)) state none
        (daysBetween day (day + secondsPerDay * (n + 2 : Nat))) =
      some (day + secondsPerDay * n, state (day + secondsPerDay * n)) := by
  have hdays : daysBetween day (day + secondsPerDay * (n + 2 : Nat)) =
      daysBetween day (day + secondsPerDay * n) ++
        [day + secondsPerDay * n, day + secondsPerDay * (n + 1 : Nat)] := by
    rw [daysBetween_eq, daysBetween_eq, List.range_succ, List.range_succ]
    simp
  have hsecond : day + secondsPerDay * (n : Int) + 2 * secondsPerDay =
      day + secondsPerDay * ((n + 2 : Nat) : Int) := by
    simp only [secondsPerDay]
    omega
  have hlast : ¬ day + secondsPerDay * ((n + 1 : Nat) : Int) +
      2 * secondsPerDay = day + secondsPerDay * ((n + 2 : Nat) : Int) := by
    simp only [secondsPerDay]
    omega
  rw [hdays, closedAfter, List.foldl_append, List.foldl_cons, List.foldl_cons,
    List.foldl_nil, if_neg hlast, if_pos hsecond]

/-- A window of one day closes none. -/
theorem closedAfter_oneDay (state : Int → StakeSnapshotState) (day : Int) :
    closedAfter (day + secondsPerDay) state none
      (daysBetween day (day + secondsPerDay)) = none := by
  refine closedAfter_of_ne ?_ none
  intro d hd
  rw [daysBetween_one, List.mem_singleton] at hd
  simp only [hd, secondsPerDay]
  omega

/-! ## Writing the curve -/

/-- The rows of days, as the projector writes them. -/
def curveRows (state : Int → StakeSnapshotState) (days : List Int) :
    List DailyRow :=
  days.map fun d => ⟨dailyPoint d (state d), stakeSnapshotProjectorSource⟩

theorem curveRows_append (state : Int → StakeSnapshotState)
    (days days' : List Int) :
    curveRows state (days ++ days') =
      curveRows state days ++ curveRows state days' :=
  List.map_append

theorem upsert_present {done rest : List DailyRow} {r : DailyRow}
    {p : StakeSnapshotDailyPoint}
    (hr : r.point.dateUnixSeconds = p.dateUnixSeconds)
    (hdone : ∀ r ∈ done, r.point.dateUnixSeconds ≠ p.dateUnixSeconds)
    (hrest : ∀ r ∈ rest, r.point.dateUnixSeconds ≠ p.dateUnixSeconds) :
    upsertDailyPoint (done ++ r :: rest) p =
      done ++ ⟨p, stakeSnapshotProjectorSource⟩ :: rest := by
  have hsame : ∀ {l : List DailyRow},
      (∀ r ∈ l, r.point.dateUnixSeconds ≠ p.dateUnixSeconds) →
      l.map (fun r => if r.point.dateUnixSeconds = p.dateUnixSeconds then
        (⟨p, stakeSnapshotProjectorSource⟩ : DailyRow) else r) = l := by
    intro l hl
    conv_rhs => rw [← List.map_id l]
    exact List.map_congr_left fun r hr => if_neg (hl r hr)
  rw [upsertDailyPoint, if_pos (by simp [hr]), List.map_append, List.map_cons,
    hsame hdone, hsame hrest, if_pos hr]

theorem upsert_absent {done : List DailyRow} {p : StakeSnapshotDailyPoint}
    (hdone : ∀ r ∈ done, r.point.dateUnixSeconds ≠ p.dateUnixSeconds) :
    upsertDailyPoint done p = done ++ [⟨p, stakeSnapshotProjectorSource⟩] := by
  rw [upsertDailyPoint, if_neg]
  intro h
  obtain ⟨r, hr, hdate⟩ := List.any_eq_true.mp h
  exact hdone r hr (by simpa using hdate)

/-- Days already there are replaced in place, new ones follow. -/
theorem upsert_days (state state' : Int → StakeSnapshotState)
    (again new : List Int) {done : List DailyRow}
    (hdone : ∀ r ∈ done, r.point.dateUnixSeconds ∉ again ++ new)
    (hnodup : (again ++ new).Nodup) :
    ((again ++ new).map fun d => dailyPoint d (state' d)).foldl
        upsertDailyPoint (done ++ curveRows state again) =
      done ++ curveRows state' (again ++ new) := by
  induction again generalizing done with
  | nil =>
      rw [List.nil_append] at hdone hnodup ⊢
      rw [curveRows, List.map_nil, List.append_nil]
      induction new generalizing done with
      | nil => simp [curveRows]
      | cons d new ih =>
          rw [List.nodup_cons] at hnodup
          rw [List.map_cons, List.foldl_cons, upsert_absent]
          · rw [ih ?_ hnodup.2]
            · simp [curveRows]
            · intro r hr hmem
              rcases List.mem_append.mp hr with hr | hr
              · exact hdone r hr (List.mem_cons_of_mem _ hmem)
              · rw [List.mem_singleton.mp hr] at hmem
                exact hnodup.1 hmem
          · intro r hr heq
            exact hdone r hr (heq ▸ List.mem_cons_self)
  | cons d again ih =>
      rw [List.cons_append, List.nodup_cons] at hnodup
      have hrow : curveRows state (d :: again) =
          ⟨dailyPoint d (state d), stakeSnapshotProjectorSource⟩ ::
            curveRows state again := rfl
      rw [List.cons_append, List.map_cons, List.foldl_cons, hrow,
        upsert_present (p := dailyPoint d (state' d)) rfl]
      · rw [List.append_cons, ih ?_ hnodup.2]
        · simp [curveRows]
        · intro r hr hmem
          rcases List.mem_append.mp hr with hr | hr
          · exact hdone r hr (List.mem_cons_of_mem _ hmem)
          · rw [List.mem_singleton.mp hr] at hmem
            exact hnodup.1 hmem
      · intro r hr heq
        exact hdone r hr (heq ▸ List.mem_cons_self)
      · intro r hr heq
        obtain ⟨d', hd', rfl⟩ := List.mem_map.mp hr
        have hd : d' = d := heq
        exact hnodup.1 (hd ▸ List.mem_append_left _ hd')

/-! ## Windows of the log -/

section Runs

variable {parse : String → Option Int} {log : StakeLog} {boundaryDay : Int}
  {seed : StakeSnapshotState}

theorem window_ids (txs : List StakeTransaction) (fromTs toTs : Int)
    (h : (txs.map StakeTransaction.txId).Nodup) :
    ((window txs fromTs toTs).map StakeTransaction.txId).Nodup :=
  h.sublist (List.filter_sublist.map _)

theorem cursorTimestamp_mem {c : Nat} {ts : Int}
    (h : loadStakeSnapshotCursorTimestamp (log.viewAt c) = .ok ts) :
    ∃ b ∈ log.blocks, b.height ≤ c ∧ b.timestampUnixSeconds = ts := by
  unfold loadStakeSnapshotCursorTimestamp at h
  split at h
  · next b hb =>
      cases h
      have hmem := List.mem_of_mem_filter (List.argmax_mem hb)
      obtain ⟨hlog, hc⟩ := List.mem_filter.mp hmem
      exact ⟨b, hlog, of_decide_eq_true hc, rfl⟩
  · cases h

/-- Before the cursor's time nothing is missing. -/
theorem window_viewAt {c : Nat} {ts : Int}
    (h : loadStakeSnapshotCursorTimestamp (log.viewAt c) = .ok ts)
    {fromTs toTs : Int} (hto : toTs < ts) :
    window (log.viewAt c).transactions fromTs toTs =
      window log.transactions fromTs toTs := by
  obtain ⟨b, hb, hbc, rfl⟩ := cursorTimestamp_mem h
  rw [window, StakeLog.viewAt, List.filter_filter]
  refine List.filter_congr fun tx htx => ?_
  by_cases hc : tx.blockHeight ≤ c
  · simp [hc]
  · have hclock := log.clock b hb tx htx (by omega)
    have hlate : ¬ tx.timestampUnixSeconds ≤ toTs := by omega
    simp [hc, hlate]

theorem window_append (txs : List StakeTransaction)
    (htime : txs.Pairwise fun a b =>
      a.timestampUnixSeconds ≤ b.timestampUnixSeconds)
    {fromTs cut toTs : Int} (hfrom : fromTs ≤ cut) (hto : cut ≤ toTs + 1) :
    window txs fromTs (cut - 1) ++ window txs cut toTs =
      window txs fromTs toTs := by
  refine filter_append_filter htime cut ?_ ?_
  · intro tx _
    rw [Bool.eq_iff_iff]
    simp only [Bool.and_eq_true, decide_eq_true_eq]
    omega
  · intro tx _
    rw [Bool.eq_iff_iff]
    simp only [Bool.and_eq_true, decide_eq_true_eq]
    omega

theorem window_filter_le (txs : List StakeTransaction) (fromTs toTs : Int)
    (bound : Int) :
    (window txs fromTs toTs).filter
        (fun tx => decide (tx.timestampUnixSeconds ≤ bound)) =
      window txs fromTs (min toTs bound) := by
  rw [window, List.filter_filter]
  refine List.filter_congr fun tx _ => ?_
  rw [Bool.eq_iff_iff]
  simp only [Bool.and_eq_true, decide_eq_true_eq]
  omega

/-! ## The states of the one fold -/

/-- The fold's state over the transactions from the day after the seed up to
a time. -/
def stateBy (parse : String → Option Int) (boundaryDay : Int)
    (seed : StakeSnapshotState) (txs : List StakeTransaction) (toTs : Int) :
    StakeSnapshotState :=
  stateAfter seed
    ((window txs (boundaryDay + secondsPerDay) toTs).map (txRows parse))

/-- At the end of the seed day nothing has happened. -/
theorem stateBy_seed (txs : List StakeTransaction) :
    stateBy parse boundaryDay seed txs (boundaryDay + secondsPerDay - 1) =
      seed := by
  have hnil : window txs (boundaryDay + secondsPerDay)
      (boundaryDay + secondsPerDay - 1) = [] := by
    refine List.filter_eq_nil_iff.mpr fun tx _ => ?_
    simp only [Bool.and_eq_true, decide_eq_true_eq]
    omega
  rw [stateBy, hnil]
  rfl

/-- A fold taken up again where it stopped. -/
theorem stateBy_resume (txs : List StakeTransaction)
    (htime : txs.Pairwise fun a b =>
      a.timestampUnixSeconds ≤ b.timestampUnixSeconds)
    {cut toTs : Int} (hfrom : boundaryDay + secondsPerDay ≤ cut)
    (hto : cut ≤ toTs + 1) :
    stateAfter (stateBy parse boundaryDay seed txs (cut - 1))
        ((window txs cut toTs).map (txRows parse)) =
      stateBy parse boundaryDay seed txs toTs := by
  rw [stateBy, stateBy, ← stateAfter_append, ← List.map_append,
    window_append txs htime hfrom hto]

theorem consistent_stateBy (hseed : Consistent seed)
    (txs : List StakeTransaction) (toTs : Int) :
    Consistent (stateBy parse boundaryDay seed txs toTs) :=
  hseed.replayGroups (r := (seed, .none)) false _

/-- The state behind a day's point when the cursor stands at `c` with time
`ts`: the day's own end for a closed day, the cursor for the open one. -/
def curveState (parse : String → Option Int) (log : StakeLog)
    (boundaryDay : Int) (seed : StakeSnapshotState) (c : Nat) (ts : Int)
    (day : Int) : StakeSnapshotState :=
  if day < stakeSnapshotDayStart ts then
    stateBy parse boundaryDay seed log.transactions (stakeSnapshotDayEnd day)
  else stateBy parse boundaryDay seed (log.viewAt c).transactions ts

/-- Whichever day a run starts at, its window's points are those of the one
fold. -/
theorem stateAfter_window {c : Nat} {ts : Int}
    (hcursor : loadStakeSnapshotCursorTimestamp (log.viewAt c) = .ok ts)
    {start : Int} (hfrom : boundaryDay + secondsPerDay ≤ start)
    {day : Int} (hstart : start ≤ day) (hday : day ≤ stakeSnapshotDayStart ts)
    (hgrid : day % secondsPerDay = 0) :
    stateAfter (stateBy parse boundaryDay seed log.transactions (start - 1))
        (((window (log.viewAt c).transactions start ts).filter fun tx =>
          decide (tx.timestampUnixSeconds ≤ stakeSnapshotDayEnd day)).map
            (txRows parse)) =
      curveState parse log boundaryDay seed c ts day := by
  have hts : stakeSnapshotDayStart ts ≤ ts ∧
      ts ≤ stakeSnapshotDayEnd (stakeSnapshotDayStart ts) := by
    simp only [stakeSnapshotDayStart, stakeSnapshotDayEnd, secondsPerDay]
    omega
  have hgap : day < stakeSnapshotDayStart ts →
      stakeSnapshotDayEnd day < stakeSnapshotDayStart ts := by
    simp only [stakeSnapshotDayStart, stakeSnapshotDayEnd,
      secondsPerDay] at hgrid ⊢
    omega
  have hend : day ≤ stakeSnapshotDayEnd day + 1 := by
    simp only [stakeSnapshotDayEnd, secondsPerDay]
    omega
  rw [window_filter_le, curveState]
  split
  · next hclosed =>
      have hmin : min ts (stakeSnapshotDayEnd day) =
          stakeSnapshotDayEnd day := by
        have := hgap hclosed
        omega
      have hbefore : stakeSnapshotDayEnd day < ts := by
        have := hgap hclosed
        omega
      rw [hmin, window_viewAt hcursor hbefore]
      exact stateBy_resume _ log.timeOrder hfrom (by omega)
  · next hopen =>
      have hlast : day = stakeSnapshotDayStart ts := by omega
      have hmin : min ts (stakeSnapshotDayEnd day) = ts := by
        rw [hlast]
        omega
      have hview : stateBy parse boundaryDay seed log.transactions
          (start - 1) = stateBy parse boundaryDay seed
            (log.viewAt c).transactions (start - 1) := by
        rw [stateBy, stateBy, window_viewAt hcursor (by omega)]
      rw [hmin, hview]
      exact stateBy_resume _ (log.viewAt_timeOrder c) hfrom (by omega)

/-! ## The invariant -/

/-- The tables hold the curve as built when the cursor stood at `c` with
time `ts`. -/
structure Curve (parse : String → Option Int) (log : StakeLog)
    (boundaryDay : Int) (seed : StakeSnapshotState) (t : StakeTables)
    (c : Nat) (ts : Int) : Prop where
  cursor : loadStakeSnapshotCursorTimestamp (log.viewAt c) = .ok ts
  beyond : boundaryDay < stakeSnapshotDayStart ts
  dailies : t.dailies =
    curveRows (curveState parse log boundaryDay seed c ts)
      (daysBetween (boundaryDay + secondsPerDay)
        (stakeSnapshotDayStart ts + secondsPerDay))
  resume : loadStakeSnapshotResume parse t = .ok
    (if stakeSnapshotDayStart ts = boundaryDay + secondsPerDay then none
    else some (stakeSnapshotDayStart ts - secondsPerDay,
      curveState parse log boundaryDay seed c ts
        (stakeSnapshotDayStart ts - secondsPerDay)))
  loads : ∀ tx ∈ window (log.viewAt c).transactions
    (boundaryDay + secondsPerDay) ts, Loads parse tx

/-- A day after the seed day, counted from the first one. -/
theorem day_index {day : Int} (haligned : boundaryDay % secondsPerDay = 0)
    (hday : day % secondsPerDay = 0) (hbeyond : boundaryDay < day) :
    ∃ n : Nat, day = boundaryDay + secondsPerDay + secondsPerDay * n := by
  refine ⟨((day - boundaryDay - secondsPerDay) / secondsPerDay).toNat, ?_⟩
  simp only [secondsPerDay] at *
  omega

theorem dayStart_aligned (ts : Int) :
    stakeSnapshotDayStart ts % secondsPerDay = 0 := by
  simp only [stakeSnapshotDayStart, secondsPerDay]
  omega

/-- The points of a window that starts at a day of the fold. -/
theorem build_window {c : Nat} {ts : Int}
    (hcursor : loadStakeSnapshotCursorTimestamp (log.viewAt c) = .ok ts)
    (haligned : boundaryDay % secondsPerDay = 0) {a k : Nat}
    (hk : stakeSnapshotDayStart ts =
      boundaryDay + secondsPerDay + secondsPerDay * k) (hak : a ≤ k)
    {start : Int}
    (hstart : start = boundaryDay + secondsPerDay + secondsPerDay * a)
    {d : Int} (hd : d ∈ daysBetween start
      (stakeSnapshotDayStart ts + secondsPerDay)) :
    stateAfter (stateBy parse boundaryDay seed log.transactions (start - 1))
        (seenBy (txGroups ((window (log.viewAt c).transactions start
          ts).flatMap (txRows parse))) d) =
      curveState parse log boundaryDay seed c ts d := by
  have hto : stakeSnapshotDayStart ts + secondsPerDay =
      start + secondsPerDay * ((k - a + 1 : Nat) : Int) := by
    simp only [secondsPerDay] at *
    omega
  rw [hto] at hd
  obtain ⟨i, hi, rfl⟩ := mem_daysBetween hd
  rw [stateAfter_seenBy (window_ids _ _ _ (log.viewAt_distinctIds c))
    ((log.viewAt_timeOrder c).filter _)]
  refine stateAfter_window hcursor ?_ ?_ ?_ ?_ <;>
    simp only [secondsPerDay] at * <;> omega

/-- The window's rows in front of what the earlier runs have written. -/
theorem upsert_window {f g : Int → StakeSnapshotState} {fromDay : Int}
    {a b k : Nat} (hab : a ≤ b) (hbk : b ≤ k + 1)
    (hfg : ∀ d, d < fromDay + secondsPerDay * a → f d = g d) :
    ((daysBetween (fromDay + secondsPerDay * a)
        (fromDay + secondsPerDay * (k + 1 : Nat))).map
          fun d => dailyPoint d (g d)).foldl upsertDailyPoint
        (curveRows f (daysBetween fromDay (fromDay + secondsPerDay * b))) =
      curveRows g
        (daysBetween fromDay (fromDay + secondsPerDay * (k + 1 : Nat))) := by
  obtain ⟨m, rfl⟩ := Nat.exists_eq_add_of_le hab
  obtain ⟨n, hn⟩ := Nat.exists_eq_add_of_le hbk
  have hnew : daysBetween (fromDay + secondsPerDay * a)
      (fromDay + secondsPerDay * (k + 1 : Nat)) =
      daysBetween (fromDay + secondsPerDay * a)
          (fromDay + secondsPerDay * a + secondsPerDay * m) ++
        daysBetween (fromDay + secondsPerDay * a + secondsPerDay * m)
          (fromDay + secondsPerDay * a + secondsPerDay * m +
            secondsPerDay * n) := by
    rw [daysBetween_append]
    congr 1
    simp only [secondsPerDay]
    omega
  have hall : daysBetween fromDay (fromDay + secondsPerDay * (k + 1 : Nat)) =
      daysBetween fromDay (fromDay + secondsPerDay * a) ++
        daysBetween (fromDay + secondsPerDay * a)
          (fromDay + secondsPerDay * (k + 1 : Nat)) := by
    have hto : fromDay + secondsPerDay * ((k + 1 : Nat) : Int) =
        fromDay + secondsPerDay * a + secondsPerDay * ((m + n : Nat) : Int) := by
      simp only [secondsPerDay]
      omega
    rw [hto, daysBetween_append]
    congr 1
    simp only [secondsPerDay]
    omega
  have hordered := daysBetween_ordered fromDay
    (fromDay + secondsPerDay * (k + 1 : Nat))
  rw [hall] at hordered
  obtain ⟨-, hnodup, hbefore⟩ := List.pairwise_append.mp hordered
  have hdone : curveRows f (daysBetween fromDay (fromDay + secondsPerDay * a)) =
      curveRows g (daysBetween fromDay (fromDay + secondsPerDay * a)) := by
    refine List.map_congr_left fun d hd => ?_
    obtain ⟨i, hi, rfl⟩ := mem_daysBetween hd
    rw [hfg]
    simp only [secondsPerDay]
    omega
  rw [hall, curveRows_append, ← hdone, hnew, ← upsert_days f g]
  · rw [← daysBetween_append, curveRows_append]
  · intro r hr hmem
    obtain ⟨d, hd, rfl⟩ := List.mem_map.mp hr
    rw [← hnew] at hmem
    exact absurd (hbefore d hd d hmem) (lt_irrefl d)
  · rw [← hnew]
    exact hnodup.imp fun h => ne_of_lt h

theorem mem_window {txs : List StakeTransaction} {fromTs toTs : Int}
    {tx : StakeTransaction} : tx ∈ window txs fromTs toTs ↔
      tx ∈ txs ∧ fromTs ≤ tx.timestampUnixSeconds ∧
        tx.timestampUnixSeconds ≤ toTs := by
  simp only [window, List.mem_filter, Bool.and_eq_true, decide_eq_true_eq]

/-- A building run leaves the curve of its own cursor. The window starts at
the `a`-th day after the seed, the rows of `b` days are there already, and
the cursor stands in day `k`. -/
theorem buildForward_curve
    (hparse : ∀ n : Int, parse (toString n) = some n)
    (hseed : Consistent seed) (haligned : boundaryDay % secondsPerDay = 0)
    {c : Nat} {ts : Int}
    (hcursor : loadStakeSnapshotCursorTimestamp (log.viewAt c) = .ok ts)
    {t t' : StakeTables} {report : StakeForwardBuildReport} {masters : Int}
    {resumed : Option Int} {f : Int → StakeSnapshotState} {a b k : Nat}
    (hk : stakeSnapshotDayStart ts =
      boundaryDay + secondsPerDay + secondsPerDay * k)
    (hab : a ≤ b) (hbk : b ≤ k) {start : Int}
    (hstart : start = boundaryDay + secondsPerDay + secondsPerDay * a)
    (hdailies : t.dailies = curveRows f
      (daysBetween (boundaryDay + secondsPerDay)
        (boundaryDay + secondsPerDay + secondsPerDay * b)))
    (hf : ∀ d, d < start → f d = curveState parse log boundaryDay seed c ts d)
    (hloads : ∀ tx ∈ window log.transactions (boundaryDay + secondsPerDay)
      (start - 1), Loads parse tx)
    (hresume : a < k ∨ k = 0 ∧ t.resume = none)
    (h : buildForward parse (log.viewAt c) t boundaryDay masters ts
      (start, stateBy parse boundaryDay seed log.transactions (start - 1),
        resumed) = .ok (report, t')) :
    Curve parse log boundaryDay seed t' c ts ∧
      t'.boundaryState = t.boundaryState ∧
      t'.boundaryBalances = t.boundaryBalances ∧ report.validated = true := by
  unfold buildForward at h
  dsimp only at h
  split at h
  · cases h
  · next rows an hload =>
      obtain ⟨rfl, hwindow⟩ := (loadEvents_ok_iff (log.viewAt_ordered c)
        start ts .none rows).mp ⟨an, hload⟩
      obtain ⟨hpoints, hclosed⟩ := build_eq
        (stateBy parse boundaryDay seed log.transactions (start - 1))
        ((window (log.viewAt c).transactions start ts).flatMap (txRows parse))
        start (stakeSnapshotDayStart ts + secondsPerDay) an
      -- the states of the window are those of the one fold
      have hstate : ∀ d ∈ daysBetween start
          (stakeSnapshotDayStart ts + secondsPerDay),
          stateAfter (stateBy parse boundaryDay seed log.transactions
            (start - 1)) (seenBy (txGroups ((window
              (log.viewAt c).transactions start ts).flatMap
                (txRows parse))) d) =
            curveState parse log boundaryDay seed c ts d := by
        intro d hd
        exact build_window hcursor haligned hk (by omega) hstart hd
      have hpoints' : (buildStakeSnapshotDailyPoints
          (stateBy parse boundaryDay seed log.transactions (start - 1))
          ((window (log.viewAt c).transactions start ts).flatMap
            (txRows parse)) start
          (stakeSnapshotDayStart ts + secondsPerDay) an).1 =
          (daysBetween start (stakeSnapshotDayStart ts + secondsPerDay)).map
            fun d => dailyPoint d
              (curveState parse log boundaryDay seed c ts d) := by
        rw [hpoints]
        refine List.map_congr_left fun d hd => ?_
        rw [hstate d hd]
      have hto : stakeSnapshotDayStart ts + secondsPerDay =
          boundaryDay + secondsPerDay +
            secondsPerDay * ((k + 1 : Nat) : Int) := by
        simp only [secondsPerDay] at *
        omega
      have hcurve : (buildStakeSnapshotDailyPoints
          (stateBy parse boundaryDay seed log.transactions (start - 1))
          ((window (log.viewAt c).transactions start ts).flatMap
            (txRows parse)) start
          (stakeSnapshotDayStart ts + secondsPerDay) an).1.foldl
            upsertDailyPoint t.dailies =
          curveRows (curveState parse log boundaryDay seed c ts)
            (daysBetween (boundaryDay + secondsPerDay)
              (stakeSnapshotDayStart ts + secondsPerDay)) := by
        rw [hpoints', hdailies, hto, hstart]
        exact upsert_window hab (by omega) (hstart ▸ hf)
      have hloads' : ∀ tx ∈ window (log.viewAt c).transactions
          (boundaryDay + secondsPerDay) ts, Loads parse tx := by
        intro tx htx
        obtain ⟨hmem, hge, hle⟩ := mem_window.mp htx
        by_cases hlate : start ≤ tx.timestampUnixSeconds
        · exact hwindow tx (mem_window.mpr ⟨hmem, hlate, hle⟩)
        · exact hloads tx (mem_window.mpr
            ⟨List.mem_of_mem_filter hmem, hge, by omega⟩)
      have hbeyond : boundaryDay < stakeSnapshotDayStart ts := by
        simp only [secondsPerDay] at *
        omega
      rw [hclosed] at h
      rcases hresume with hlt | ⟨hzero, hnone⟩
      · -- two days or more: the last but one is closed and saved
        obtain ⟨n, rfl⟩ : ∃ n, k = a + n + 1 := ⟨k - a - 1, by omega⟩
        have hto' : stakeSnapshotDayStart ts + secondsPerDay =
            start + secondsPerDay * ((n + 2 : Nat) : Int) := by
          simp only [secondsPerDay] at *
          omega
        have hday : start + secondsPerDay * (n : Int) =
            stakeSnapshotDayStart ts - secondsPerDay := by
          simp only [secondsPerDay] at *
          omega
        have hmem : stakeSnapshotDayStart ts - secondsPerDay ∈
            daysBetween start (stakeSnapshotDayStart ts + secondsPerDay) := by
          rw [hto', daysBetween_eq, ← hday]
          exact List.mem_map.mpr ⟨n, List.mem_range.mpr (by omega), rfl⟩
        rw [hto', closedAfter_daysBetween, ← hto', hday, hstate _ hmem] at h
        cases h
        refine ⟨⟨hcursor, hbeyond, hcurve, ?_, hloads'⟩, rfl, rfl, rfl⟩
        rw [if_neg (by simp only [secondsPerDay] at *; omega)]
        refine loadResume_saveResume hparse _ _ ?_
        unfold curveState
        split <;> exact consistent_stateBy hseed _ _
      · -- the first day after the seed: nothing is closed yet
        have hfirst : a = 0 := by omega
        have hsame : stakeSnapshotDayStart ts = start := by
          rw [hk, hstart, hzero, hfirst]
        have hnone' : ∀ state, closedAfter
            (stakeSnapshotDayStart ts + secondsPerDay) state none
            (daysBetween start (stakeSnapshotDayStart ts + secondsPerDay)) =
              none := by
          intro state
          rw [hsame]
          exact closedAfter_oneDay state start
        rw [hnone'] at h
        cases h
        refine ⟨⟨hcursor, hbeyond, hcurve, ?_, hloads'⟩, rfl, rfl, rfl⟩
        rw [if_pos (by rw [hk, hzero]; simp)]
        simp only [loadStakeSnapshotResume, hnone]

/-! ## Runs -/

/-- What holds of the tables between runs. -/
structure Reached (parse : String → Option Int) (log : StakeLog)
    (boundaryDay : Int) (seed : StakeSnapshotState) (t : StakeTables) :
    Prop where
  loads : loadStakeBoundarySlice parse t = .ok (some (boundaryDay, seed))
  curve : t.dailies = [] ∧ t.resume = none ∨
    ∃ c ts, Curve parse log boundaryDay seed t c ts

theorem Seeded.reached {t : StakeTables}
    (h : Seeded parse t boundaryDay seed) :
    Reached parse log boundaryDay seed t :=
  ⟨h.loads, Or.inl ⟨h.noCurve, h.noResume⟩⟩

theorem loadBoundary_congr {t t' : StakeTables}
    (hstate : t'.boundaryState = t.boundaryState)
    (hbalances : t'.boundaryBalances = t.boundaryBalances) :
    loadStakeBoundarySlice parse t' = loadStakeBoundarySlice parse t := by
  unfold loadStakeBoundarySlice
  rw [hstate, hbalances]

theorem Curve.dates {t : StakeTables} {c : Nat} {ts : Int}
    (h : Curve parse log boundaryDay seed t c ts) :
    t.dailies.map (fun r => r.point.dateUnixSeconds) =
      daysBetween (boundaryDay + secondsPerDay)
        (stakeSnapshotDayStart ts + secondsPerDay) := by
  rw [h.dailies, curveRows, List.map_map]
  exact List.map_id _

theorem Curve.lastBuilt {t : StakeTables} {c : Nat} {ts : Int}
    (haligned : boundaryDay % secondsPerDay = 0)
    (h : Curve parse log boundaryDay seed t c ts) :
    loadMaxProjectedDailyDay t = some (stakeSnapshotDayStart ts) := by
  obtain ⟨k, hk⟩ := day_index haligned (dayStart_aligned ts) h.beyond
  have hto : stakeSnapshotDayStart ts + secondsPerDay =
      boundaryDay + secondsPerDay + secondsPerDay * ((k + 1 : Nat) : Int) := by
    simp only [secondsPerDay] at *
    omega
  have hall : t.dailies.filter
      (fun r => r.source == stakeSnapshotProjectorSource) = t.dailies := by
    refine List.filter_eq_self.mpr fun r hr => ?_
    rw [h.dailies] at hr
    obtain ⟨d, -, rfl⟩ := List.mem_map.mp hr
    exact beq_self_eq_true _
  rw [loadMaxProjectedDailyDay, hall, h.dates, List.max?_eq_some_iff, hto]
  refine ⟨?_, ?_⟩
  · rw [daysBetween_eq, hk]
    exact List.mem_map.mpr ⟨k, List.mem_range.mpr (by omega), rfl⟩
  · intro d hd
    obtain ⟨i, hi, rfl⟩ := mem_daysBetween hd
    rw [hk]
    simp only [secondsPerDay]
    omega

theorem curveState_closed {c : Nat} {ts day : Int}
    (h : day < stakeSnapshotDayStart ts) :
    curveState parse log boundaryDay seed c ts day = stateBy parse boundaryDay
      seed log.transactions (stakeSnapshotDayEnd day) := if_pos h

/-- Where the next building run starts: at a day of the one fold, with its
state, above nothing that has not been loaded before. -/
theorem Curve.replayStart {t : StakeTables} {c : Nat} {ts : Int}
    (haligned : boundaryDay % secondsPerDay = 0)
    (h : Curve parse log boundaryDay seed t c ts)
    {resume : Option (Int × StakeSnapshotState)}
    (hresume : loadStakeSnapshotResume parse t = .ok resume) :
    ∃ (a m : Nat) (resumed : Option Int), a ≤ m ∧
      stakeSnapshotDayStart ts =
        boundaryDay + secondsPerDay + secondsPerDay * m ∧
      replayStart boundaryDay seed resume
          (some (stakeSnapshotDayStart ts)) =
        (boundaryDay + secondsPerDay + secondsPerDay * a,
          stateBy parse boundaryDay seed log.transactions
            (boundaryDay + secondsPerDay + secondsPerDay * a - 1),
          resumed) := by
  obtain ⟨m, hm⟩ := day_index haligned (dayStart_aligned ts) h.beyond
  rw [h.resume] at hresume
  cases hresume
  by_cases hfirst : stakeSnapshotDayStart ts = boundaryDay + secondsPerDay
  · refine ⟨0, m, none, Nat.zero_le m, hm, ?_⟩
    rw [if_pos hfirst]
    simp only [Ref.replayStart, Int.natCast_zero, Int.mul_zero, Int.add_zero,
      stateBy_seed]
  · refine ⟨m, m, some (stakeSnapshotDayStart ts - secondsPerDay), le_refl m,
      hm, ?_⟩
    have haccept : stakeSnapshotDayStart ts - secondsPerDay + secondsPerDay =
        stakeSnapshotDayStart ts ∧
        boundaryDay < stakeSnapshotDayStart ts - secondsPerDay := by
      simp only [secondsPerDay] at *
      omega
    have hend : stakeSnapshotDayEnd
        (stakeSnapshotDayStart ts - secondsPerDay) =
          stakeSnapshotDayStart ts - 1 := by
      simp only [stakeSnapshotDayEnd, secondsPerDay]
      omega
    rw [if_neg hfirst, Ref.replayStart, if_pos haccept, haccept.1, ← hm,
      curveState_closed (by simp only [secondsPerDay]; omega), hend]

/-- What a run that returns did. -/
theorem project_cases {view : ChainView} {t t' : StakeTables}
    {report : StakeForwardBuildReport}
    (hloads : loadStakeBoundarySlice parse t = .ok (some (boundaryDay, seed)))
    (h : projectStakeSnapshotsForwardInTx parse view t = .ok (report, t')) :
    report.validated = false ∧ t' = t ∨
    ∃ ts resume, loadStakeSnapshotCursorTimestamp view = .ok ts ∧
      boundaryDay < stakeSnapshotDayStart ts ∧
      (∀ last, loadMaxProjectedDailyDay t = some last →
        last < stakeSnapshotDayStart ts) ∧
      loadStakeSnapshotResume parse t = .ok resume ∧
      buildForward parse view t boundaryDay seed.mastersCount ts
        (replayStart boundaryDay seed resume (loadMaxProjectedDailyDay t)) =
          .ok (report, t') := by
  unfold projectStakeSnapshotsForwardInTx at h
  rw [hloads] at h
  dsimp only at h
  split at h
  · cases h
  · next ts hcursor =>
      split at h
      · cases h
        exact Or.inl ⟨rfl, rfl⟩
      · next hbeyond =>
          split at h
          · cases h
            exact Or.inl ⟨rfl, rfl⟩
          · next hnew =>
              split at h
              · cases h
              · next resume hresume =>
                  refine Or.inr ⟨ts, resume, hcursor, by omega, ?_, hresume, h⟩
                  intro last hlast
                  rw [hlast] at hnew
                  simpa using hnew

/-- The first building run, from the seed. -/
theorem buildForward_first
    (hparse : ∀ n : Int, parse (toString n) = some n)
    (hseed : Consistent seed) (haligned : boundaryDay % secondsPerDay = 0)
    {c : Nat} {ts : Int}
    (hcursor : loadStakeSnapshotCursorTimestamp (log.viewAt c) = .ok ts)
    (hbeyond : boundaryDay < stakeSnapshotDayStart ts) {t t' : StakeTables}
    {report : StakeForwardBuildReport} {masters : Int}
    (hdailies : t.dailies = []) (hnone : t.resume = none)
    (h : buildForward parse (log.viewAt c) t boundaryDay masters ts
      (boundaryDay + secondsPerDay, seed, none) = .ok (report, t')) :
    Curve parse log boundaryDay seed t' c ts ∧
      t'.boundaryState = t.boundaryState ∧
      t'.boundaryBalances = t.boundaryBalances ∧ report.validated = true := by
  obtain ⟨k, hk⟩ := day_index haligned (dayStart_aligned ts) hbeyond
  have h' : buildForward parse (log.viewAt c) t boundaryDay masters ts
      (boundaryDay + secondsPerDay, stateBy parse boundaryDay seed
        log.transactions (boundaryDay + secondsPerDay - 1), none) =
          .ok (report, t') := by
    rw [stateBy_seed]
    exact h
  have hempty : daysBetween (boundaryDay + secondsPerDay)
      (boundaryDay + secondsPerDay + secondsPerDay * (0 : Nat)) = [] := by
    rw [daysBetween_eq]
    rfl
  refine buildForward_curve (a := 0) (b := 0)
    (f := curveState parse log boundaryDay seed c ts) hparse hseed haligned
    hcursor hk (le_refl 0) (Nat.zero_le k) (by simp) ?_ (fun _ _ => rfl) ?_ ?_
    h'
  · rw [hdailies, hempty]
    rfl
  · intro tx htx
    have := (mem_window.mp htx).2
    omega
  · rcases Nat.eq_zero_or_pos k with hzero | hpos
    · exact Or.inr ⟨hzero, hnone⟩
    · exact Or.inl hpos

/-- A later building run, from the persisted state or from the seed. -/
theorem buildForward_next
    (hparse : ∀ n : Int, parse (toString n) = some n)
    (hseed : Consistent seed) (haligned : boundaryDay % secondsPerDay = 0)
    {c c0 : Nat} {ts ts0 : Int}
    (hcursor : loadStakeSnapshotCursorTimestamp (log.viewAt c) = .ok ts)
    {t t' : StakeTables} (hc : Curve parse log boundaryDay seed t c0 ts0)
    (hnew : stakeSnapshotDayStart ts0 < stakeSnapshotDayStart ts)
    {report : StakeForwardBuildReport} {masters : Int}
    {resume : Option (Int × StakeSnapshotState)}
    (hresume : loadStakeSnapshotResume parse t = .ok resume)
    (h : buildForward parse (log.viewAt c) t boundaryDay masters ts
      (replayStart boundaryDay seed resume
        (some (stakeSnapshotDayStart ts0))) = .ok (report, t')) :
    Curve parse log boundaryDay seed t' c ts ∧
      t'.boundaryState = t.boundaryState ∧
      t'.boundaryBalances = t.boundaryBalances ∧ report.validated = true := by
  obtain ⟨a, m, resumed, ham, hm, hstart⟩ := hc.replayStart haligned hresume
  obtain ⟨k, hk⟩ := day_index haligned (dayStart_aligned ts)
    (lt_trans hc.beyond hnew)
  rw [hstart] at h
  have hmk : m < k := by
    simp only [secondsPerDay] at *
    omega
  have hstart_le : boundaryDay + secondsPerDay + secondsPerDay * (a : Int) ≤
      stakeSnapshotDayStart ts0 := by
    simp only [secondsPerDay] at *
    omega
  have hts0 : stakeSnapshotDayStart ts0 ≤ ts0 := by
    simp only [stakeSnapshotDayStart, secondsPerDay]
    omega
  refine buildForward_curve (a := a) (b := m + 1)
    (f := curveState parse log boundaryDay seed c0 ts0) hparse hseed haligned
    hcursor hk (by omega) (by omega) rfl ?_ ?_ ?_ (Or.inl (by omega)) h
  · have hto : stakeSnapshotDayStart ts0 + secondsPerDay = boundaryDay +
        secondsPerDay + secondsPerDay * ((m + 1 : Nat) : Int) := by
      simp only [secondsPerDay] at *
      omega
    rw [hc.dailies, hto]
  · -- the days before the window are closed at both cursors
    intro d hd
    rw [curveState_closed (by omega), curveState_closed (by omega)]
  · intro tx htx
    rw [← window_viewAt hc.cursor (by omega)] at htx
    obtain ⟨hmem, hge, hle⟩ := mem_window.mp htx
    exact hc.loads tx (mem_window.mpr ⟨hmem, hge, by omega⟩)

/-- One run: it builds the curve of its cursor, or changes nothing. -/
theorem Reached.run (hparse : ∀ n : Int, parse (toString n) = some n)
    (hseed : Consistent seed) (haligned : boundaryDay % secondsPerDay = 0)
    {t t' : StakeTables} {c : Nat} {report : StakeForwardBuildReport}
    (hreached : Reached parse log boundaryDay seed t)
    (h : projectStakeSnapshotsForwardInTx parse (log.viewAt c) t =
      .ok (report, t')) :
    report.validated = false ∧ t' = t ∨
    report.validated = true ∧ Reached parse log boundaryDay seed t' ∧
      ∃ ts, Curve parse log boundaryDay seed t' c ts := by
  rcases project_cases hreached.loads h with hskip |
    ⟨ts, resume, hcursor, hbeyond, hnew, hresume, hbuild⟩
  · exact Or.inl hskip
  · right
    have hbuilt : Curve parse log boundaryDay seed t' c ts ∧
        t'.boundaryState = t.boundaryState ∧
        t'.boundaryBalances = t.boundaryBalances ∧
        report.validated = true := by
      rcases hreached.curve with ⟨hdailies, hnone⟩ | ⟨c0, ts0, hc⟩
      · have hmax : loadMaxProjectedDailyDay t = none := by
          simp [loadMaxProjectedDailyDay, hdailies]
        simp only [loadStakeSnapshotResume, hnone] at hresume
        cases hresume
        rw [hmax] at hbuild
        exact buildForward_first hparse hseed haligned hcursor hbeyond
          hdailies hnone hbuild
      · have hmax := hc.lastBuilt haligned
        rw [hmax] at hbuild
        exact buildForward_next hparse hseed haligned hcursor hc
          (hnew _ hmax) hresume hbuild
    obtain ⟨hcurve, hstate, hbalances, hvalid⟩ := hbuilt
    refine ⟨hvalid, ⟨?_, Or.inr ⟨c, ts, hcurve⟩⟩, ts, hcurve⟩
    rw [loadBoundary_congr hstate hbalances, hreached.loads]

/-- A run builds as soon as the cursor has reached a new day and the events
can be loaded. -/
theorem Reached.run_builds {t : StakeTables} {c : Nat} {ts : Int}
    (hreached : Reached parse log boundaryDay seed t)
    (hcursor : loadStakeSnapshotCursorTimestamp (log.viewAt c) = .ok ts)
    (hbeyond : boundaryDay < stakeSnapshotDayStart ts)
    (hnew : ∀ last, loadMaxProjectedDailyDay t = some last →
      last < stakeSnapshotDayStart ts)
    (hloads : ∀ tx ∈ log.transactions, Loads parse tx) :
    ∃ report t', projectStakeSnapshotsForwardInTx parse (log.viewAt c) t =
      .ok (report, t') ∧ report.validated = true := by
  have hresume : ∃ resume, loadStakeSnapshotResume parse t = .ok resume := by
    rcases hreached.curve with ⟨-, hnone⟩ | ⟨c0, ts0, hc⟩
    · exact ⟨none, by simp only [loadStakeSnapshotResume, hnone]⟩
    · exact ⟨_, hc.resume⟩
  obtain ⟨resume, hresume⟩ := hresume
  have hgate : ¬ ((loadMaxProjectedDailyDay t).any fun last =>
      decide (stakeSnapshotDayStart ts ≤ last)) = true := by
    cases hmax : loadMaxProjectedDailyDay t with
    | none => simp
    | some last =>
        have := hnew last hmax
        simp only [Option.any_some, decide_eq_true_eq]
        omega
  obtain ⟨an, hload⟩ := (loadEvents_ok_iff (log.viewAt_ordered c)
    (replayStart boundaryDay seed resume (loadMaxProjectedDailyDay t)).1 ts
    .none _).mpr ⟨rfl, fun tx htx =>
      hloads tx (List.mem_of_mem_filter (mem_window.mp htx).1)⟩
  simp only [projectStakeSnapshotsForwardInTx, hreached.loads, hcursor,
    hresume, buildForward, hload]
  rw [if_neg (by omega), if_neg hgate]
  exact ⟨_, _, rfl, rfl⟩

/-- And it leaves the curve at the day of the cursor. -/
theorem Reached.lastBuilt_run (hparse : ∀ n : Int, parse (toString n) = some n)
    (hseed : Consistent seed) (haligned : boundaryDay % secondsPerDay = 0)
    {t : StakeTables} {c : Nat} {ts : Int}
    (hreached : Reached parse log boundaryDay seed t)
    (hcursor : loadStakeSnapshotCursorTimestamp (log.viewAt c) = .ok ts)
    (hbeyond : boundaryDay < stakeSnapshotDayStart ts)
    (hnew : ∀ last, loadMaxProjectedDailyDay t = some last →
      last < stakeSnapshotDayStart ts)
    (hloads : ∀ tx ∈ log.transactions, Loads parse tx) :
    let t' := projectRuns parse log t [c]
    Reached parse log boundaryDay seed t' ∧
      loadMaxProjectedDailyDay t' = some (stakeSnapshotDayStart ts) := by
  obtain ⟨report, t', hrun, hvalid⟩ :=
    hreached.run_builds hcursor hbeyond hnew hloads
  have hruns : projectRuns parse log t [c] = t' := by
    simp [projectRuns, projectStakeSnapshotsForward, hrun]
  rw [hruns]
  rcases hreached.run hparse hseed haligned hrun with hskip |
    ⟨-, hreached', ts', hcurve⟩
  · rw [hskip.1] at hvalid
    cases hvalid
  · have hts : ts' = ts := by
      have h := hcurve.cursor
      rw [hcursor] at h
      cases h
      rfl
    refine ⟨hreached', ?_⟩
    rw [← hts]
    exact hcurve.lastBuilt haligned

/-- Any schedule of runs. -/
theorem reached_projectRuns (hparse : ∀ n : Int, parse (toString n) = some n)
    (hseed : Consistent seed) (haligned : boundaryDay % secondsPerDay = 0)
    {t : StakeTables} (hreached : Reached parse log boundaryDay seed t)
    (cursors : List Nat) :
    Reached parse log boundaryDay seed (projectRuns parse log t cursors) := by
  induction cursors generalizing t with
  | nil => exact hreached
  | cons c cursors ih =>
      refine ih ?_
      simp only [projectStakeSnapshotsForward]
      split
      · next hrun =>
          rcases hreached.run hparse hseed haligned hrun with hskip | hbuilt
          · exact hskip.2 ▸ hreached
          · exact hbuilt.2.1
      · exact hreached

/-! ## The curve and the one fold -/

theorem oneFold_of_loads (view : ChainView)
    (hordered : view.transactions.Pairwise fun a b => txOrder a b = true)
    (hids : (view.transactions.map StakeTransaction.txId).Nodup)
    (htime : view.transactions.Pairwise fun a b =>
      a.timestampUnixSeconds ≤ b.timestampUnixSeconds)
    {toTs : Int} (hloads : ∀ tx ∈ window view.transactions
      (boundaryDay + secondsPerDay) toTs, Loads parse tx) (n : Nat) :
    oneFold parse view boundaryDay seed toTs
        (boundaryDay + secondsPerDay + secondsPerDay * (n + 1 : Nat)) = .ok
      ((List.range (n + 1)).map (fun i : Nat => dailyPoint
        (boundaryDay + secondsPerDay + secondsPerDay * i)
        (stateBy parse boundaryDay seed view.transactions (min toTs
          (stakeSnapshotDayEnd
            (boundaryDay + secondsPerDay + secondsPerDay * i))))),
      closedAfter (boundaryDay + secondsPerDay + secondsPerDay * (n + 1 : Nat))
        (fun day => stateBy parse boundaryDay seed view.transactions
          (min toTs (stakeSnapshotDayEnd day))) none
        (daysBetween (boundaryDay + secondsPerDay)
          (boundaryDay + secondsPerDay + secondsPerDay * (n + 1 : Nat)))) := by
  obtain ⟨an, hload⟩ := (loadEvents_ok_iff hordered
    (boundaryDay + secondsPerDay) toTs .none _).mpr ⟨rfl, hloads⟩
  have hstate : ∀ day, stateAfter seed (seenBy (txGroups ((window
      view.transactions (boundaryDay + secondsPerDay) toTs).flatMap
        (txRows parse))) day) =
      stateBy parse boundaryDay seed view.transactions
        (min toTs (stakeSnapshotDayEnd day)) := by
    intro day
    rw [stateAfter_seenBy (window_ids _ _ _ hids) (htime.filter _),
      window_filter_le, stateBy]
  obtain ⟨hpoints, hclosed⟩ := build_eq seed ((window view.transactions
    (boundaryDay + secondsPerDay) toTs).flatMap (txRows parse))
    (boundaryDay + secondsPerDay)
    (boundaryDay + secondsPerDay + secondsPerDay * (n + 1 : Nat)) an
  simp only [hstate] at hpoints hclosed
  simp only [oneFold, hload, hpoints, hclosed]
  rw [daysBetween_eq, List.map_map]
  rfl

/-- On the days before the cursor's all of the log has been loaded. -/
theorem Curve.loads_closed {t : StakeTables} {c : Nat} {ts : Int}
    (h : Curve parse log boundaryDay seed t c ts) {toTs : Int}
    (hto : toTs < ts) : ∀ tx ∈ window (log.entire c).transactions
      (boundaryDay + secondsPerDay) toTs, Loads parse tx := by
  intro tx htx
  change tx ∈ window log.transactions _ _ at htx
  rw [← window_viewAt h.cursor hto] at htx
  obtain ⟨hmem, hge, hle⟩ := mem_window.mp htx
  exact h.loads tx (mem_window.mpr ⟨hmem, hge, by omega⟩)

theorem dayEnd_lt {day ts : Int} (haligned : boundaryDay % secondsPerDay = 0)
    {i : Nat} (hi : day = boundaryDay + secondsPerDay + secondsPerDay * i)
    (hday : day < stakeSnapshotDayStart ts) : stakeSnapshotDayEnd day < ts := by
  simp only [stakeSnapshotDayStart, stakeSnapshotDayEnd, secondsPerDay] at *
  omega

/-- A closed day of the curve is the last day of the fold over all events up
to its end. -/
theorem Curve.closedDay (haligned : boundaryDay % secondsPerDay = 0)
    {t : StakeTables} {c : Nat} {ts : Int}
    (h : Curve parse log boundaryDay seed t c ts) {i : Nat} {day : Int}
    (hi : day = boundaryDay + secondsPerDay + secondsPerDay * i)
    (hday : day < stakeSnapshotDayStart ts) :
    ∃ points closed, oneFold parse (log.entire c) boundaryDay seed
        (stakeSnapshotDayEnd day) (day + secondsPerDay) =
          .ok (points, closed) ∧
      points.getLast? = some (dailyPoint day
        (curveState parse log boundaryDay seed c ts day)) := by
  have hto : day + secondsPerDay = boundaryDay + secondsPerDay +
      secondsPerDay * ((i + 1 : Nat) : Int) := by
    simp only [secondsPerDay] at *
    omega
  rw [hto, oneFold_of_loads (log.entire c) log.txOrdered
    log.distinctIds log.timeOrder (h.loads_closed (dayEnd_lt haligned hi hday))]
  refine ⟨_, _, rfl, ?_⟩
  rw [List.range_succ, List.map_append, List.map_singleton,
    List.getLast?_append, List.getLast?_singleton, ← hi,
    curveState_closed hday, min_self]
  rfl

/-- The open day of the curve is the last day of the fold over the events up
to the cursor. -/
theorem Curve.openDay (haligned : boundaryDay % secondsPerDay = 0)
    {t : StakeTables} {c : Nat} {ts : Int}
    (h : Curve parse log boundaryDay seed t c ts) :
    ∃ points closed, oneFold parse (log.viewAt c) boundaryDay seed ts
        (stakeSnapshotDayStart ts + secondsPerDay) = .ok (points, closed) ∧
      points.getLast? = some (dailyPoint (stakeSnapshotDayStart ts)
        (curveState parse log boundaryDay seed c ts
          (stakeSnapshotDayStart ts))) := by
  obtain ⟨k, hk⟩ := day_index haligned (dayStart_aligned ts) h.beyond
  have hto : stakeSnapshotDayStart ts + secondsPerDay = boundaryDay +
      secondsPerDay + secondsPerDay * ((k + 1 : Nat) : Int) := by
    simp only [secondsPerDay] at *
    omega
  have hmin : min ts (stakeSnapshotDayEnd (stakeSnapshotDayStart ts)) =
      ts := by
    simp only [stakeSnapshotDayStart, stakeSnapshotDayEnd, secondsPerDay]
    omega
  rw [hto, oneFold_of_loads (log.viewAt c) (log.viewAt_ordered c)
    (log.viewAt_distinctIds c) (log.viewAt_timeOrder c) h.loads]
  refine ⟨_, _, rfl, ?_⟩
  rw [List.range_succ, List.map_append, List.map_singleton,
    List.getLast?_append, List.getLast?_singleton, ← hk, hmin, curveState,
    if_neg (lt_irrefl _)]
  rfl

/-- The persisted state is the closed state of the fold over all events up
to the end of its day. -/
theorem Curve.resumeState (haligned : boundaryDay % secondsPerDay = 0)
    {t : StakeTables} {c : Nat} {ts : Int}
    (h : Curve parse log boundaryDay seed t c ts) {day : Int}
    {state : StakeSnapshotState}
    (hresume : loadStakeSnapshotResume parse t = .ok (some (day, state))) :
    ∃ points, oneFold parse (log.entire c) boundaryDay seed
        (stakeSnapshotDayEnd day) (day + 2 * secondsPerDay) =
          .ok (points, some (day, state)) := by
  rw [h.resume] at hresume
  split at hresume
  · cases hresume
  · next hfirst =>
      cases hresume
      have hbeyond := h.beyond
      obtain ⟨n, hn⟩ := day_index haligned
        (by simp only [stakeSnapshotDayStart, secondsPerDay]; omega)
        (by
          have := dayStart_aligned ts
          simp only [secondsPerDay] at *
          omega :
            boundaryDay < stakeSnapshotDayStart ts - secondsPerDay)
      have hday : stakeSnapshotDayStart ts - secondsPerDay <
          stakeSnapshotDayStart ts := by
        simp only [secondsPerDay]
        omega
      have hto : stakeSnapshotDayStart ts - secondsPerDay +
          2 * secondsPerDay = boundaryDay + secondsPerDay +
            secondsPerDay * ((n + 1 + 1 : Nat) : Int) := by
        simp only [secondsPerDay] at *
        omega
      rw [hto, oneFold_of_loads (log.entire c) log.txOrdered
        log.distinctIds log.timeOrder
        (h.loads_closed (dayEnd_lt haligned hn hday)),
        closedAfter_daysBetween, ← hn, min_self, curveState_closed hday]
      exact ⟨_, rfl⟩

end Runs

/-! ## The main statement -/

/-- Whatever runs came before, at whatever cursors: a run that builds leaves
exactly one point for each day from the day after the seed to the cursor's
day; a closed day's point is that of one fold from the seed over all events
up to the end of the day, the cursor day's that of the fold over the events
up to the cursor; and a persisted state the next run would accept is the
fold's state at the end of its day. -/
theorem resumed_curve_is_one_fold (parse : String → Option Int)
    (hparse : ∀ n : Int, parse (toString n) = some n) (log : StakeLog)
    (t t' : StakeTables) (boundaryDay : Int) (seed : StakeSnapshotState)
    (hseeded : Seeded parse t boundaryDay seed) (cursors : List Nat)
    (c : Nat) (report : StakeForwardBuildReport)
    (hrun : projectStakeSnapshotsForwardInTx parse (log.viewAt c)
      (projectRuns parse log t cursors) = .ok (report, t'))
    (hbuilt : report.validated = true) :
    ∃ ts, loadStakeSnapshotCursorTimestamp (log.viewAt c) = .ok ts ∧
      t'.dailies.map (fun row => row.point.dateUnixSeconds) =
        daysBetween (boundaryDay + secondsPerDay)
          (stakeSnapshotDayStart ts + secondsPerDay) ∧
      (∀ row ∈ t'.dailies,
        row.point.dateUnixSeconds < stakeSnapshotDayStart ts →
        ∃ points closed, oneFold parse (log.entire c) boundaryDay seed
          (stakeSnapshotDayEnd row.point.dateUnixSeconds)
          (row.point.dateUnixSeconds + secondsPerDay) =
            .ok (points, closed) ∧ points.getLast? = some row.point) ∧
      (∀ row ∈ t'.dailies,
        row.point.dateUnixSeconds = stakeSnapshotDayStart ts →
        ∃ points closed, oneFold parse (log.viewAt c) boundaryDay seed ts
          (stakeSnapshotDayStart ts + secondsPerDay) =
            .ok (points, closed) ∧ points.getLast? = some row.point) ∧
      (∀ resumeDay resumeState lastBuiltDay,
        loadStakeSnapshotResume parse t' =
          .ok (some (resumeDay, resumeState)) →
        loadMaxProjectedDailyDay t' = some lastBuiltDay →
        resumeDay + secondsPerDay = lastBuiltDay → boundaryDay < resumeDay →
        ∃ points, oneFold parse (log.entire c) boundaryDay seed
          (stakeSnapshotDayEnd resumeDay) (resumeDay + 2 * secondsPerDay) =
            .ok (points, some (resumeDay, resumeState))) := by
  have hseed : Consistent seed :=
    consistent_loadBoundary hseeded.distinct hseeded.loads
  have haligned := hseeded.aligned
  have hreached : Reached parse log boundaryDay seed
      (projectRuns parse log t cursors) :=
    reached_projectRuns hparse hseed haligned hseeded.reached cursors
  rcases hreached.run hparse hseed haligned hrun with hskip |
    ⟨-, -, ts, hcurve⟩
  · rw [hskip.1] at hbuilt
    cases hbuilt
  · obtain ⟨k, hk⟩ := day_index haligned (dayStart_aligned ts) hcurve.beyond
    refine ⟨ts, hcurve.cursor, hcurve.dates, ?_, ?_, ?_⟩
    · intro row hrow hday
      rw [hcurve.dailies] at hrow
      obtain ⟨d, hd, rfl⟩ := List.mem_map.mp hrow
      have hto : stakeSnapshotDayStart ts + secondsPerDay = boundaryDay +
          secondsPerDay + secondsPerDay * ((k + 1 : Nat) : Int) := by
        simp only [secondsPerDay] at *
        omega
      rw [hto] at hd
      obtain ⟨i, -, hi⟩ := mem_daysBetween hd
      exact hcurve.closedDay haligned hi hday
    · intro row hrow hday
      rw [hcurve.dailies] at hrow
      obtain ⟨d, hd, rfl⟩ := List.mem_map.mp hrow
      have hd' : d = stakeSnapshotDayStart ts := hday
      rw [hd']
      exact hcurve.openDay haligned
    · intro resumeDay resumeState lastBuiltDay hresume _ _ _
      exact hcurve.resumeState haligned hresume

/-- Two blocks on two days, and a stake in the first of them. -/
def twoDayLog : StakeLog where
  blocks := [⟨1, 86405⟩, ⟨2, 172807⟩]
  transactions :=
    [{ txId := 1, blockHeight := 1, txIndex := 0
       timestampUnixSeconds := 86405
       hasStakeCall := true, hasUnstakeCall := false, hasClaimCall := false
       isSoulApplyInflation := false, result := none
       events :=
         [{ eventId := 1, kind := "TokenStake", payloadIdentity := ""
            payloadFormat := 2, tokenSymbol := some "SOUL"
            valueRaw := some (toString (10 : Int)), address := some "P"
            marketQuoteSymbol := none }] }]
  chainOrder := List.pairwise_singleton _ _
  distinctIds := List.nodup_singleton _
  clock := by decide

/-- Tables with a seed on day `0` and nothing built. -/
def seededTables : StakeTables where
  boundaryState := some ⟨0, toString (100 : Int)⟩
  boundaryBalances := []
  dailies := []
  resume := none
  resumeStakes := []

theorem seededTables_seeded :
    Seeded String.toInt? seededTables 0 (emptyStakeState 100) where
  loads := by
    simp only [loadStakeBoundarySlice, seededTables, parseStakeSnapshotRaw,
      toInt?_toString, addLoadedRows]
  distinct := List.nodup_nil
  aligned := by decide
  noCurve := rfl
  noResume := rfl

theorem twoDayLog_loads :
    ∀ tx ∈ twoDayLog.transactions, Loads String.toInt? tx := by
  intro tx htx ev hev
  simp only [twoDayLog, List.mem_singleton] at htx
  subst htx
  simp only [List.mem_singleton] at hev
  subst hev
  refine ⟨?_, fun h => by cases h⟩
  intro raw hraw
  cases hraw
  rw [toInt?_toString]
  rfl

/-- A first run on the day after the seed and a second one a day later. -/
theorem resumed_curve_two_runs : ∃ report t',
    projectStakeSnapshotsForwardInTx String.toInt? (twoDayLog.viewAt 2)
      (projectRuns String.toInt? twoDayLog seededTables [1]) =
        .ok (report, t') ∧
    t'.dailies.map (fun row => row.point.dateUnixSeconds) =
      [86400, 172800] := by
  have hreached : Reached String.toInt? twoDayLog 0 (emptyStakeState 100)
      seededTables := seededTables_seeded.reached
  have hseed := consistent_emptyStakeState 100
  have hcursor1 : loadStakeSnapshotCursorTimestamp (twoDayLog.viewAt 1) =
      .ok 86405 := by decide
  have hcursor2 : loadStakeSnapshotCursorTimestamp (twoDayLog.viewAt 2) =
      .ok 172807 := by decide
  -- the first run leaves a curve whose last day is day one
  obtain ⟨hreached1, hmax⟩ := hreached.lastBuilt_run toInt?_toString hseed
    (by decide) hcursor1 (by decide) (fun last h => by cases h)
    twoDayLog_loads
  obtain ⟨report, t', hrun, hvalid⟩ := hreached1.run_builds hcursor2
    (by decide)
    (by
      intro last hlast
      rw [hmax] at hlast
      cases hlast
      decide)
    twoDayLog_loads
  obtain ⟨ts, hcursor, hdates, -⟩ := resumed_curve_is_one_fold String.toInt?
    toInt?_toString twoDayLog seededTables t' 0 (emptyStakeState 100)
    seededTables_seeded [1] 2 report hrun hvalid
  refine ⟨report, t', hrun, ?_⟩
  rw [hcursor2] at hcursor
  cases hcursor
  rw [hdates]
  decide

end Explorer.Ref
