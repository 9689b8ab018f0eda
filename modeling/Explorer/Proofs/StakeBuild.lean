import Explorer.Lib.Ordered
import Explorer.Lib.Runs
import Explorer.Ref.StakeTables

/-!
# The daily build, day by day

`build_stake_snapshot_daily_points` walks days and transactions together: an
index into the transaction groups only moves forward, and each day takes the
groups up to its end. What a day's point depends on is simpler than the loop
that computes it. It is the state after the transactions that carry a
timestamp up to the end of that day (`buildDays_spec`, `build_eq`), whatever
days were walked before and whatever anomalies were recorded on the way.

The second half does the same for the query. The rows it answers with are
the rows of the transactions in the window, in chain order, cut into groups
where the transaction changes (`txGroups_windowRows`); a row that cannot be
loaded fails the whole query, and which rows these are does not depend on
the window (`Loads`).
-/

namespace Explorer.Ref

open Explorer.Lib

/-! ## The state without the anomalies -/

theorem applyRow_forget (ctx : TxContext) (s : StakeSnapshotState)
    (an an' : StakeSnapshotAnomalies) (applied : Bool)
    (row : StakeSnapshotEventRow) :
    (applyRow ctx ⟨s, an, applied⟩ row).state =
        (applyRow ctx ⟨s, an', applied⟩ row).state ∧
      (applyRow ctx ⟨s, an, applied⟩ row).applied =
        (applyRow ctx ⟨s, an', applied⟩ row).applied := by
  have hstake : ∀ delta,
      (ReplayLoop.stakeDelta ⟨s, an, applied⟩ row delta).state =
        (ReplayLoop.stakeDelta ⟨s, an', applied⟩ row delta).state := by
    intro delta
    simp only [ReplayLoop.stakeDelta, applyStakeSnapshotStakeDelta]
    split <;> rfl
  have hmove : ∀ sign value,
      (ReplayLoop.moveSupply ⟨s, an, applied⟩ ctx.inflation sign value) =
        { ReplayLoop.moveSupply ⟨s, an', applied⟩ ctx.inflation sign value
          with anomalies := an } := by
    intro sign value
    simp only [ReplayLoop.moveSupply]
    split
    · split <;> rfl
    · rfl
  have hclamp : ∀ (l : ReplayLoop) reverse,
      (ReplayLoop.clampSupply { l with anomalies := an } reverse row).state =
        (l.clampSupply reverse row).state ∧
      (ReplayLoop.clampSupply { l with anomalies := an } reverse
        row).applied = (l.clampSupply reverse row).applied := by
    intro l reverse
    simp only [ReplayLoop.clampSupply]
    split <;> exact ⟨rfl, rfl⟩
  unfold applyRow
  split
  · exact ⟨rfl, rfl⟩
  · split
    · exact ⟨hstake _, rfl⟩
    · exact ⟨hstake _, rfl⟩
    · exact ⟨hstake _, rfl⟩
    · exact ⟨hstake _, rfl⟩
    · rw [hmove]; exact ⟨rfl, rfl⟩
    · rw [hmove]; exact ⟨rfl, rfl⟩
    · rw [hmove]; exact hclamp _ _
    · rw [hmove]; exact hclamp _ _

theorem applyRows_forget (ctx : TxContext)
    (rows : List StakeSnapshotEventRow) (s : StakeSnapshotState)
    (an an' : StakeSnapshotAnomalies) (applied : Bool) :
    (rows.foldl (applyRow ctx) ⟨s, an, applied⟩).state =
      (rows.foldl (applyRow ctx) ⟨s, an', applied⟩).state := by
  induction rows generalizing s an an' applied with
  | nil => rfl
  | cons row rows ih =>
      obtain ⟨hstate, happlied⟩ := applyRow_forget ctx s an an' applied row
      rw [List.foldl_cons, List.foldl_cons]
      generalize applyRow ctx ⟨s, an, applied⟩ row = l at hstate happlied ⊢
      generalize applyRow ctx ⟨s, an', applied⟩ row = l' at hstate happlied ⊢
      cases l
      cases l'
      cases hstate
      cases happlied
      exact ih _ _ _ _

/-- The state after transaction groups, replayed forwards. -/
def stateAfter (s : StakeSnapshotState)
    (groups : List (List StakeSnapshotEventRow)) : StakeSnapshotState :=
  (replayGroups false (s, .none) groups).1

theorem replayGroups_state (s : StakeSnapshotState)
    (an : StakeSnapshotAnomalies)
    (groups : List (List StakeSnapshotEventRow)) :
    (replayGroups false (s, an) groups).1 = stateAfter s groups := by
  unfold stateAfter
  generalize (StakeSnapshotAnomalies.none) = an'
  induction groups generalizing s an an' with
  | nil => rfl
  | cons g groups ih =>
      have hg : (replayGroup false (s, an) g).1 =
          (replayGroup false (s, an') g).1 := applyRows_forget _ _ _ _ _ _
      have hcons : ∀ r : Replay, replayGroups false r (g :: groups) =
          replayGroups false ((replayGroup false r g).1,
            (replayGroup false r g).2) groups := fun _ => rfl
      rw [hcons, hcons, hg]
      exact ih _ _ _

theorem stateAfter_append (s : StakeSnapshotState)
    (groups groups' : List (List StakeSnapshotEventRow)) :
    stateAfter s (groups ++ groups') =
      stateAfter (stateAfter s groups) groups' := by
  have happend : replayGroups false (s, .none) (groups ++ groups') =
      replayGroups false ((replayGroups false (s, .none) groups).1,
        (replayGroups false (s, .none) groups).2) groups' :=
    List.foldl_append
  rw [stateAfter, happend, replayGroups_state]
  rfl

/-- A transaction without rows is no transaction. -/
theorem stateAfter_filter (s : StakeSnapshotState)
    (groups : List (List StakeSnapshotEventRow)) :
    stateAfter s (groups.filter fun g => !g.isEmpty) =
      stateAfter s groups := by
  induction groups generalizing s with
  | nil => rfl
  | cons g groups ih =>
      cases g with
      | nil => exact ih s
      | cons row rows =>
          rw [List.filter_cons_of_pos (by rfl),
            ← List.singleton_append, stateAfter_append, ih,
            ← stateAfter_append]
          rfl

/-! ## Days -/

theorem takeDay_eq (dayEnd : Int)
    (groups : List (List StakeSnapshotEventRow)) (r : Replay) :
    takeDay dayEnd groups r =
      (replayGroups false r
        (groups.takeWhile fun g => decide (groupTimestamp g ≤ dayEnd)),
        groups.dropWhile fun g => decide (groupTimestamp g ≤ dayEnd)) := by
  induction groups generalizing r with
  | nil => rfl
  | cons g groups ih =>
      by_cases hg : groupTimestamp g ≤ dayEnd
      · rw [takeDay, if_neg (by omega), ih,
          List.takeWhile_cons_of_pos (by simpa using hg),
          List.dropWhile_cons_of_pos (by simpa using hg)]
        rfl
      · rw [takeDay, if_pos (by omega),
          List.takeWhile_cons_of_neg (by simpa using hg),
          List.dropWhile_cons_of_neg (by simpa using hg)]
        rfl

/-- The groups a day has seen, from the first one on. -/
def seenBy (groups : List (List StakeSnapshotEventRow)) (day : Int) :
    List (List StakeSnapshotEventRow) :=
  groups.takeWhile fun g =>
    decide (groupTimestamp g ≤ stakeSnapshotDayEnd day)

/-- The closed state after days: that of the last day but one. -/
def closedAfter (toExclusiveDay : Int) (state : Int → StakeSnapshotState)
    (closed : Option (Int × StakeSnapshotState)) (days : List Int) :
    Option (Int × StakeSnapshotState) :=
  days.foldl (fun closed day =>
    if day + 2 * secondsPerDay = toExclusiveDay then some (day, state day)
    else closed) closed

/-- The day loop. `p` marks what the earlier days have taken, and the days
ahead take at least that. -/
theorem buildDays_spec (toExclusiveDay : Int) (s : StakeSnapshotState)
    (groups : List (List StakeSnapshotEventRow)) {days : List Int}
    (hdays : days.Pairwise (· ≤ ·)) {p : List StakeSnapshotEventRow → Bool}
    (hp : ∀ day ∈ days, ∀ g, p g → groupTimestamp g ≤ stakeSnapshotDayEnd day)
    {l : BuildLoop} (hgroups : l.groups = groups.dropWhile p)
    (hstate : l.replay.1 = stateAfter s (groups.takeWhile p)) :
    (days.foldl (buildDay toExclusiveDay) l).snapshots = l.snapshots ++
      days.map (fun day => dailyPoint day (stateAfter s (seenBy groups day))) ∧
    (days.foldl (buildDay toExclusiveDay) l).closed =
      closedAfter toExclusiveDay
        (fun day => stateAfter s (seenBy groups day)) l.closed days := by
  induction days generalizing p l with
  | nil => exact ⟨(List.append_nil _).symm, rfl⟩
  | cons day days ih =>
      rw [List.pairwise_cons] at hdays
      have himp : ∀ g, p g →
          decide (groupTimestamp g ≤ stakeSnapshotDayEnd day) = true := by
        intro g hg
        exact decide_eq_true (hp day List.mem_cons_self g hg)
      have hday : (buildDay toExclusiveDay l day).replay.1 =
          stateAfter s (seenBy groups day) := by
        have hreplay : (replayGroups false l.replay
            (l.groups.takeWhile fun g => decide
              (groupTimestamp g ≤ stakeSnapshotDayEnd day))).1 =
            stateAfter l.replay.1 (l.groups.takeWhile fun g => decide
              (groupTimestamp g ≤ stakeSnapshotDayEnd day)) :=
          replayGroups_state l.replay.1 l.replay.2 _
        simp only [buildDay, takeDay_eq]
        rw [hreplay, hstate, hgroups, ← stateAfter_append,
          takeWhile_append_dropWhile_of_imp himp]
        rfl
      obtain ⟨hsnap, hclosed⟩ := ih hdays.2
        (l := buildDay toExclusiveDay l day)
        (p := fun g => decide (groupTimestamp g ≤ stakeSnapshotDayEnd day))
        (by
          intro day' hday' g hg
          have h1 := of_decide_eq_true hg
          have h2 := hdays.1 day' hday'
          simp only [stakeSnapshotDayEnd] at h1 ⊢
          omega)
        (by
          simp only [buildDay, takeDay_eq]
          rw [hgroups, dropWhile_dropWhile_of_imp himp])
        hday
      have hpoint : (takeDay (stakeSnapshotDayEnd day) l.groups l.replay).1.1 =
          stateAfter s (seenBy groups day) := hday
      refine ⟨?_, ?_⟩
      · rw [List.foldl_cons, hsnap]
        simp only [buildDay, hpoint, List.map_cons, List.append_assoc,
          List.singleton_append]
      · rw [List.foldl_cons, hclosed]
        simp only [buildDay, hpoint, closedAfter, List.foldl_cons]

theorem daysBetween_ordered (fromDay toExclusiveDay : Int) :
    (daysBetween fromDay toExclusiveDay).Pairwise (· < ·) := by
  unfold daysBetween
  rw [List.pairwise_map]
  refine List.pairwise_lt_range.imp ?_
  intro i j hij
  simp only [secondsPerDay]
  omega

/-- The build: each day's point is that of the state after the groups the
day has seen. -/
theorem build_eq (s : StakeSnapshotState) (rows : List StakeSnapshotEventRow)
    (fromDay toExclusiveDay : Int) (an : StakeSnapshotAnomalies) :
    (buildStakeSnapshotDailyPoints s rows fromDay toExclusiveDay an).1 =
      (daysBetween fromDay toExclusiveDay).map (fun day =>
        dailyPoint day (stateAfter s (seenBy (txGroups rows) day))) ∧
    (buildStakeSnapshotDailyPoints s rows fromDay toExclusiveDay an).2.1 =
      closedAfter toExclusiveDay
        (fun day => stateAfter s (seenBy (txGroups rows) day)) none
        (daysBetween fromDay toExclusiveDay) := by
  obtain ⟨hsnap, hclosed⟩ := buildDays_spec toExclusiveDay s (txGroups rows)
    ((daysBetween_ordered fromDay toExclusiveDay).imp fun h => le_of_lt h)
    (p := fun _ => false) (by intro _ _ _ h; cases h)
    (l := ⟨(s, an), txGroups rows, [], none⟩)
    (by cases txGroups rows <;> rfl) (by cases txGroups rows <;> rfl)
  exact ⟨by simpa [buildStakeSnapshotDailyPoints] using hsnap, hclosed⟩

/-! ## The query -/

/-- The inflation result a transaction's rows carry. -/
def soulDelta (tx : StakeTransaction) : Option Int :=
  if tx.isSoulApplyInflation then
    tx.result.bind fun result =>
      match parseCarbonIntxI64Raw "tx.result" result with
      | .ok delta => some delta
      | _ => none
  else none

/-- The row of an event. -/
def eventRow (parse : String → Option Int) (tx : StakeTransaction)
    (ev : StakeEvent) : StakeSnapshotEventRow where
  eventId := ev.eventId
  txId := tx.txId
  kind := ev.kind
  timestampUnixSeconds := tx.timestampUnixSeconds
  payloadIdentity := ev.payloadIdentity
  payloadFormat := ev.payloadFormat
  tokenSymbol := ev.tokenSymbol
  valueRaw := ev.valueRaw.bind parse
  address := ev.address
  marketQuoteSymbol := ev.marketQuoteSymbol
  txHasStakeCall := tx.hasStakeCall
  txHasUnstakeCall := tx.hasUnstakeCall
  txHasClaimCall := tx.hasClaimCall
  txApplyInflationResultSoulDeltaRaw := soulDelta tx

/-- The rows of a transaction. -/
def txRows (parse : String → Option Int) (tx : StakeTransaction) :
    List StakeSnapshotEventRow := tx.events.map (eventRow parse tx)

/-- The event can be loaded: its value is a numeral, and decoding the
transaction's result does not panic. -/
def EventLoads (parse : String → Option Int) (tx : StakeTransaction)
    (ev : StakeEvent) : Prop :=
  (∀ raw, ev.valueRaw = some raw → (parse raw).isSome) ∧
  (tx.isSoulApplyInflation = true → ∀ result, tx.result = some result →
    parseCarbonIntxI64Raw "tx.result" result ≠ .panic)

/-- All of a transaction's events can be loaded. -/
def Loads (parse : String → Option Int) (tx : StakeTransaction) : Prop :=
  ∀ ev ∈ tx.events, EventLoads parse tx ev

theorem inflationDelta_ok {tx : StakeTransaction} {ev : StakeEvent}
    {parse : String → Option Int} (h : EventLoads parse tx ev)
    (an : StakeSnapshotAnomalies) :
    ∃ an', inflationDelta tx an = .ok (soulDelta tx, an') := by
  unfold inflationDelta soulDelta
  cases hsoul : tx.isSoulApplyInflation with
  | false => exact ⟨an, rfl⟩
  | true =>
      simp only [if_true]
      cases hresult : tx.result with
      | none => exact ⟨_, rfl⟩
      | some result =>
          simp only [Option.bind_some]
          cases hp : parseCarbonIntxI64Raw "tx.result" result with
          | ok delta => exact ⟨_, rfl⟩
          | err reason => exact ⟨_, rfl⟩
          | panic => exact absurd hp (h.2 hsoul result hresult)

theorem loadRow_ok {parse : String → Option Int} {tx : StakeTransaction}
    {ev : StakeEvent} (h : EventLoads parse tx ev)
    (an : StakeSnapshotAnomalies) :
    ∃ an', loadRow parse tx ev an = .ok (eventRow parse tx ev, an') := by
  obtain ⟨an', han⟩ := inflationDelta_ok h an
  have hvalue : loadValueRaw parse ev.valueRaw =
      .ok (ev.valueRaw.bind parse) := by
    cases hraw : ev.valueRaw with
    | none => rfl
    | some raw =>
        obtain ⟨n, hn⟩ := Option.isSome_iff_exists.mp (h.1 raw hraw)
        simp [loadValueRaw, parseStakeSnapshotRaw, hn, Except.map]
  exact ⟨an', by simp only [loadRow, hvalue, han, eventRow]⟩

theorem eventLoads_of_loadRow {parse : String → Option Int}
    {tx : StakeTransaction} {ev : StakeEvent} {an an' : StakeSnapshotAnomalies}
    {row : StakeSnapshotEventRow}
    (h : loadRow parse tx ev an = .ok (row, an')) : EventLoads parse tx ev := by
  unfold loadRow at h
  split at h
  · cases h
  · next hvalue =>
      split at h
      · cases h
      · next hdelta =>
          refine ⟨?_, ?_⟩
          · intro raw hraw
            rw [hraw] at hvalue
            simp only [loadValueRaw, parseStakeSnapshotRaw] at hvalue
            split at hvalue
            · next hn => rw [hn]; rfl
            · cases hvalue
          · intro hsoul result hresult hpanic
            rw [inflationDelta, if_pos hsoul, hresult] at hdelta
            simp only [hpanic] at hdelta
            cases hdelta

/-- The query's rows are loaded exactly if each of them can be. -/
theorem loadRows_ok_iff {parse : String → Option Int}
    (pairs : List (StakeTransaction × StakeEvent))
    (an : StakeSnapshotAnomalies) (rows : List StakeSnapshotEventRow) :
    (∃ an', loadRows parse pairs an = .ok (rows, an')) ↔
      rows = pairs.map (fun x => eventRow parse x.1 x.2) ∧
        ∀ x ∈ pairs, EventLoads parse x.1 x.2 := by
  induction pairs generalizing an rows with
  | nil => simp [loadRows, eq_comm]
  | cons x pairs ih =>
      obtain ⟨tx, ev⟩ := x
      constructor
      · rintro ⟨an', h⟩
        simp only [loadRows] at h
        split at h
        · cases h
        · next row an1 hrow =>
            have hev := eventLoads_of_loadRow hrow
            obtain ⟨an2, hrow'⟩ := loadRow_ok hev an
            rw [hrow'] at hrow
            split at h
            · cases h
            · next rows' an3 hrest =>
                obtain ⟨hrows, hall⟩ := (ih an1 rows').mp ⟨an3, hrest⟩
                cases h
                cases hrow
                refine ⟨by rw [hrows]; rfl, ?_⟩
                intro y hy
                rcases List.mem_cons.mp hy with rfl | hy
                · exact hev
                · exact hall y hy
      · rintro ⟨rfl, hall⟩
        obtain ⟨an1, hrow⟩ := loadRow_ok (hall (tx, ev) List.mem_cons_self) an
        obtain ⟨an2, hrest⟩ := (ih an1 _).mpr
          ⟨rfl, fun y hy => hall y (List.mem_cons_of_mem _ hy)⟩
        exact ⟨an2, by simp only [loadRows, hrow, hrest, List.map_cons]⟩

/-- The transactions of a time window. -/
def window (txs : List StakeTransaction) (fromTs toTs : Int) :
    List StakeTransaction :=
  txs.filter fun tx =>
    decide (fromTs ≤ tx.timestampUnixSeconds) &&
      decide (tx.timestampUnixSeconds ≤ toTs)

/-- The rows of a time window, and when they can be had. -/
theorem loadEvents_ok_iff {parse : String → Option Int} {view : ChainView}
    (hordered : view.transactions.Pairwise fun a b => txOrder a b = true)
    (fromTs toTs : Int) (an : StakeSnapshotAnomalies)
    (rows : List StakeSnapshotEventRow) :
    (∃ an', loadStakeSnapshotEvents parse view fromTs toTs an =
        .ok (rows, an')) ↔
      rows = (window view.transactions fromTs toTs).flatMap (txRows parse) ∧
        ∀ tx ∈ window view.transactions fromTs toTs, Loads parse tx := by
  have hpairs : stakeEventRows view fromTs toTs =
      (window view.transactions fromTs toTs).flatMap
        fun tx => tx.events.map fun ev => (tx, ev) := by
    rw [stakeEventRows, List.mergeSort_of_pairwise (hordered.filter _)]
    rfl
  rw [loadStakeSnapshotEvents, loadRows_ok_iff, hpairs, List.map_flatMap]
  refine and_congr ?_ ?_
  · simp only [List.map_map, Function.comp_def]
    exact Iff.rfl
  · simp only [List.mem_flatMap, List.mem_map, Loads]
    constructor
    · intro h tx htx ev hev
      exact h (tx, ev) ⟨tx, htx, ev, hev, rfl⟩
    · rintro h x ⟨tx, htx, ev, hev, rfl⟩
      exact h tx htx ev hev

/-! ## The query's rows in groups -/

theorem groupTimestamp_txRows {parse : String → Option Int}
    {tx : StakeTransaction} (h : txRows parse tx ≠ []) :
    groupTimestamp (txRows parse tx) = tx.timestampUnixSeconds := by
  unfold txRows at h ⊢
  cases hev : tx.events with
  | nil => exact absurd (by rw [hev]; rfl) h
  | cons ev evs => rfl

/-- One group for each transaction that has rows. -/
theorem txGroups_flatMap {parse : String → Option Int}
    {txs : List StakeTransaction}
    (hids : (txs.map StakeTransaction.txId).Nodup) :
    txGroups (txs.flatMap (txRows parse)) =
      (txs.map (txRows parse)).filter fun g => !g.isEmpty := by
  refine splitBy_flatMap ?_ hids
  intro tx row hrow
  obtain ⟨ev, -, rfl⟩ := List.mem_map.mp hrow
  rfl

/-- The state a day's point is taken from, as a fold over transactions. -/
theorem stateAfter_seenBy {parse : String → Option Int}
    {txs : List StakeTransaction}
    (hids : (txs.map StakeTransaction.txId).Nodup)
    (htime : txs.Pairwise fun a b =>
      a.timestampUnixSeconds ≤ b.timestampUnixSeconds)
    (s : StakeSnapshotState) (day : Int) :
    stateAfter s (seenBy (txGroups (txs.flatMap (txRows parse))) day) =
      stateAfter s ((txs.filter fun tx => decide
        (tx.timestampUnixSeconds ≤ stakeSnapshotDayEnd day)).map
          (txRows parse)) := by
  rw [txGroups_flatMap hids, seenBy, takeWhile_eq_filter]
  · rw [← stateAfter_filter, ← stateAfter_filter s (List.map _ _),
      List.filter_filter, List.filter_filter, List.filter_map,
      List.filter_map, List.filter_filter]
    congr 2
    refine List.filter_congr fun tx _ => ?_
    simp only [Function.comp_apply]
    by_cases hempty : txRows parse tx = []
    · simp [hempty]
    · rw [groupTimestamp_txRows hempty]
      cases decide (tx.timestampUnixSeconds ≤ stakeSnapshotDayEnd day) <;>
        simp
  · refine List.pairwise_filter.mpr (List.pairwise_map.mpr (htime.imp ?_))
    intro a b hab ha hb
    rw [groupTimestamp_txRows (by simpa using ha),
      groupTimestamp_txRows (by simpa using hb)]
    exact hab

end Explorer.Ref
