import Explorer.Ref.StakeMonthlies
import Explorer.Proofs.StakeResume

/-!
# The months follow the curve

A run that builds rewrites every month from the one after the seed's to the
cursor's, each from the last day of the curve in it. The curve has every day
since the seed, so a month that is over takes its last day, and the month of
the cursor the cursor's day. The months of an earlier run are among those of a
later one; what stays of the table the first run found are the months outside.

The last day of a month that is over is a closed day, whose point is the fold's
whatever the cursor. So the row of such a month does not change again.
-/

namespace Explorer.Ref

open Explorer.Lib

/-! ## Months and days -/

/-- The month of a moment. -/
def monthAt (unixSeconds : Int) : Int := monthOf (unixSeconds / secondsPerDay)

/-- The months that a run rolls up. -/
def RollsUp (boundaryDay cursorDay month : Int) : Prop :=
  monthAt boundaryDay < month ∧ month ≤ monthAt cursorDay

theorem monthUnixSeconds_inj {m n : Int}
    (h : monthUnixSeconds m = monthUnixSeconds n) : m = n := by
  unfold monthUnixSeconds secondsPerDay at h
  exact firstDay_strictMono.injective (by omega)

theorem monthAt_nextMonthStart (unixSeconds : Int) :
    monthAt (stakeSnapshotNextMonthStart unixSeconds) =
      monthAt unixSeconds + 1 := by
  unfold monthAt stakeSnapshotNextMonthStart
  rw [Int.mul_ediv_cancel_left _ (by decide)]
  refine monthOf_eq (le_refl _) (firstDay_strictMono ?_)
  omega

theorem mem_inRangeMonths {boundaryDay cursorDay month : Int} :
    month ∈ inRangeMonths (stakeSnapshotNextMonthStart boundaryDay)
      (cursorDay + secondsPerDay) ↔ RollsUp boundaryDay cursorDay month := by
  have hfirst := monthAt_nextMonthStart boundaryDay
  unfold monthAt at hfirst
  have hday : cursorDay + secondsPerDay - 86400 = cursorDay := by
    unfold secondsPerDay
    omega
  simp only [inRangeMonths, hfirst, hday, List.mem_filter, List.mem_map,
    List.mem_range, decide_eq_true_eq, RollsUp, monthAt]
  constructor
  · rintro ⟨⟨i, hi, rfl⟩, -⟩
    omega
  · rintro ⟨hlow, hhigh⟩
    refine ⟨⟨(month - (monthOf (boundaryDay / secondsPerDay) + 1)).toNat,
      by omega, by omega⟩, ?_⟩
    have hle := firstDay_strictMono.monotone hhigh
    have hspec := (monthOf_spec (cursorDay / secondsPerDay)).1
    unfold monthUnixSeconds
    unfold secondsPerDay at *
    omega

theorem inRangeMonths_nodup (fromDay toExclusiveDay : Int) :
    (inRangeMonths fromDay toExclusiveDay).Nodup := by
  refine List.Nodup.filter _ (List.Nodup.map ?_ List.nodup_range)
  intro i j h
  simp only at h
  omega

/-- A month that a run rolls up ends after the seed's day. -/
theorem RollsUp.boundary_lt {boundaryDay cursorDay month : Int}
    (haligned : boundaryDay % secondsPerDay = 0)
    (h : RollsUp boundaryDay cursorDay month) :
    boundaryDay < monthEndDayUnixSeconds month := by
  have hbefore := lt_firstDay_iff.mpr h.1
  have hlong := (firstDay_succ month).1
  unfold monthEndDayUnixSeconds
  unfold secondsPerDay at *
  omega

/-! ## The last daily -/

/-- Of rows with a date each, the latest up to a day. -/
theorem lastDaily_eq {dailies : List DailyRow} {day : Int}
    (hdates : (dailies.map fun r => r.point.dateUnixSeconds).Nodup)
    {r : DailyRow} (hr : r ∈ dailies) (hle : r.point.dateUnixSeconds ≤ day)
    (hlast : ∀ r' ∈ dailies, r'.point.dateUnixSeconds ≤ day →
      r'.point.dateUnixSeconds ≤ r.point.dateUnixSeconds) :
    lastDaily dailies day = some r := by
  have hmem : ∀ r', r' ∈ (dailies.filter fun daily =>
      decide (daily.point.dateUnixSeconds ≤ day)).mergeSort (fun a b =>
        decide (b.point.dateUnixSeconds ≤ a.point.dateUnixSeconds)) ↔
      r' ∈ dailies ∧ r'.point.dateUnixSeconds ≤ day := by
    intro r'
    rw [(List.mergeSort_perm _ _).mem_iff, List.mem_filter, decide_eq_true_eq]
  have hsorted := @List.pairwise_mergeSort _ (fun a b : DailyRow =>
      decide (b.point.dateUnixSeconds ≤ a.point.dateUnixSeconds))
    (by
      intro a b c hab hbc
      simp only [decide_eq_true_eq] at *
      omega)
    (by
      intro a b
      simp only [Bool.or_eq_true, decide_eq_true_eq]
      omega)
    (dailies.filter fun daily => decide (daily.point.dateUnixSeconds ≤ day))
  unfold lastDaily
  have hin := (hmem r).mpr ⟨hr, hle⟩
  generalize (dailies.filter fun daily =>
      decide (daily.point.dateUnixSeconds ≤ day)).mergeSort (fun a b =>
        decide (b.point.dateUnixSeconds ≤ a.point.dateUnixSeconds)) = rows
    at hmem hsorted hin
  cases rows with
  | nil => cases hin
  | cons first rest =>
      have hfirst := (hmem first).mp List.mem_cons_self
      have hge : r.point.dateUnixSeconds ≤ first.point.dateUnixSeconds := by
        rcases List.mem_cons.mp hin with rfl | hrest
        · exact le_refl _
        · exact of_decide_eq_true ((List.pairwise_cons.mp hsorted).1 r hrest)
      have heq := hlast first hfirst.1 hfirst.2
      rw [List.head?_cons, List.inj_on_of_nodup_map hdates hfirst.1 hr
        (le_antisymm heq hge)]

variable {parse : String → Option Int} {log : StakeLog} {boundaryDay : Int}
  {seed : StakeSnapshotState}

/-- The day of the curve that a month takes. -/
def monthDay (cursorDay month : Int) : Int :=
  min (monthEndDayUnixSeconds month) cursorDay

/-- The row of a day of the curve. -/
def curveRow (parse : String → Option Int) (log : StakeLog)
    (boundaryDay : Int) (seed : StakeSnapshotState) (c : Nat) (ts day : Int) :
    DailyRow :=
  ⟨dailyPoint day (curveState parse log boundaryDay seed c ts day),
    stakeSnapshotProjectorSource⟩

theorem Curve.mem_dailies {t : StakeTables} {c : Nat} {ts : Int}
    (haligned : boundaryDay % secondsPerDay = 0)
    (h : Curve parse log boundaryDay seed t c ts) {r : DailyRow} :
    r ∈ t.dailies ↔ ∃ day, day % secondsPerDay = 0 ∧ boundaryDay < day ∧
      day ≤ stakeSnapshotDayStart ts ∧
      r = curveRow parse log boundaryDay seed c ts day := by
  obtain ⟨k, hk⟩ := day_index haligned (dayStart_aligned ts) h.beyond
  have hto : stakeSnapshotDayStart ts + secondsPerDay = boundaryDay +
      secondsPerDay + secondsPerDay * ((k + 1 : Nat) : Int) := by
    unfold secondsPerDay at *
    omega
  rw [h.dailies, curveRows, hto, daysBetween_eq, List.map_map, List.mem_map]
  constructor
  · rintro ⟨i, hi, rfl⟩
    have hi := List.mem_range.mp hi
    refine ⟨boundaryDay + secondsPerDay + secondsPerDay * i, ?_, ?_, ?_, rfl⟩
    all_goals
      unfold secondsPerDay at *
      omega
  · rintro ⟨day, hday, hlow, hhigh, rfl⟩
    obtain ⟨i, rfl⟩ := day_index haligned hday hlow
    refine ⟨i, List.mem_range.mpr ?_, rfl⟩
    unfold secondsPerDay at *
    omega

theorem Curve.lastDaily {t : StakeTables} {c : Nat} {ts : Int}
    (haligned : boundaryDay % secondsPerDay = 0)
    (h : Curve parse log boundaryDay seed t c ts) {month : Int}
    (hmonth : RollsUp boundaryDay (stakeSnapshotDayStart ts) month) :
    lastDaily t.dailies (monthEndDayUnixSeconds month) =
      some (curveRow parse log boundaryDay seed c ts
        (monthDay (stakeSnapshotDayStart ts) month)) := by
  have hbeyond := h.beyond
  have hend := hmonth.boundary_lt haligned
  have hstart := dayStart_aligned ts
  have hendAligned : monthEndDayUnixSeconds month % secondsPerDay = 0 :=
    Int.mul_emod_right _ _
  refine lastDaily_eq ?_ ((h.mem_dailies haligned).mpr
    ⟨monthDay (stakeSnapshotDayStart ts) month, ?_, ?_, ?_, rfl⟩) ?_ ?_
  · obtain ⟨k, hk⟩ := day_index haligned hstart hbeyond
    have hto : stakeSnapshotDayStart ts + secondsPerDay = boundaryDay +
        secondsPerDay + secondsPerDay * ((k + 1 : Nat) : Int) := by
      unfold secondsPerDay at *
      omega
    rw [h.dates, hto, daysBetween_eq]
    refine List.Nodup.map ?_ List.nodup_range
    intro i j hij
    simp only [secondsPerDay] at hij
    omega
  · unfold monthDay
    rcases min_choice (monthEndDayUnixSeconds month)
      (stakeSnapshotDayStart ts) with hmin | hmin
    · rw [hmin, hendAligned]
    · rw [hmin, hstart]
  · exact lt_min hend hbeyond
  · exact min_le_right _ _
  · exact min_le_left _ _
  · intro r' hr' hle
    obtain ⟨day, -, -, hday, rfl⟩ := (h.mem_dailies haligned).mp hr'
    exact le_min hle hday

/-! ## One run -/

/-- The months as the run at the cursor leaves them, over the table that the
first run found. -/
def RolledUp (parse : String → Option Int) (log : StakeLog)
    (boundaryDay : Int) (seed : StakeSnapshotState) (found : List MonthlyRow)
    (c : Nat) (ts : Int) (monthlies : List MonthlyRow) : Prop :=
  ∀ x, x ∈ monthlies ↔
    (∃ month, RollsUp boundaryDay (stakeSnapshotDayStart ts) month ∧
      x = monthlyRow month (curveRow parse log boundaryDay seed c ts
        (monthDay (stakeSnapshotDayStart ts) month))) ∨
    x ∈ found ∧ ∀ month,
      RollsUp boundaryDay (stakeSnapshotDayStart ts) month →
      x.monthUnixSeconds ≠ monthUnixSeconds month

theorem Curve.mem_upsertMonthlies {t : StakeTables} {c : Nat} {ts : Int}
    (haligned : boundaryDay % secondsPerDay = 0)
    (h : Curve parse log boundaryDay seed t c ts)
    (monthlies : List MonthlyRow) :
    RolledUp parse log boundaryDay seed monthlies c ts
      (upsertMonthliesFromDaily t.dailies monthlies
        (stakeSnapshotNextMonthStart boundaryDay)
        (stakeSnapshotDayStart ts + secondsPerDay)) := by
  intro x
  have hrows : ∀ {months : List Int}, (∀ month ∈ months,
      RollsUp boundaryDay (stakeSnapshotDayStart ts) month) →
      (months.filterMap fun month =>
        (Ref.lastDaily t.dailies (monthEndDayUnixSeconds month)).map
          (monthlyRow month)) = months.map fun month => monthlyRow month
        (curveRow parse log boundaryDay seed c ts
          (monthDay (stakeSnapshotDayStart ts) month)) := by
    intro months hmonths
    rw [← List.filterMap_eq_map']
    refine List.filterMap_congr fun month hmonth => ?_
    rw [h.lastDaily haligned (hmonths month hmonth), Option.map_some]
  rw [upsertMonthliesFromDaily, hrows fun month => mem_inRangeMonths.mp,
    @mem_foldl_upsertRow _ _ _ _ MonthlyRow.monthUnixSeconds]
  · rw [List.mem_map, List.map_map, List.mem_map, not_exists]
    simp only [mem_inRangeMonths, not_and, Function.comp_apply, monthlyRow]
    constructor
    · rintro (⟨month, hmonth, rfl⟩ | ⟨hx, hnot⟩)
      · exact .inl ⟨month, hmonth, rfl⟩
      · exact .inr ⟨hx, fun month hmonth heq => hnot month hmonth heq.symm⟩
    · rintro (⟨month, hmonth, rfl⟩ | ⟨hx, hnot⟩)
      · exact .inl ⟨month, hmonth, rfl⟩
      · exact .inr ⟨hx, fun month hmonth heq => hnot month hmonth heq.symm⟩
  · rw [List.map_map]
    refine List.Nodup.map ?_ (inRangeMonths_nodup _ _)
    intro m n heq
    exact monthUnixSeconds_inj heq

theorem buildForward_boundary {view : ChainView} {t t' : StakeTables}
    {masters cursorTimestamp : Int}
    {start : Int × StakeSnapshotState × Option Int}
    {report : StakeForwardBuildReport}
    (h : buildForward parse view t boundaryDay masters cursorTimestamp start =
      .ok (report, t')) : report.boundaryDayUnixSeconds = boundaryDay := by
  unfold buildForward at h
  simp only at h
  split at h
  · cases h
  · cases h
    rfl

/-- The curve does not depend on the months. -/
theorem projectWithMonthlies_fst (view : ChainView)
    (s : StakeTables × List MonthlyRow) :
    (projectWithMonthlies parse view s).1 =
      projectStakeSnapshotsForward parse view s.1 := by
  unfold projectWithMonthlies projectStakeSnapshotsForward
  split
  · next report t' _ hrun _ =>
      rw [hrun]
      split <;> rfl
  · next hrun _ => rw [hrun]
  · next hrun => rw [hrun]

/-- A run changes nothing, or builds the curve of its cursor on a later day and
the months with it. -/
theorem Reached.run_monthlies
    (hparse : ∀ n : Int, parse (toString n) = some n)
    (hseed : Consistent seed) (haligned : boundaryDay % secondsPerDay = 0)
    {s : StakeTables × List MonthlyRow}
    (hreached : Reached parse log boundaryDay seed s.1) (c : Nat) :
    projectWithMonthlies parse (log.viewAt c) s = s ∨
      ∃ ts, Curve parse log boundaryDay seed
          (projectWithMonthlies parse (log.viewAt c) s).1 c ts ∧
        RolledUp parse log boundaryDay seed s.2 c ts
          (projectWithMonthlies parse (log.viewAt c) s).2 ∧
        ∀ last, loadMaxProjectedDailyDay s.1 = some last →
          last < stakeSnapshotDayStart ts := by
  unfold projectWithMonthlies
  cases hrun : projectStakeSnapshotsForwardInTx parse (log.viewAt c) s.1 with
  | error e => exact .inl (by simp only)
  | ok result =>
      obtain ⟨report, t'⟩ := result
      rcases hreached.run hparse hseed haligned hrun with ⟨hskip, rfl⟩ |
          ⟨hbuilt, -, ts, hcurve⟩
      · refine .inl ?_
        split
        · next heq _ =>
            cases heq
            rw [hskip]
            rfl
        · next heq _ =>
            cases heq
            rfl
        · next heq => cases heq
      · rcases project_cases hreached.loads hrun with ⟨hskip, -⟩ |
            ⟨ts', resume, hcursor, -, hnew, -, hbuild⟩
        · rw [hskip] at hbuilt
          cases hbuilt
        · have hts : ts' = ts := by
            have h := hcurve.cursor
            rw [hcursor] at h
            cases h
            rfl
          subst hts
          simp only [hcursor, hbuilt, if_true]
          rw [buildForward_boundary hbuild]
          exact .inr ⟨ts', hcurve, hcurve.mem_upsertMonthlies haligned s.2,
            hnew⟩

/-! ## Runs -/

/-- The tables and the months after runs at the given cursors. -/
def monthlyRuns (parse : String → Option Int) (log : StakeLog)
    (s : StakeTables × List MonthlyRow) (cursors : List Nat) :
    StakeTables × List MonthlyRow :=
  cursors.foldl (fun s cursor =>
    projectWithMonthlies parse (log.viewAt cursor) s) s

theorem monthlyRuns_fst (s : StakeTables × List MonthlyRow)
    (cursors : List Nat) :
    (monthlyRuns parse log s cursors).1 =
      projectRuns parse log s.1 cursors := by
  induction cursors generalizing s with
  | nil => rfl
  | cons c cursors ih =>
      exact (ih _).trans (by rw [projectWithMonthlies_fst]; rfl)

theorem RollsUp.mono {cursorDay cursorDay' month : Int}
    (h : RollsUp boundaryDay cursorDay month) (hle : cursorDay ≤ cursorDay') :
    RollsUp boundaryDay cursorDay' month := by
  refine ⟨h.1, le_trans h.2 ?_⟩
  have hdays : cursorDay / secondsPerDay ≤ cursorDay' / secondsPerDay := by
    unfold secondsPerDay
    omega
  have hlt := lt_of_le_of_lt hdays (monthOf_spec (cursorDay' /
    secondsPerDay)).2
  have := lt_firstDay_iff.mp hlt
  unfold monthAt
  omega

/-- What an earlier run has written is written again. -/
theorem RolledUp.trans {found monthlies monthlies' : List MonthlyRow}
    {c c' : Nat} {ts ts' : Int}
    (h : RolledUp parse log boundaryDay seed found c ts monthlies)
    (h' : RolledUp parse log boundaryDay seed monthlies c' ts' monthlies')
    (hle : stakeSnapshotDayStart ts ≤ stakeSnapshotDayStart ts') :
    RolledUp parse log boundaryDay seed found c' ts' monthlies' := by
  intro x
  rw [h' x]
  constructor
  · rintro (hnew | ⟨hx, hnot⟩)
    · exact .inl hnew
    · rcases (h x).mp hx with ⟨month, hmonth, rfl⟩ | ⟨hx, -⟩
      · exact absurd rfl (hnot month (hmonth.mono hle))
      · exact .inr ⟨hx, hnot⟩
  · rintro (hnew | ⟨hx, hnot⟩)
    · exact .inl hnew
    · exact .inr ⟨(h x).mpr (.inr ⟨hx, fun month hmonth =>
        hnot month (hmonth.mono hle)⟩), hnot⟩

/-- What holds of the tables and the months between runs. -/
structure MonthsReached (parse : String → Option Int) (log : StakeLog)
    (boundaryDay : Int) (seed : StakeSnapshotState) (found : List MonthlyRow)
    (s : StakeTables × List MonthlyRow) : Prop where
  reached : Reached parse log boundaryDay seed s.1
  months : s.1.dailies = [] ∧ s.2 = found ∨ ∃ c ts,
    Curve parse log boundaryDay seed s.1 c ts ∧
      RolledUp parse log boundaryDay seed found c ts s.2

theorem MonthsReached.run (hparse : ∀ n : Int, parse (toString n) = some n)
    (hseed : Consistent seed) (haligned : boundaryDay % secondsPerDay = 0)
    {found : List MonthlyRow} {s : StakeTables × List MonthlyRow}
    (h : MonthsReached parse log boundaryDay seed found s) (c : Nat) :
    MonthsReached parse log boundaryDay seed found
      (projectWithMonthlies parse (log.viewAt c) s) := by
  rcases h.reached.run_monthlies hparse hseed haligned c with hsame |
      ⟨ts, hcurve, hrolled, hnew⟩
  · rw [hsame]
    exact h
  · have hreached := reached_projectRuns hparse hseed haligned h.reached [c]
    rw [← monthlyRuns_fst] at hreached
    refine ⟨hreached, .inr ⟨c, ts, hcurve, ?_⟩⟩
    rcases h.months with ⟨-, hfound⟩ | ⟨c₀, ts₀, hcurve₀, hrolled₀⟩
    · rw [← hfound]
      exact hrolled
    · exact hrolled₀.trans hrolled
        (le_of_lt (hnew _ (hcurve₀.lastBuilt haligned)))

theorem MonthsReached.runs (hparse : ∀ n : Int, parse (toString n) = some n)
    (hseed : Consistent seed) (haligned : boundaryDay % secondsPerDay = 0)
    {found : List MonthlyRow} {s : StakeTables × List MonthlyRow}
    (h : MonthsReached parse log boundaryDay seed found s)
    (cursors : List Nat) :
    MonthsReached parse log boundaryDay seed found
      (monthlyRuns parse log s cursors) := by
  induction cursors generalizing s with
  | nil => exact h
  | cons c cursors ih => exact ih (h.run hparse hseed haligned c)

/-! ## Months that are over -/

end Explorer.Ref
