import Explorer.Ref.AddressStats
import Mathlib.Algebra.BigOperators.Group.List.Lemmas
import Mathlib.Algebra.Order.Group.Int

/-!
# The last days of the new addresses

The days of the query are a run of consecutive days, so the counts up to a day
add up to the addresses that came on it or before: each first transaction
falls on exactly one of the days. The cut is a lower bound on the day, and on
days in order a lower bound that one of them is leaves that day and those
behind it. There is such a bound only where the series has as many days as are
asked for; past its end the subquery is empty and the query lists nothing.
-/

namespace Explorer.Ref

/-! ## Counts over days -/

/-- One element among some that are all different. -/
theorem sum_indicator {ds : List Int} (hds : ds.Nodup) (x : Int) :
    (ds.map fun d => if x = d then (1 : Int) else 0).sum =
      if x ∈ ds then 1 else 0 := by
  induction ds with
  | nil => rfl
  | cons d ds ih =>
      rw [List.nodup_cons] at hds
      rw [List.map_cons, List.sum_cons, ih hds.2]
      by_cases hx : x = d
      · subst hx
        rw [if_pos rfl, if_neg hds.1, if_pos List.mem_cons_self, Int.add_zero]
      · rw [if_neg hx, Int.zero_add]
        refine if_congr ?_ rfl rfl
        rw [List.mem_cons, or_iff_right hx]

/-- Days that cover a list count it, as far as a condition on days goes. -/
theorem sum_counts {ds l : List Int} (hds : ds.Nodup) {p : Int → Bool}
    (hcover : ∀ x ∈ l, p x = true → x ∈ ds) :
    ((ds.filter p).map fun d => (l.count d : Int)).sum =
      (l.countP p : Int) := by
  induction l with
  | nil =>
      refine List.sum_eq_zero fun n hn => ?_
      obtain ⟨d, -, rfl⟩ := List.mem_map.mp hn
      rfl
  | cons x l ih =>
      have ih := ih fun y hy => hcover y (List.mem_cons_of_mem _ hy)
      have hsplit : ∀ d : Int, ((x :: l).count d : Int) =
          (l.count d : Int) + if x = d then 1 else 0 := by
        intro d
        rw [List.count_cons]
        by_cases hd : x = d
        · rw [if_pos (beq_iff_eq.mpr hd), if_pos hd]
          rfl
        · rw [if_neg fun h => hd (beq_iff_eq.mp h), if_neg hd]
          rfl
      have hx : x ∈ ds.filter p ↔ p x = true := by
        rw [List.mem_filter]
        exact ⟨And.right, fun h => ⟨hcover x List.mem_cons_self h, h⟩⟩
      rw [List.map_congr_left fun d _ => hsplit d, List.sum_map_add, ih,
        sum_indicator (hds.filter p), if_congr hx rfl rfl, List.countP_cons]
      split <;> rfl

/-! ## Lists in order -/

/-- A lower bound that is one of the elements leaves it and what follows. -/
theorem filter_ge_eq_drop {α : Type} {key : α → Int} {l : List α}
    (h : l.Pairwise fun a b => key a < key b) {i : Nat} {x : α}
    (hx : l[i]? = some x) :
    (l.filter fun a => decide (key x ≤ key a)) = l.drop i := by
  induction l generalizing i with
  | nil => cases hx
  | cons a l ih =>
      rw [List.pairwise_cons] at h
      cases i with
      | zero =>
          cases hx
          rw [List.drop_zero]
          refine List.filter_eq_self.mpr fun b hb => decide_eq_true ?_
          rcases List.mem_cons.mp hb with rfl | hb
          · exact Int.le_refl _
          · exact Int.le_of_lt (h.1 b hb)
      | succ i =>
          rw [List.getElem?_cons_succ] at hx
          have hlt := h.1 x (List.mem_of_getElem? hx)
          rw [List.filter_cons, if_neg ?_, List.drop_succ_cons]
          · exact ih h.2 hx
          · rw [decide_eq_true_eq]
            omega

/-- Sorted the other way round, a list in order is reversed. -/
theorem insertionSort_desc {α : Type} {key : α → Int} {l : List α}
    (h : l.Pairwise fun a b => key a < key b) :
    (l.insertionSort fun a b => key b ≤ key a) = l.reverse := by
  have hanti : Std.Antisymm fun a b : α => key b < key a :=
    ⟨fun _ _ hab hba => absurd hab (Int.lt_asymm hba)⟩
  have hirrefl : Std.Irrefl fun a b : α => key b < key a :=
    ⟨fun a => Int.lt_irrefl (key a)⟩
  have htotal : Std.Total fun a b : α => key b ≤ key a :=
    ⟨fun a b => Int.le_total (key b) (key a)⟩
  have htrans : IsTrans α fun a b => key b ≤ key a :=
    ⟨fun _ _ _ hab hbc => Int.le_trans hbc hab⟩
  have hperm := List.perm_insertionSort (fun a b : α => key b ≤ key a) l
  have hkeys : (l.map key).Nodup :=
    List.pairwise_map.mpr (h.imp fun hab => Int.ne_of_lt hab)
  have hne := List.pairwise_map.mp ((hperm.map key).nodup_iff.mpr hkeys)
  have hsorted : (l.insertionSort fun a b => key b ≤ key a).Pairwise
      fun a b => key b < key a := by
    refine ((List.pairwise_insertionSort _ l).and hne).imp fun hab => ?_
    exact lt_of_le_of_ne hab.1 (Ne.symm hab.2)
  refine hsorted.eq_of_mem_iff (List.pairwise_reverse.mpr h) fun a => ?_
  rw [hperm.mem_iff, List.mem_reverse]

/-! ## The series -/

/-- The days from the first active one to the later of the last and today. -/
structure GapFilled (times : List Int) (now : Int) (series : List Int) :
    Prop where
  first : series.head? = (times.map dayUnixSeconds).min?
  last : series.getLast? = (times.map dayUnixSeconds).max?.map fun day =>
    max day (dayUnixSeconds now)
  consecutive : series.IsChain fun a b => b = a + 86400

/-- A day, with the addresses that came on it, and on it or before. -/
def dayPoint (times : List Int) (day : Int) : NewAddressDaily where
  dayUnixSeconds := day
  newAddressesCount := (times.countP fun t => dayUnixSeconds t == day : Nat)
  cumulativeAddressesCount :=
    (times.countP fun t => decide (dayUnixSeconds t ≤ day) : Nat)

/-- The last `n` days of the series, or all of them. -/
def IsLastDays (times : List Int) (now n : Int) (out : List NewAddressDaily) :
    Prop :=
  ∃ series, GapFilled times now series ∧
    out = (series.drop (series.length - n.toNat)).map (dayPoint times)

theorem dayUnixSeconds_dvd (t : Int) : 86400 ∣ dayUnixSeconds t :=
  Dvd.intro_left _ rfl

open NewAddressDailies

variable {times : List Int} {now : Int}

theorem daily_days : (daily times).map Prod.fst =
    (times.map dayUnixSeconds).dedup := by
  rw [daily, List.map_map]
  exact List.map_id _

theorem newAddressesCount_daily (day : Int) :
    newAddressesCount (daily times) day =
      ((times.map dayUnixSeconds).count day : Int) := by
  rw [newAddressesCount, daily]
  by_cases hday : day ∈ (times.map dayUnixSeconds).dedup
  · rw [List.lookup_graph (fun day =>
      ((times.map dayUnixSeconds).count day : Int)) hday]
    rfl
  · have hnone : ((times.map dayUnixSeconds).dedup.map fun day =>
        (day, ((times.map dayUnixSeconds).count day : Int))).lookup day =
          none := by
      refine List.lookup_eq_none_iff.mpr fun x hx => bne_iff_ne.mpr ?_
      obtain ⟨day', hday', rfl⟩ := List.mem_map.mp hx
      rintro rfl
      exact hday hday'
    rw [List.mem_dedup] at hday
    rw [hnone, List.count_eq_zero.mpr hday]
    rfl

theorem min?_dedup (l : List Int) : l.dedup.min? = l.min? := by
  cases hmin : l.min? with
  | none =>
      rw [List.min?_eq_none_iff] at hmin
      rw [hmin]
      rfl
  | some a =>
      rw [List.min?_eq_some_iff] at hmin ⊢
      exact ⟨List.mem_dedup.mpr hmin.1,
        fun b hb => hmin.2 b (List.mem_dedup.mp hb)⟩

theorem max?_dedup (l : List Int) : l.dedup.max? = l.max? := by
  cases hmax : l.max? with
  | none =>
      rw [List.max?_eq_none_iff] at hmax
      rw [hmax]
      rfl
  | some a =>
      rw [List.max?_eq_some_iff] at hmax ⊢
      exact ⟨List.mem_dedup.mpr hmax.1,
        fun b hb => hmax.2 b (List.mem_dedup.mp hb)⟩

/-! ### Days in a row -/

section

variable {start : Int} {k : Nat}

/-- `k + 1` days from a day on. -/
theorem generateSeries_days (start : Int) (k : Nat) :
    generateSeries start (start + k * 86400) 86400 =
      (List.range (k + 1)).map fun i : Nat => start + i * 86400 := by
  unfold generateSeries
  have hcount : ((start + k * 86400 - start) / 86400 + 1).toNat = k + 1 := by
    omega
  rw [hcount]

theorem days_increase (start : Int) (n : Nat) :
    ((List.range n).map fun i : Nat => start + i * 86400).Pairwise
      fun a b => a < b := by
  rw [List.pairwise_map]
  refine List.pairwise_lt_range.imp fun hlt => ?_
  omega

theorem days_chain (start : Int) (n : Nat) :
    ((List.range n).map fun i : Nat => start + i * 86400).IsChain
      fun a b => b = a + 86400 := by
  rw [List.isChain_map, List.isChain_iff_getElem]
  intro i hi
  rw [List.getElem_range, List.getElem_range]
  omega

theorem mem_days {d : Int} (hle : start ≤ d) (hd : d ≤ start + k * 86400)
    (hdvd : (86400 : Int) ∣ d - start) :
    d ∈ (List.range (k + 1)).map fun i : Nat => start + i * 86400 := by
  obtain ⟨c, hc⟩ := hdvd
  refine List.mem_map.mpr ⟨c.toNat, List.mem_range.mpr ?_, ?_⟩ <;> omega

end

/-- Where there are addresses, the query fills the days from the first. -/
theorem expanded_eq {first last : Int}
    (hfirst : (times.map dayUnixSeconds).min? = some first)
    (hlast : (times.map dayUnixSeconds).max? = some last) :
    ∃ k : Nat, max last (dayUnixSeconds now) = first + k * 86400 ∧
      expanded (daily times) now =
        (List.range (k + 1)).map fun i : Nat => first + i * 86400 := by
  have hmin := List.min?_eq_some_iff.mp hfirst
  have hmax := List.max?_eq_some_iff.mp hlast
  obtain ⟨t, -, ht⟩ := List.mem_map.mp hmin.1
  obtain ⟨t', -, ht'⟩ := List.mem_map.mp hmax.1
  have hle := hmin.2 last hmax.1
  have hdvd : (86400 : Int) ∣ max last (dayUnixSeconds now) - first := by
    refine Int.dvd_sub ?_ (ht ▸ dayUnixSeconds_dvd t)
    rcases Int.le_total last (dayUnixSeconds now) with h | h
    · rw [Int.max_eq_right h]
      exact dayUnixSeconds_dvd now
    · rw [Int.max_eq_left h]
      exact ht' ▸ dayUnixSeconds_dvd t'
  have hbound := Int.le_max_left last (dayUnixSeconds now)
  obtain ⟨c, hc⟩ := hdvd
  refine ⟨c.toNat, by omega, ?_⟩
  have hstop : max last (dayUnixSeconds now) =
      first + (c.toNat : Int) * 86400 := by omega
  rw [expanded, daily_days, min?_dedup, max?_dedup, hfirst, hlast]
  dsimp only
  rw [hstop, generateSeries_days]

/-- Either there are no addresses, or the days are a run of days that begins
and ends where it should. -/
theorem expanded_cases (times : List Int) (now : Int) :
    (times = [] ∧ expanded (daily times) now = []) ∨
    ∃ first last : Int, ∃ k : Nat,
      (times.map dayUnixSeconds).min? = some first ∧
      (times.map dayUnixSeconds).max? = some last ∧
      max last (dayUnixSeconds now) = first + k * 86400 ∧
      expanded (daily times) now =
        (List.range (k + 1)).map fun i : Nat => first + i * 86400 := by
  cases hfirst : (times.map dayUnixSeconds).min? with
  | none =>
      rw [List.min?_eq_none_iff, List.map_eq_nil_iff] at hfirst
      subst hfirst
      exact .inl ⟨rfl, rfl⟩
  | some first =>
      cases hlast : (times.map dayUnixSeconds).max? with
      | none =>
          rw [List.max?_eq_none_iff] at hlast
          rw [hlast] at hfirst
          cases hfirst
      | some last =>
          obtain ⟨k, hstop, hdays⟩ := expanded_eq hfirst hlast
          exact .inr ⟨first, last, k, rfl, rfl, hstop, hdays⟩

theorem gapFilled_expanded :
    GapFilled times now (expanded (daily times) now) := by
  rcases expanded_cases times now with ⟨rfl, -⟩ |
    ⟨first, last, k, hfirst, hlast, hstop, hdays⟩
  · exact ⟨rfl, rfl, List.isChain_nil⟩
  · refine ⟨?_, ?_, ?_⟩
    · rw [hdays, hfirst, List.range_succ_eq_map, List.map_cons]
      simp
    · rw [hdays, hlast, List.range_succ, List.map_append,
        List.getLast?_append, Option.map_some, hstop]
      rfl
    · rw [hdays]
      exact days_chain first (k + 1)

/-- Every day that has an address is one of the days of the series. -/
theorem day_mem_expanded {t : Int} (ht : t ∈ times) :
    dayUnixSeconds t ∈ expanded (daily times) now := by
  have hmem : dayUnixSeconds t ∈ times.map dayUnixSeconds :=
    List.mem_map_of_mem ht
  rcases expanded_cases times now with ⟨rfl, -⟩ |
    ⟨first, last, k, hfirst, hlast, hstop, hdays⟩
  · cases ht
  · have hmin := List.min?_eq_some_iff.mp hfirst
    have hmax := (List.max?_eq_some_iff.mp hlast).2 _ hmem
    obtain ⟨t', -, ht'⟩ := List.mem_map.mp hmin.1
    rw [hdays]
    refine mem_days (hmin.2 _ hmem) ?_ (Int.dvd_sub (dayUnixSeconds_dvd t)
      (ht' ▸ dayUnixSeconds_dvd t'))
    have hbound := Int.le_max_left last (dayUnixSeconds now)
    omega

theorem expanded_increases (times : List Int) (now : Int) :
    (expanded (daily times) now).Pairwise fun a b => a < b := by
  rcases expanded_cases times now with ⟨-, hnil⟩ |
    ⟨first, last, k, -, -, -, hdays⟩
  · rw [hnil]
    exact List.Pairwise.nil
  · rw [hdays]
    exact days_increase first (k + 1)

/-! ## The answer -/

/-- The window sums up every address that came by a day. -/
theorem totals_eq (times : List Int) (now : Int) :
    totals (daily times) (expanded (daily times) now) =
      (expanded (daily times) now).map (dayPoint times) := by
  refine List.map_congr_left fun day _ => ?_
  have hnodup : (expanded (daily times) now).Nodup :=
    (expanded_increases times now).imp fun hlt => Int.ne_of_lt hlt
  have hsum := sum_counts (l := times.map dayUnixSeconds)
    (p := fun d => decide (d ≤ day)) hnodup fun x hx _ => by
      obtain ⟨t, ht, rfl⟩ := List.mem_map.mp hx
      exact day_mem_expanded ht
  rw [List.countP_map] at hsum
  rw [dayPoint, NewAddressDaily.mk.injEq]
  refine ⟨rfl, ?_, ?_⟩
  · rw [newAddressesCount_daily, List.count, List.countP_map]
    rfl
  · rw [List.map_congr_left fun d _ => newAddressesCount_daily d]
    exact hsum

theorem totals_increase (times : List Int) (now : Int) :
    (totals (daily times) (expanded (daily times) now)).Pairwise
      fun a b => a.dayUnixSeconds < b.dayUnixSeconds := by
  rw [totals_eq, List.pairwise_map]
  exact expanded_increases times now

/-- The day that the subquery names, counted from the end. -/
theorem cutDay_eq (times : List Int) (now : Int) {n : Int} (hn : 0 < n) :
    cutDay (totals (daily times) (expanded (daily times) now)) n =
      (((expanded (daily times) now).reverse)[n.toNat - 1]?) := by
  have hoffset : (max (n - 1) 0).toNat = n.toNat - 1 := by omega
  rw [cutDay, insertionSort_desc (totals_increase times now), hoffset, List.head?_drop,
    totals_eq, ← List.map_reverse, List.getElem?_map, Option.map_map]
  exact Option.map_id'

/-- With enough days the query lists the last of them. -/
theorem newAddressDailies_of_le {rows : List FirstTxRow} {chainId n : Int}
    (hn : 0 < n)
    (hle : n ≤ (expanded (daily (firstTxTimes chainId rows)) now).length) :
    newAddressDailies rows now chainId n =
      ((expanded (daily (firstTxTimes chainId rows)) now).drop
        ((expanded (daily (firstTxTimes chainId rows)) now).length -
          n.toNat)).map (dayPoint (firstTxTimes chainId rows)) := by
  unfold newAddressDailies
  dsimp only
  have hincrease := totals_increase (firstTxTimes chainId rows) now
  have hcut := cutDay_eq (firstTxTimes chainId rows) now hn
  have htotals := totals_eq (firstTxTimes chainId rows) now
  generalize expanded (daily (firstTxTimes chainId rows)) now = series at *
  generalize totals (daily (firstTxTimes chainId rows)) series = rows' at *
  have hlength : rows'.length = series.length := by
    rw [htotals, List.length_map]
  obtain ⟨x, hx⟩ : ∃ x, rows'[series.length - n.toNat]? = some x :=
    ⟨_, List.getElem?_eq_getElem (by omega)⟩
  have hday : cutDay rows' n = some x.dayUnixSeconds := by
    rw [htotals, List.getElem?_map, Option.map_eq_some_iff] at hx
    obtain ⟨day, hday, rfl⟩ := hx
    have hindex : series.length - 1 - (n.toNat - 1) =
        series.length - n.toNat := by omega
    rw [hcut, List.getElem?_reverse (by omega), hindex, hday]
    rfl
  have hsome : ∀ t : NewAddressDaily, (decide (n = 0) ||
      (some x.dayUnixSeconds).any fun day => decide (day ≤ t.dayUnixSeconds)) =
        decide (x.dayUnixSeconds ≤ t.dayUnixSeconds) := by
    intro t
    rw [decide_eq_false (by omega), Bool.false_or]
    rfl
  rw [hday, List.filter_congr fun t _ => hsome t,
    filter_ge_eq_drop hincrease hx]
  have hsorted : (rows'.drop (series.length - n.toNat)).Pairwise
      fun a b => a.dayUnixSeconds ≤ b.dayUnixSeconds :=
    (hincrease.drop).imp fun hlt => Int.le_of_lt hlt
  rw [hsorted.insertionSort_eq, htotals, List.map_drop]

/-- With fewer the subquery is empty, and so is the answer. -/
theorem newAddressDailies_of_lt {rows : List FirstTxRow} {chainId n : Int}
    (hn : 0 < n)
    (hlt : (expanded (daily (firstTxTimes chainId rows)) now).length < n) :
    newAddressDailies rows now chainId n = [] := by
  unfold newAddressDailies
  dsimp only
  have hnone : ((expanded (daily (firstTxTimes chainId rows))
      now).reverse)[n.toNat - 1]? = none := by
    rw [List.getElem?_eq_none_iff, List.length_reverse]
    omega
  rw [cutDay_eq _ _ hn, hnone, List.filter_eq_nil_iff.mpr fun t _ => ?_]
  · rfl
  · rw [decide_eq_false (by omega)]
    exact Bool.false_ne_true

/-- The last days are listed exactly where no more are asked for than there
are. -/
theorem newAddressDailies_iff (rows : List FirstTxRow) (now chainId : Int)
    {n : Int} (hn : 0 < n) :
    IsLastDays (firstTxTimes chainId rows) now n
        (newAddressDailies rows now chainId n) ↔
      ∀ first ∈ ((firstTxTimes chainId rows).map dayUnixSeconds).min?,
      ∀ last ∈ ((firstTxTimes chainId rows).map dayUnixSeconds).max?,
        n ≤ (max last (dayUnixSeconds now) - first) / 86400 + 1 := by
  have hfilled := @gapFilled_expanded (firstTxTimes chainId rows) now
  rcases expanded_cases (firstTxTimes chainId rows) now with ⟨hnil, hdays⟩ |
    ⟨first, last, k, hfirst, hlast, hstop, hdays⟩
  · rw [hnil]
    constructor
    · intro _ first hfirst
      cases hfirst
    · intro _
      rw [hnil] at hfilled hdays
      refine ⟨_, hfilled, ?_⟩
      rw [newAddressDailies_of_lt hn (by rw [hnil, hdays]; exact hn), hdays,
        List.drop_nil, List.map_nil]
  · rw [hfirst, hlast]
    have hlength : (expanded (daily (firstTxTimes chainId rows)) now).length =
        k + 1 := by
      rw [hdays, List.length_map, List.length_range]
    have hcount : (max last (dayUnixSeconds now) - first) / 86400 + 1 =
        (k + 1 : Int) := by omega
    constructor
    · rintro ⟨series, hseries, hout⟩ first' hfirst' last' hlast'
      cases hfirst'
      cases hlast'
      rw [hcount]
      by_contra hlt
      rw [newAddressDailies_of_lt hn (by omega)] at hout
      -- a series that has a first day has a last one to show
      have hne : series ≠ [] := by
        intro hempty
        have hhead := hseries.first
        rw [hempty, hfirst] at hhead
        cases hhead
      have hzero := congrArg List.length hout
      rw [List.length_map, List.length_drop, List.length_nil] at hzero
      have hpos := List.length_pos_iff.mpr hne
      omega
    · intro h
      have hle := h first rfl last rfl
      rw [hcount] at hle
      exact ⟨_, hfilled, newAddressDailies_of_le hn (by omega)⟩

/-- Three addresses on two days, with a day between them and none after. -/
def threeAddresses : List FirstTxRow :=
  [⟨1, some "P2K1", some 100⟩, ⟨1, some "P2K2", some 200⟩,
    ⟨1, some "P2K3", some 172900⟩]

theorem newAddressDailies_iff_two :
    newAddressDailies threeAddresses 172950 1 2 =
        [⟨86400, 0, 2⟩, ⟨172800, 1, 3⟩] ∧
      IsLastDays (firstTxTimes 1 threeAddresses) 172950 2
        (newAddressDailies threeAddresses 172950 1 2) :=
  ⟨by decide +kernel, (newAddressDailies_iff threeAddresses 172950 1
    (by decide)).mpr (by decide +kernel)⟩

/-- Asked for a day more than there are, the query lists none. -/
theorem newAddressDailies_lists_none :
    newAddressDailies threeAddresses 172950 1 4 = [] ∧
    ¬IsLastDays (firstTxTimes 1 threeAddresses) 172950 4
      (newAddressDailies threeAddresses 172950 1 4) := by
  have hnone : newAddressDailies threeAddresses 172950 1 4 = [] := by
    decide +kernel
  refine ⟨hnone, ?_⟩
  rintro ⟨series, hseries, hout⟩
  rw [hnone] at hout
  have hfirst : ((firstTxTimes 1 threeAddresses).map dayUnixSeconds).min? =
      some 0 := by decide +kernel
  have hlast : ((firstTxTimes 1 threeAddresses).map dayUnixSeconds).max? =
      some 172800 := by decide +kernel
  have hhead := hseries.first
  have hzero := congrArg List.length hout
  rw [List.length_map, List.length_drop, List.length_nil] at hzero
  cases series with
  | nil =>
      rw [hfirst] at hhead
      cases hhead
  | cons day series =>
      rw [List.length_cons] at hzero
      have hfour : (4 : Int).toNat = 4 := rfl
      omega

end Explorer.Ref
