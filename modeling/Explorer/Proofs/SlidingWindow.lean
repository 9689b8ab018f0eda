import Explorer.Lib.Counting
import Explorer.Ref.RateLimit

/-!
# The limiter is a sliding window over its own admissions

The specification has no slots and no sweep: a call is admitted when fewer
than its limit of the partition's admitted calls lie in the six segments
that end at its own. The code keeps six slots per partition, zeroes them
lazily, takes a slot over when its residue comes round again, and drops
whole windows from the map.

The bridge is `Tracks`, and it is stated on what a slot *contributes* and
not on what it holds: read at any later segment, slot `i` contributes
exactly the admissions of residue `i` that are still inside the window. A
reset does not change a contribution, because a slot that has rolled out
contributes nothing from then on; neither does dropping a window all of
whose slots have rolled out. That is why the sweep and the two meanings of
`(0, 0)` never show.
-/

namespace Explorer.Ref

open Explorer.Lib

/-- What a slot adds to the total of a window that ends at `now`. -/
def Bucket.contribution (b : Bucket) (now : Nat) : Nat :=
  if b.segment < windowStart now then 0 else b.count

/-- The admissions of residue `i` still inside the window that ends at
`now`. -/
def residueCount (hist : List Nat) (i : Fin segments) (now : Nat) : Nat :=
  hist.countP fun a => decide (slot a = i) && decide (windowStart now ≤ a)

/-- The window `w` stands for the admitted segments `hist`, none of them
after `last`. -/
structure Tracks (w : SlidingWindow) (hist : List Nat) (last : Nat) : Prop where
  /-- No admission lies in the future. -/
  past : ∀ a ∈ hist, a ≤ last
  /-- Neither does a slot. -/
  slotPast : ∀ i, (w.buckets i).segment ≤ last
  /-- A slot that counts anything counts a segment of its own residue. -/
  home : ∀ i, (w.buckets i).count ≠ 0 → slot (w.buckets i).segment = i
  /-- Read now or later, a slot contributes its residue's admissions. -/
  contributes : ∀ i now, last ≤ now →
    (w.buckets i).contribution now = residueCount hist i now

theorem windowStart_mono {m n : Nat} (h : m ≤ n) :
    windowStart m ≤ windowStart n := by
  unfold windowStart
  omega

theorem Tracks.later {w : SlidingWindow} {hist : List Nat} {last now : Nat}
    (h : Tracks w hist last) (hle : last ≤ now) : Tracks w hist now where
  past a ha := Nat.le_trans (h.past a ha) hle
  slotPast i := Nat.le_trans (h.slotPast i) hle
  home := h.home
  contributes i n hn := h.contributes i n (Nat.le_trans hle hn)

/-- A fresh window stands for no admission at all, and equally for
admissions every one of which has rolled out. -/
theorem tracks_new {hist : List Nat} {last : Nat}
    (hpast : ∀ a ∈ hist, a ≤ last)
    (hout : ∀ i now, last ≤ now → residueCount hist i now = 0) :
    Tracks .new hist last where
  past := hpast
  slotPast _ := Nat.zero_le _
  home _ hne := absurd rfl hne
  contributes i now hn := by
    rw [hout i now hn]
    unfold Bucket.contribution
    split <;> rfl

/-! ## One call on one window -/

theorem Bucket.contribution_rolled {w : SlidingWindow} {now later : Nat}
    (hle : now ≤ later) (i : Fin segments) :
    ((w.rolled now).buckets i).contribution later =
      (w.buckets i).contribution later := by
  have hws := windowStart_mono hle
  simp only [SlidingWindow.rolled]
  split
  · next hout =>
      have hlate : (w.buckets i).segment < windowStart later := by omega
      unfold Bucket.contribution
      rw [if_pos hlate]
      split <;> rfl
  · rfl

theorem Tracks.rolled {w : SlidingWindow} {hist : List Nat} {last now : Nat}
    (h : Tracks w hist last) (hle : last ≤ now) :
    Tracks (w.rolled now) hist now where
  past := (h.later hle).past
  slotPast i := by
    simp only [SlidingWindow.rolled]
    split
    · exact Nat.zero_le _
    · exact (h.later hle).slotPast i
  home i hne := by
    simp only [SlidingWindow.rolled] at hne ⊢
    split at hne
    · exact absurd rfl hne
    · next hin => rw [if_neg hin]; exact h.home i hne
  contributes i n hn := by
    rw [Bucket.contribution_rolled hn]
    exact h.contributes i n (Nat.le_trans hle hn)

/-- The saturating total is the saturated number of admissions still inside
the window. -/
theorem Tracks.total {w : SlidingWindow} {hist : List Nat} {last now : Nat}
    (h : Tracks w hist last) (hle : last ≤ now) :
    w.total now =
      min (hist.countP fun a => decide (windowStart now ≤ a)) u32Max := by
  have hstep : ∀ t i, t ≤ u32Max →
      (if (w.buckets i).segment < windowStart now then t
        else satAdd32 t (w.buckets i).count) =
        min (t + (w.buckets i).contribution now) u32Max := by
    intro t i ht
    unfold Bucket.contribution satAdd32
    split <;> omega
  have hsum : ((List.finRange segments).map fun i =>
      (w.buckets i).contribution now).sum =
      hist.countP fun a => decide (windowStart now ≤ a) := by
    calc ((List.finRange segments).map fun i =>
          (w.buckets i).contribution now).sum
        = ∑ i, (w.buckets i).contribution now :=
          (Fin.sum_univ_def _).symm
      _ = ∑ i, residueCount hist i now :=
          Finset.sum_congr rfl fun i _ => h.contributes i now hle
      _ = hist.countP fun a => decide (windowStart now ≤ a) :=
          sum_countP_fibre slot _ hist
  unfold SlidingWindow.total
  rw [foldl_sat hstep _ 0 (Nat.zero_le _), hsum, Nat.zero_add]

theorem residueCount_append (hist : List Nat) (a : Nat) (i : Fin segments)
    (now : Nat) :
    residueCount (hist ++ [a]) i now = residueCount hist i now +
      if slot a = i ∧ windowStart now ≤ a then 1 else 0 := by
  unfold residueCount
  rw [List.countP_append, List.countP_singleton]
  simp only [Bool.and_eq_true, decide_eq_true_eq]

/-- Two different segments of one residue lie a full window apart. -/
theorem slot_eq_far {a b : Nat} (hs : slot a = slot b) (hle : a ≤ b)
    (hne : a ≠ b) : a < windowStart b := by
  have hmod : a % segments = b % segments := congrArg Fin.val hs
  unfold windowStart segments at *
  omega

/-- Recording an admission adds it to the slot of its residue. The count
cannot saturate: the call was admitted, so the window holds less than a
`u32` limit. -/
theorem Tracks.record {w : SlidingWindow} {hist : List Nat} {now : Nat}
    (h : Tracks w hist now) (hroll : ∀ i, (w.buckets i).count ≠ 0 →
      windowStart now ≤ (w.buckets i).segment)
    (hroom : ∀ i, (w.buckets i).count < u32Max) :
    Tracks (w.record now) (hist ++ [now]) now where
  past a ha := by
    rcases List.mem_append.mp ha with ha | ha
    · exact h.past a ha
    · exact Nat.le_of_eq (List.mem_singleton.mp ha)
  slotPast i := by
    simp only [SlidingWindow.record]
    split
    · split <;> exact Nat.le_refl _
    · exact h.slotPast i
  home i hne := by
    simp only [SlidingWindow.record] at hne ⊢
    split
    · next hi => split <;> exact hi.symm
    · next hi => rw [if_neg hi] at hne; exact h.home i hne
  contributes i n hn := by
    have hold := h.contributes i n hn
    rw [residueCount_append, ← hold]
    simp only [SlidingWindow.record]
    split
    · next hi =>
        subst hi
        split
        · -- The slot already counts `now`.
          next hseg =>
            have hlt := hroom (slot now)
            unfold Bucket.contribution satAdd32
            rw [hseg]
            simp only [true_and]
            split <;> split <;> omega
        · -- The slot is taken over; what it held had rolled out.
          next hseg =>
            have hzero : (w.buckets (slot now)).count = 0 := by
              by_contra hne
              have hfar := slot_eq_far (h.home _ hne) (h.slotPast _) hseg
              have := hroll _ hne
              omega
            unfold Bucket.contribution
            rw [hzero]
            simp only [true_and]
            split <;> split <;> simp_all
    · next hi =>
        rw [if_neg (fun hc => hi hc.1.symm)]
        rfl

/-- What one call does to a window that tracks a history: it is admitted
exactly when the history holds fewer than `limit` admissions inside the
window, and the window then tracks the history with the call added. -/
theorem Tracks.tryAdmit {w : SlidingWindow} {hist : List Nat}
    {last now : Nat} (limit : UInt32) (h : Tracks w hist last)
    (hle : last ≤ now) :
    ((w.tryAdmit now limit).1 = true ↔
      hist.countP (fun a => decide (windowStart now ≤ a)) < limit.toNat) ∧
    Tracks (w.tryAdmit now limit).2
      (if (w.tryAdmit now limit).1 then hist ++ [now] else hist) now := by
  have htot := h.total hle
  have hlim : limit.toNat ≤ u32Max := by
    have := limit.toNat_lt
    unfold u32Max
    omega
  have hrolled := h.rolled hle
  by_cases hfull : limit.toNat ≤ w.total now
  · have hval : w.tryAdmit now limit = (false, w.rolled now) := by
      rw [SlidingWindow.tryAdmit, if_pos hfull]
    rw [hval]
    refine ⟨⟨fun hc => Bool.noConfusion hc, fun hc => ?_⟩, hrolled⟩
    omega
  · have hval : w.tryAdmit now limit = (true, (w.rolled now).record now) := by
      rw [SlidingWindow.tryAdmit, if_neg hfull]
    rw [hval]
    refine ⟨⟨fun _ => by omega, fun _ => rfl⟩, ?_⟩
    have hroll : ∀ i, ((w.rolled now).buckets i).count ≠ 0 →
        windowStart now ≤ ((w.rolled now).buckets i).segment := by
      intro i hne
      simp only [SlidingWindow.rolled] at hne ⊢
      split at hne
      · exact absurd rfl hne
      · next hin => rw [if_neg hin]; omega
    refine hrolled.record hroll fun i => ?_
    -- Each slot counts at most the admissions of the whole window.
    by_cases hz : ((w.rolled now).buckets i).count = 0
    · rw [hz]; decide
    · have hc := hrolled.contributes i now (Nat.le_refl _)
      rw [Bucket.contribution, if_neg (by have := hroll i hz; omega)] at hc
      have hsub : residueCount hist i now ≤
          hist.countP fun a => decide (windowStart now ≤ a) :=
        List.countP_mono_left fun a _ ha => by
          simp only [Bool.and_eq_true] at ha
          exact ha.2
      omega

/-! ## The map of windows

`Follows` is `Tracks` for every partition at once, a partition without a
window counting as one with a fresh window. Both statements that
`admit_partition` is made of keep it: the sweep changes no history, and the
call extends the history of its own partition only. -/

/-- The segments of the calls of `p` among the admitted calls `hist`. -/
def segmentsOf (hist : List Call) (p : String) : List Nat :=
  (hist.filter fun a => decide (a.partition = p)).map Call.segment

/-- The map of windows stands for the admitted calls `hist`. -/
def Follows (windows : Windows) (hist : List Call) (last : Nat) : Prop :=
  ∀ p, Tracks ((windows p).getD .new) (segmentsOf hist p) last

theorem segmentsOf_append (hist : List Call) (c : Call) (p : String) :
    segmentsOf (hist ++ [c]) p =
      if c.partition = p then segmentsOf hist p ++ [c.segment]
      else segmentsOf hist p := by
  unfold segmentsOf
  rw [List.filter_append, List.map_append]
  split
  · next hp => simp [hp]
  · next hp => simp [hp]

theorem follows_empty : Follows (fun _ => none) [] 0 := fun _ =>
  tracks_new (fun _ ha => absurd ha (by simp [segmentsOf]))
    (fun _ _ _ => rfl)

theorem Follows.sweep {windows : Windows} {hist : List Call}
    {last now : Nat} (h : Follows windows hist last) (hle : last ≤ now) :
    Follows (sweepDeadWindows windows now) hist now := by
  intro p
  have hp := (h p).later hle
  cases hw : windows p with
  | none =>
      simpa only [sweepDeadWindows, hw, Option.filter_none] using hw ▸ hp
  | some w =>
      rw [hw] at hp
      simp only [sweepDeadWindows, hw, Option.filter_some]
      split
      · exact hp
      · -- Dropped: every slot has rolled out, so nothing is left to count.
        next hdead =>
          refine tracks_new hp.past fun i n hn => ?_
          rw [← hp.contributes i n hn]
          have hout : (w.buckets i).segment < windowStart now := by
            by_contra hin
            refine hdead (List.any_eq_true.mpr ⟨i, List.mem_finRange i, ?_⟩)
            exact decide_eq_true (by omega)
          have hws := windowStart_mono hn
          exact if_pos (show (w.buckets i).segment < windowStart n by omega)

/-- The admitted calls of the partition of `c` that lie in the six segments
ending at the segment of `c`. -/
def windowCount (hist : List Call) (c : Call) : Nat :=
  hist.countP fun a => decide (a.partition = c.partition ∧
    c.segment - 5 ≤ a.segment ∧ a.segment ≤ c.segment)

theorem windowCount_eq {hist : List Call} {c : Call}
    (hpast : ∀ a ∈ segmentsOf hist c.partition, a ≤ c.segment) :
    windowCount hist c = (segmentsOf hist c.partition).countP
      fun a => decide (windowStart c.segment ≤ a) := by
  unfold windowCount
  have hpast' : ∀ a ∈ hist, a.partition = c.partition →
      a.segment ≤ c.segment := fun a ha hp =>
    hpast _ (List.mem_map.mpr ⟨a, List.mem_filter.mpr ⟨ha, by simpa⟩, rfl⟩)
  rw [segmentsOf, List.countP_map, List.countP_filter]
  refine List.countP_congr fun a ha => ?_
  simp only [Function.comp_apply, Bool.and_eq_true, decide_eq_true_eq]
  constructor
  · rintro ⟨hp, hlo, -⟩
    exact ⟨hlo, hp⟩
  · rintro ⟨hlo, hp⟩
    exact ⟨hp, hlo, hpast' a ha hp⟩

/-- The history after a call: the call is appended if it was admitted. -/
def extend (hist : List Call) (c : Call) : Bool → List Call
  | true => hist ++ [c]
  | false => hist

/-- One call on the map of windows. -/
theorem Follows.admitIn {windows : Windows} {hist : List Call} {last : Nat}
    {c : Call} (h : Follows windows hist last) (hle : last ≤ c.segment) :
    (Ref.admitIn windows c).1 = decide (windowCount hist c < c.limit.toNat) ∧
    Follows (Ref.admitIn windows c).2
      (extend hist c (Ref.admitIn windows c).1) c.segment := by
  obtain ⟨hiff, htr⟩ := (h c.partition).tryAdmit c.limit hle
  rw [← windowCount_eq ((h c.partition).later hle).past] at hiff
  rw [Ref.admitIn]
  generalize ((windows c.partition).getD .new).tryAdmit c.segment c.limit = r
    at hiff htr
  obtain ⟨adm, w⟩ := r
  refine ⟨by rw [Bool.eq_iff_iff, decide_eq_true_iff]; exact hiff, fun p => ?_⟩
  by_cases hp : c.partition = p
  · subst hp
    cases adm with
    | false => simpa [extend] using htr
    | true => simpa [extend, segmentsOf_append] using htr
  · have hother := (h p).later hle
    have hp' : ¬ p = c.partition := fun e => hp e.symm
    cases adm with
    | false => simpa only [extend, hp', if_false] using hother
    | true =>
        simpa only [extend, segmentsOf_append, hp, hp', if_false] using hother

/-! ## Runs

The specification run keeps the admitted calls and nothing else. -/

/-- The calls the specification admits, in order. -/
def windowLog (calls : List Call) : List Call :=
  calls.foldl (fun hist c =>
    extend hist c (decide (windowCount hist c < c.limit.toNat))) []

theorem windowLog_append (calls : List Call) (c : Call) :
    windowLog (calls ++ [c]) = extend (windowLog calls) c
      (decide (windowCount (windowLog calls) c < c.limit.toNat)) :=
  List.foldl_append

/-- The calls among `calls` that the limiter admitted, starting from the
limiter `s`. -/
def admittedFrom (s : RateLimiter) : List Call → List Call
  | [] => []
  | c :: rest =>
      if (admitPartition s c).1 then
        c :: admittedFrom (admitPartition s c).2 rest
      else admittedFrom (admitPartition s c).2 rest

/-- The calls a new limiter admitted among `calls`. -/
def admittedCalls (calls : List Call) : List Call := admittedFrom .new calls

/-- Segment numbers never go back. -/
def Chronological (calls : List Call) : Prop :=
  calls.Pairwise fun a b => a.segment ≤ b.segment

theorem admittedFrom_append (s : RateLimiter) (xs : List Call) (c : Call) :
    admittedFrom s (xs ++ [c]) = extend (admittedFrom s xs) c
      (admitPartition (xs.foldl (fun s c => (admitPartition s c).2) s) c).1 := by
  induction xs generalizing s with
  | nil =>
      simp only [List.nil_append, admittedFrom, List.foldl_nil]
      cases (admitPartition s c).1 <;> rfl
  | cons x xs ih =>
      simp only [List.cons_append, admittedFrom, List.foldl_cons, ih]
      split
      · generalize (admitPartition (List.foldl _ _ xs) c).1 = adm
        cases adm <;> rfl
      · rfl

theorem Follows.admitPartition {s : RateLimiter} {hist : List Call}
    {last : Nat} {c : Call} (h : Follows s.windows hist last)
    (hle : last ≤ c.segment) :
    (Ref.admitPartition s c).1 =
      decide (windowCount hist c < c.limit.toNat) ∧
    Follows (Ref.admitPartition s c).2.windows
      (extend hist c (Ref.admitPartition s c).1) c.segment := by
  unfold Ref.admitPartition
  split
  · exact (h.sweep hle).admitIn (Nat.le_refl _)
  · exact h.admitIn hle

theorem Chronological.last_le {pre : List Call} {b c : Call}
    (h : Chronological ((pre ++ [b]) ++ [c])) : b.segment ≤ c.segment :=
  (List.pairwise_append.mp h).2.2 b (by simp) c (by simp)

/-- A run of the limiter, swept or not, follows the specification's log. The
induction is on the calls from the front of time, so the segment the
windows were last read at is the segment of the last call. -/
theorem run_follows (calls : List Call) (h : Chronological calls) :
    ∃ last, (∀ c, Chronological (calls ++ [c]) → last ≤ c.segment) ∧
      admittedCalls calls = windowLog calls ∧
      Follows (limiterAfter calls).windows (windowLog calls) last ∧
      Follows (windowsUnswept calls) (windowLog calls) last := by
  induction calls using List.reverseRecOn with
  | nil => exact ⟨0, fun _ _ => Nat.zero_le _, rfl, follows_empty, follows_empty⟩
  | append_singleton pre b ih =>
      obtain ⟨last, hlast, hlog, hswept, hunswept⟩ :=
        ih (List.pairwise_append.mp h).1
      have hle := hlast b h
      obtain ⟨hdec, hfol⟩ := hswept.admitPartition hle
      obtain ⟨hdec', hfol'⟩ := hunswept.admitIn hle
      refine ⟨b.segment, fun c hc => hc.last_le, ?_, ?_, ?_⟩
      · rw [admittedCalls, admittedFrom_append, ← admittedCalls, hlog,
          windowLog_append, ← hdec]
        rfl
      · rw [windowLog_append, ← hdec, limiterAfter, List.foldl_append]
        exact hfol
      · rw [windowLog_append, ← hdec', windowsUnswept, List.foldl_append]
        exact hfol'

/-- What the limiter answers is what the specification answers, swept or
not. -/
theorem decision_eq_windowLog {pre : List Call} {c : Call}
    (h : Chronological (pre ++ [c])) :
    decision pre c =
      decide (windowCount (windowLog pre) c < c.limit.toNat) ∧
    decisionUnswept pre c =
      decide (windowCount (windowLog pre) c < c.limit.toNat) := by
  obtain ⟨last, hlast, -, hswept, hunswept⟩ :=
    run_follows pre (List.pairwise_append.mp h).1
  exact ⟨(hswept.admitPartition (hlast c h)).1,
    (hunswept.admitIn (hlast c h)).1⟩

theorem windowCount_filter (hist : List Call) (c : Call) :
    windowCount (hist.filter fun a => decide (a.partition = c.partition)) c =
      windowCount hist c := by
  unfold windowCount
  rw [List.countP_filter]
  refine List.countP_congr fun a _ => ?_
  simp only [Bool.and_eq_true, decide_eq_true_eq]
  tauto

/-- The specification treats each partition on its own. -/
theorem windowLog_filter (p : String) (calls : List Call) :
    windowLog (calls.filter fun a => decide (a.partition = p)) =
      (windowLog calls).filter fun a => decide (a.partition = p) := by
  induction calls using List.reverseRecOn with
  | nil => rfl
  | append_singleton pre b ih =>
      rw [List.filter_append, windowLog_append]
      by_cases hp : b.partition = p
      · have hone : [b].filter (fun a => decide (a.partition = p)) = [b] := by
          simp [hp]
        have hsame := windowCount_filter (windowLog pre) b
        rw [hp, ← ih] at hsame
        rw [hone, windowLog_append, hsame, ih]
        cases decide (windowCount (windowLog pre) b < b.limit.toNat) with
        | false => rfl
        | true => rw [extend, extend, List.filter_append, hone]
      · have hnone : [b].filter (fun a => decide (a.partition = p)) = [] := by
          simp [hp]
        rw [hnone, List.append_nil, ih]
        cases decide (windowCount (windowLog pre) b < b.limit.toNat) with
        | false => rfl
        | true => rw [extend, List.filter_append, hnone, List.append_nil]

theorem Chronological.sublist {xs ys : List Call} (h : Chronological ys)
    (hsub : xs.Sublist ys) : Chronological xs := List.Pairwise.sublist hsub h

/-- The limiter treats each partition on its own. -/
theorem decision_filter {pre : List Call} {c : Call}
    (h : Chronological (pre ++ [c])) :
    decision (pre.filter fun a => decide (a.partition = c.partition)) c =
      decision pre c := by
  have hsub : Chronological
      ((pre.filter fun a => decide (a.partition = c.partition)) ++ [c]) :=
    h.sublist (List.filter_sublist.append_right _)
  rw [(decision_eq_windowLog hsub).1, (decision_eq_windowLog h).1,
    windowLog_filter, windowCount_filter]

/-- The specification forgets a refused call. -/
theorem windowLog_refused {xs ys : List Call} {r : Call}
    (h : Chronological (xs ++ [r])) (hno : decision xs r = false) :
    windowLog (xs ++ r :: ys) = windowLog (xs ++ ys) := by
  have hr := (decision_eq_windowLog h).1
  rw [hno] at hr
  have hone : windowLog (xs ++ [r]) = windowLog xs := by
    rw [windowLog_append, ← hr]
    rfl
  calc windowLog (xs ++ r :: ys)
      = windowLog ((xs ++ [r]) ++ ys) := by rw [List.append_assoc]; rfl
    _ = windowLog (xs ++ ys) := by
        rw [windowLog, List.foldl_append, ← windowLog, hone, windowLog,
          ← List.foldl_append, ← windowLog]

/-- The limiter meets its specification. On any chronological sequence of
calls, a call is admitted exactly when fewer than its limit of the earlier
admitted calls of its partition lie in the six segments ending at its own;
a limiter that never swept would have answered the same, so would one that
never saw the other partitions, and so would one that never saw a call it
refused. -/
theorem decision_meets_window_spec (pre : List Call) (c : Call)
    (h : Chronological (pre ++ [c])) :
    (decision pre c = true ↔
      ((admittedCalls pre).countP fun a =>
        decide (a.partition = c.partition ∧ c.segment - 5 ≤ a.segment ∧
          a.segment ≤ c.segment)) < c.limit.toNat) ∧
    decisionUnswept pre c = decision pre c ∧
    decision (pre.filter fun a => decide (a.partition = c.partition)) c =
      decision pre c ∧
    (∀ xs r ys, pre = xs ++ r :: ys → decision xs r = false →
      decision (xs ++ ys) c = decision pre c) := by
  obtain ⟨hdec, hunswept⟩ := decision_eq_windowLog h
  obtain ⟨-, -, hlog, -, -⟩ := run_follows pre (List.pairwise_append.mp h).1
  refine ⟨?_, ?_, ?_, ?_⟩
  · rw [hdec, hlog, decide_eq_true_iff]
    rfl
  · rw [hunswept, hdec]
  · exact decision_filter h
  · rintro xs r ys rfl hno
    have hsub : Chronological ((xs ++ ys) ++ [c]) :=
      h.sublist (((List.sublist_cons_self r ys).append_left xs).append_right _)
    have hr : Chronological (xs ++ [r]) := by
      refine h.sublist ?_
      rw [List.append_assoc]
      exact List.Sublist.append_left (by simp) xs
    rw [(decision_eq_windowLog hsub).1, hdec, windowLog_refused hr hno]

/-- Three calls of one partition under a limit of one: the call in segment 5
is refused because segment 0 is still inside its window, the call in
segment 6 is admitted because it no longer is. -/
theorem decision_meets_window_spec_rolls_over :
    decision [⟨"ip:203.0.113.7", 1, 0⟩] ⟨"ip:203.0.113.7", 1, 5⟩ = false ∧
    decision [⟨"ip:203.0.113.7", 1, 0⟩, ⟨"ip:203.0.113.7", 1, 5⟩]
      ⟨"ip:203.0.113.7", 1, 6⟩ = true :=
  ⟨by decide, (decision_meets_window_spec _ _
    (by simp [Chronological])).1.mpr (by decide)⟩

end Explorer.Ref
