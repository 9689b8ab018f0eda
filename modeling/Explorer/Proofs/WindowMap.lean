import Explorer.Ref.RateLimit
import Mathlib.Data.List.Dedup
import Mathlib.Data.List.Perm.Subperm

/-!
# The window map does not grow without bound

A window is made on the first call of its partition and goes in a sweep, so the
map holds what was called since the last sweep and what that sweep kept. The
sweeps are at most 4097 calls apart; and a sweep keeps a window only if one of
its slots is still inside the window of the sweeping call, which takes a call
of that partition in that window. A slot that was never written has segment 0,
and counts only where segment 0 is inside.
-/

namespace Explorer.Ref

/-- A slot that is not the empty one is of a call of the partition. -/
def SlidingWindow.WrittenBy (calls : List Call) (p : String)
    (w : SlidingWindow) : Prop :=
  ∀ i, (w.buckets i).segment = 0 ∨
    ∃ c ∈ calls, c.partition = p ∧ c.segment = (w.buckets i).segment

theorem SlidingWindow.WrittenBy.mono {calls calls' : List Call} {p : String}
    {w : SlidingWindow} (h : w.WrittenBy calls p)
    (hsub : ∀ c ∈ calls, c ∈ calls') : w.WrittenBy calls' p := by
  intro i
  rcases h i with hzero | ⟨c, hc, hrest⟩
  · exact .inl hzero
  · exact .inr ⟨c, hsub c hc, hrest⟩

theorem SlidingWindow.WrittenBy.rolled {calls : List Call} {p : String}
    {w : SlidingWindow} (h : w.WrittenBy calls p) (now : Nat) :
    (w.rolled now).WrittenBy calls p := by
  intro i
  unfold SlidingWindow.rolled
  simp only
  split
  · exact .inl rfl
  · exact h i

theorem SlidingWindow.WrittenBy.tryAdmit {calls : List Call} {c : Call}
    {w : SlidingWindow} (h : w.WrittenBy calls c.partition) (hc : c ∈ calls) :
    (w.tryAdmit c.segment c.limit).2.WrittenBy calls c.partition := by
  have hrolled := h.rolled c.segment
  unfold SlidingWindow.tryAdmit
  split
  · exact hrolled
  · intro i
    simp only [SlidingWindow.record]
    split
    · refine .inr ⟨c, hc, rfl, ?_⟩
      split <;> rfl
    · exact hrolled i

/-- The calls up to the last sweep, and from it on. -/
structure SinceSweep (old recent : List Call) (s : RateLimiter) : Prop where
  length : recent.length ≤ s.opsSinceSweep + 1
  ops : s.opsSinceSweep ≤ sweepEveryOps
  written : ∀ p w, s.windows p = some w → w.WrittenBy (old ++ recent) p
  called : ∀ p w, s.windows p = some w →
    (∃ c ∈ recent, c.partition = p) ∨
      ∃ sweep rest, recent = sweep :: rest ∧
        ∃ c ∈ old, c.partition = p ∧ windowStart sweep.segment ≤ c.segment

/-- A window that a sweep keeps was called in the window of the sweep. -/
theorem called_of_sweep {calls : List Call} {p : String} {w : SlidingWindow}
    {now : Nat} (hwritten : w.WrittenBy calls p)
    (hcalled : ∃ c ∈ calls, c.partition = p)
    (hkept : (List.finRange segments).any (fun i =>
      decide (windowStart now ≤ (w.buckets i).segment)) = true) :
    ∃ c ∈ calls, c.partition = p ∧ windowStart now ≤ c.segment := by
  obtain ⟨i, -, hlive⟩ := List.any_eq_true.mp hkept
  have hlive := of_decide_eq_true hlive
  rcases hwritten i with hzero | ⟨c, hc, hp, hsegment⟩
  · obtain ⟨c, hc, hp⟩ := hcalled
    exact ⟨c, hc, hp, by omega⟩
  · exact ⟨c, hc, hp, by omega⟩

theorem SinceSweep.called_any {old recent : List Call} {s : RateLimiter}
    (h : SinceSweep old recent s) {p : String} {w : SlidingWindow}
    (hp : s.windows p = some w) : ∃ c ∈ old ++ recent, c.partition = p := by
  rcases h.called p w hp with ⟨c, hc, hrest⟩ | ⟨_, _, -, c, hc, hrest, -⟩
  · exact ⟨c, List.mem_append_right _ hc, hrest⟩
  · exact ⟨c, List.mem_append_left _ hc, hrest⟩

/-- A call writes its own window and leaves the others. -/
theorem admitIn_cases {windows : Windows} {c : Call} {p : String}
    {w : SlidingWindow} (h : (admitIn windows c).2 p = some w) :
    (p = c.partition ∧ w = (((windows c.partition).getD .new).tryAdmit
      c.segment c.limit).2) ∨ windows p = some w := by
  simp only [admitIn] at h
  split at h
  · next hp =>
      cases h
      exact .inl ⟨hp, rfl⟩
  · exact .inr h

theorem SlidingWindow.writtenBy_new (calls : List Call) (p : String) :
    SlidingWindow.new.WrittenBy calls p := fun _ => .inl rfl

/-- The window of a call afterwards. -/
theorem SlidingWindow.WrittenBy.admitIn {windows : Windows}
    {calls : List Call} {c : Call}
    (h : ∀ p w, windows p = some w → w.WrittenBy calls p) {p : String}
    {w : SlidingWindow} (hw : (admitIn windows c).2 p = some w) :
    w.WrittenBy (calls ++ [c]) p := by
  have hmono : ∀ d ∈ calls, d ∈ calls ++ [c] := fun d hd =>
    List.mem_append_left _ hd
  rcases admitIn_cases hw with ⟨rfl, rfl⟩ | hw
  · refine WrittenBy.tryAdmit ?_ (List.mem_append_right _
      (List.mem_singleton_self c))
    cases hold : windows c.partition with
    | none => exact writtenBy_new _ _
    | some w => exact (h _ w hold).mono hmono
  · exact (h p w hw).mono hmono

theorem SinceSweep.admitPartition {old recent : List Call} {s : RateLimiter}
    (h : SinceSweep old recent s) (c : Call) :
    ∃ old' recent', old ++ recent ++ [c] = old' ++ recent' ∧
      SinceSweep old' recent' (admitPartition s c).2 := by
  unfold Ref.admitPartition
  split
  · -- the call sweeps: what was recent is old
    refine ⟨old ++ recent, [c], rfl, Nat.le_refl _, Nat.zero_le _, ?_, ?_⟩
    · intro p w hw
      refine SlidingWindow.WrittenBy.admitIn (fun p w hw => ?_) hw
      exact h.written p w (Option.filter_eq_some_iff.mp hw).1
    · intro p w hw
      rcases admitIn_cases hw with ⟨rfl, -⟩ | hw
      · exact .inl ⟨c, List.mem_singleton_self c, rfl⟩
      · obtain ⟨hw, hkept⟩ := Option.filter_eq_some_iff.mp hw
        exact .inr ⟨c, [], rfl,
          called_of_sweep (h.written p w hw) (h.called_any hw) hkept⟩
  · next hops =>
      refine ⟨old, recent ++ [c], by rw [List.append_assoc], ?_, ?_, ?_, ?_⟩
      · rw [List.length_append, List.length_singleton]
        exact Nat.succ_le_succ h.length
      · exact Nat.lt_of_not_le hops
      · intro p w hw
        rw [← List.append_assoc]
        exact SlidingWindow.WrittenBy.admitIn h.written hw
      · intro p w hw
        rcases admitIn_cases hw with ⟨rfl, -⟩ | hw
        · exact .inl ⟨c, List.mem_append_right _ (List.mem_singleton_self c),
            rfl⟩
        · rcases h.called p w hw with ⟨d, hd, hp⟩ |
              ⟨sweep, rest, rfl, hold⟩
          · exact .inl ⟨d, List.mem_append_left _ hd, hp⟩
          · exact .inr ⟨sweep, rest ++ [c], rfl, hold⟩

/-- After any calls. -/
theorem exists_sinceSweep (calls : List Call) :
    ∃ old recent, calls = old ++ recent ∧
      SinceSweep old recent (limiterAfter calls) := by
  induction calls using List.reverseRecOn with
  | nil =>
      refine ⟨[], [], rfl, Nat.zero_le _, Nat.zero_le _, ?_, ?_⟩
      · intro p w hw
        cases hw
      · intro p w hw
        cases hw
  | append_singleton calls c ih =>
      obtain ⟨old, recent, rfl, h⟩ := ih
      rw [limiterAfter, List.foldl_append]
      exact h.admitPartition c

/-- Whoever has a window has called. -/
theorem called_of_windows {calls : List Call} {p : String}
    {w : SlidingWindow} (h : (limiterAfter calls).windows p = some w) :
    ∃ c ∈ calls, c.partition = p := by
  obtain ⟨old, recent, rfl, hsince⟩ := exists_sinceSweep calls
  exact hsince.called_any h

/-- Among the last 4097 calls there is one from which on, whatever has a
window, has called, or it called before that in the window of that call. There
are at most 4097 windows more than the partitions of those calls. -/
theorem windowMap_bounded (calls : List Call) :
    ∃ old recent, calls = old ++ recent ∧ recent.length ≤ sweepEveryOps + 1 ∧
      ∃ live, live.Sublist old ∧
        (∀ c ∈ live, ∃ sweep ∈ recent.head?,
          windowStart sweep.segment ≤ c.segment) ∧
        (∀ p w, (limiterAfter calls).windows p = some w →
          ∃ c ∈ live ++ recent, c.partition = p) ∧
        ∀ held : List String, held.Nodup →
          (∀ p ∈ held, (limiterAfter calls).windows p ≠ none) →
          held.length ≤ (live.map Call.partition).dedup.length +
            (sweepEveryOps + 1) := by
  obtain ⟨old, recent, hsplit, h⟩ := exists_sinceSweep calls
  have hlength : recent.length ≤ sweepEveryOps + 1 :=
    Nat.le_trans h.length (Nat.succ_le_succ h.ops)
  -- the calls that kept their windows in the last sweep
  let live := old.filter fun c => recent.head?.any fun sweep =>
    decide (windowStart sweep.segment ≤ c.segment)
  have hcalled : ∀ p w, (limiterAfter calls).windows p = some w →
      ∃ c ∈ live ++ recent, c.partition = p := by
    intro p w hw
    rcases h.called p w hw with ⟨c, hc, hp⟩ | ⟨sweep, rest, hhead, c, hc, hp,
        hlive⟩
    · exact ⟨c, List.mem_append_right _ hc, hp⟩
    · refine ⟨c, List.mem_append_left _ (List.mem_filter.mpr ⟨hc, ?_⟩), hp⟩
      rw [hhead, List.head?_cons, Option.any_some]
      exact decide_eq_true hlive
  refine ⟨old, recent, hsplit, hlength, live, List.filter_sublist, ?_, hcalled,
    fun held hnodup hheld => ?_⟩
  · intro c hc
    have hany := (List.mem_filter.mp hc).2
    cases hhead : recent.head? with
    | none => simp [hhead] at hany
    | some sweep =>
        rw [hhead, Option.any_some] at hany
        exact ⟨sweep, rfl, of_decide_eq_true hany⟩
  · have hsub : held ⊆ (live.map Call.partition).dedup ++
        recent.map Call.partition := by
      intro p hp
      obtain ⟨w, hw⟩ := Option.ne_none_iff_exists'.mp (hheld p hp)
      obtain ⟨c, hc, rfl⟩ := hcalled p w hw
      rcases List.mem_append.mp hc with hc | hc
      · exact List.mem_append_left _
          (List.mem_dedup.mpr (List.mem_map_of_mem hc))
      · exact List.mem_append_right _ (List.mem_map_of_mem hc)
    have hle := (List.subperm_of_subset hnodup hsub).length_le
    rw [List.length_append, List.length_map] at hle
    omega

end Explorer.Ref
