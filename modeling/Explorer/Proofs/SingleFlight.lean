import Explorer.Ref.Overview

/-!
# The overview counters are counted once a minute

The flight lock is held from the second look into the cache to after the
insert, so no other request can put a count in between the look that found
none and the insert that follows from it. That is the invariant of a request
that counts: whatever is in the history of its key had run out when it began.

Every answer was the fresh entry of its key at a moment since the request
came, and every request ends: it has eight steps at most to go, and where no
request holds the lock one that waits can take it.
-/

namespace Explorer.Ref

open Explorer.Lib

/-! ## What a step can do -/

inductive OverviewMove (s : OverviewState) (t : OverviewThread) :
    OverviewState → OverviewPhase → Prop
  | resolved {c : Option Int32} : t.phase = .resolving →
      OverviewMove s t s (.looking c)
  | hit {c : Option Int32} {counts : OverviewCounts} : t.phase = .looking c →
      s.fresh t.request.cacheKey = some counts →
      OverviewMove s t s (.ended (.answered counts))
  | miss {c : Option Int32} : t.phase = .looking c →
      OverviewMove s t s (.waiting c)
  | acquire {c : Option Int32} : t.phase = .waiting c → s.flight = false →
      OverviewMove s t { s with flight := true } (.rechecking c)
  | rehit {c : Option Int32} {counts : OverviewCounts} :
      t.phase = .rechecking c → s.fresh t.request.cacheKey = some counts →
      OverviewMove s t s (.leaving (.answered counts))
  | remiss {c : Option Int32} : t.phase = .rechecking c →
      s.fresh t.request.cacheKey = none →
      OverviewMove s t s (.counting c s.now)
  | counted {c : Option Int32} {started : Nat} {counts : OverviewCounts} :
      t.phase = .counting c started →
      OverviewMove s t s (.storing c started counts)
  | gaveUp {c : Option Int32} {started : Nat} {result : OverviewEnd} :
      t.phase = .counting c started →
      (result = .failed ∨ result = .dropped) →
      OverviewMove s t s (.leaving result)
  | store {c : Option Int32} {started : Nat} {counts : OverviewCounts} :
      t.phase = .storing c started counts →
      OverviewMove s t (s.store t.request.cacheKey c started counts)
        (.leaving (.answered counts))
  | release {result : OverviewEnd} : t.phase = .leaving result →
      OverviewMove s t { s with flight := false } (.ended result)
  | dropped : t.phase = .resolving ∨ (∃ c, t.phase = .waiting c) →
      OverviewMove s t s (.ended .dropped)

theorem overviewStep_moves {s s' : OverviewState} {t t' : OverviewThread}
    {a : OverviewAct} (h : overviewStep s t a = some (s', t')) :
    t'.request = t.request ∧ OverviewMove s t s' t'.phase := by
  cases a with
  | resolved chainId =>
      simp only [overviewStep] at h
      split at h
      · next hphase =>
          cases h
          exact ⟨rfl, .resolved hphase⟩
      · cases h
  | look =>
      simp only [overviewStep] at h
      split at h
      · next hphase =>
          split at h
          · next hfresh =>
              cases h
              exact ⟨rfl, .hit hphase hfresh⟩
          · cases h
            exact ⟨rfl, .miss hphase⟩
      · next hphase =>
          split at h
          · next hfresh =>
              cases h
              exact ⟨rfl, .rehit hphase hfresh⟩
          · next hfresh =>
              cases h
              exact ⟨rfl, .remiss hphase hfresh⟩
      · cases h
  | acquire =>
      simp only [overviewStep] at h
      split at h
      · next hphase =>
          split at h
          · cases h
          · next hfree =>
              cases h
              exact ⟨rfl, .acquire hphase (Bool.eq_false_iff.mpr hfree)⟩
      · cases h
  | counted result =>
      simp only [overviewStep] at h
      split at h
      · next hphase =>
          cases result with
          | ok counts =>
              cases h
              exact ⟨rfl, .counted hphase⟩
          | error e =>
              cases h
              exact ⟨rfl, .gaveUp hphase (.inl rfl)⟩
      · cases h
  | store =>
      simp only [overviewStep] at h
      split at h
      · next hphase =>
          cases h
          exact ⟨rfl, .store hphase⟩
      · cases h
  | release =>
      simp only [overviewStep] at h
      split at h
      · next hphase =>
          cases h
          exact ⟨rfl, .release hphase⟩
      · cases h
  | drop =>
      simp only [overviewStep] at h
      split at h
      · next hphase =>
          cases h
          exact ⟨rfl, .dropped (.inl hphase)⟩
      · next hphase =>
          cases h
          exact ⟨rfl, .dropped (.inr ⟨_, hphase⟩)⟩
      · next hphase =>
          cases h
          exact ⟨rfl, .gaveUp hphase (.inr rfl)⟩
      · cases h

theorem OverviewThread.arrive_phase (chain : String)
    (query : OverviewStatsQuery) :
    (OverviewThread.arrive chain query).phase = .resolving ∨
      ∃ error, (OverviewThread.arrive chain query).phase =
        .ended (.refused error) := by
  unfold OverviewThread.arrive
  simp only
  split
  · next error _ => exact .inr ⟨error, rfl⟩
  · exact .inl rfl

/-! ## The lock -/

/-- The request has the flight lock. -/
def OverviewThread.holds (t : OverviewThread) : Bool :=
  match t.phase with
  | .rechecking _ | .counting _ _ | .storing _ _ _ | .leaving _ => true
  | _ => false

theorem overview_counts_holders (chain : String) :
    (overviewSystem chain).Counts OverviewThread.holds
      fun s => s.flight.toNat where
  spawn s query := by
    show (OverviewThread.arrive chain query).holds = false
    rcases OverviewThread.arrive_phase chain query with h | ⟨_, h⟩ <;>
      simp only [OverviewThread.holds, h]
  step s t a s' t' hpos h := by
    obtain ⟨-, hmove⟩ := overviewStep_moves h
    have hheld : ∀ {p : OverviewPhase}, t.phase = p →
        t.holds = OverviewThread.holds ⟨t.request, p⟩ := by
      rintro _ rfl
      rfl
    have hheld' : t'.holds = OverviewThread.holds ⟨t'.request, t'.phase⟩ := rfl
    generalize t'.phase = p at hmove hheld'
    rw [hheld']
    cases hmove with
    | acquire hphase hfree =>
        rw [hheld hphase, hfree]
        rfl
    | release hphase =>
        have hheld := hheld hphase
        have : 0 < s.flight.toNat := hpos hheld
        rw [hheld]
        cases hflight : s.flight with
        | false => simp [hflight] at this
        | true => rfl
    | dropped hphase =>
        rcases hphase with hphase | ⟨c, hphase⟩ <;> rw [hheld hphase] <;> rfl
    | resolved hphase | hit hphase | miss hphase | rehit hphase
    | remiss hphase | counted hphase | gaveUp hphase | store hphase =>
        rw [hheld hphase]
        rfl
  env s n s' h := by
    cases h
    rfl

/-! ## The history of the cache -/

/-- One count was over when the other began, and so was its time to live if it
is the other's key. -/
def OverviewStored.Before (a b : OverviewStored) : Prop :=
  a.storedAt ≤ b.started ∧
    (a.key = b.key → a.storedAt + overviewCacheTtl ≤ b.started)

/-- The cache is the last of its history, in which each count came after those
before it. -/
structure OverviewState.Sound (s : OverviewState) : Prop where
  cached : ∀ key e, s.cache key = some e →
    ∃ r ∈ s.stored, r.key = key ∧ r.storedAt = e.1 ∧ r.counts = e.2
  last : ∀ r ∈ s.stored, ∃ e, s.cache r.key = some e ∧ r.storedAt ≤ e.1
  past : ∀ r ∈ s.stored, r.started ≤ r.storedAt ∧ r.storedAt ≤ s.now
  apart : s.stored.Pairwise OverviewStored.Before

/-- When the count of the request began, until it is in the cache. -/
def OverviewThread.started (t : OverviewThread) : Option Nat :=
  match t.phase with
  | .counting _ n => some n
  | .storing _ n _ => some n
  | _ => none

theorem OverviewThread.holds_of_started {t : OverviewThread} {n : Nat}
    (h : t.started = some n) : t.holds = true := by
  unfold started at h
  unfold holds
  split at h
  · next hphase => rw [hphase]
  · next hphase => rw [hphase]
  · cases h

/-- Whatever is in the history was over when the count of the request began,
and had run out if it is of the same key. -/
def OverviewThread.Alone (s : OverviewState) (t : OverviewThread) : Prop :=
  ∀ n, t.started = some n → n ≤ s.now ∧ ∀ r ∈ s.stored, r.storedAt ≤ n ∧
    (r.key = t.request.cacheKey → r.storedAt + overviewCacheTtl ≤ n)

/-- What has no fresh entry has run out. -/
theorem OverviewState.Sound.ranOut {s : OverviewState} (h : s.Sound)
    {key : OverviewCacheKey} (hfresh : s.fresh key = none) {r : OverviewStored}
    (hr : r ∈ s.stored) (hkey : r.key = key) :
    r.storedAt + overviewCacheTtl ≤ s.now := by
  obtain ⟨e, he, hle⟩ := h.last r hr
  rw [hkey] at he
  rw [fresh, he, Option.map_eq_none_iff, Option.filter_eq_none_iff] at hfresh
  have hold : ¬s.now - e.1 < overviewCacheTtl := fun hlt =>
    hfresh e rfl (decide_eq_true hlt)
  have : 0 < overviewCacheTtl := by decide
  omega

theorem OverviewState.Sound.store {s : OverviewState} (h : s.Sound)
    {t : OverviewThread} {chainId : Option Int32} {started : Nat}
    (hstarted : t.started = some started) (halone : t.Alone s)
    (counts : OverviewCounts) :
    (s.store t.request.cacheKey chainId started counts).Sound := by
  obtain ⟨hle, hafter⟩ := halone started hstarted
  refine ⟨fun key e he => ?_, fun r hr => ?_, fun r hr => ?_, ?_⟩
  · simp only [OverviewState.store] at he
    split at he
    · next hkey =>
        cases he
        exact ⟨_, List.mem_append_right _ (List.mem_singleton_self _),
          hkey.symm, rfl, rfl⟩
    · obtain ⟨r, hr, hrest⟩ := h.cached key e he
      exact ⟨r, List.mem_append_left _ hr, hrest⟩
  · rcases List.mem_append.mp hr with hr | hr
    · by_cases hkey : r.key = t.request.cacheKey
      · exact ⟨(s.now, counts), if_pos hkey, (h.past r hr).2⟩
      · obtain ⟨e, he, hle⟩ := h.last r hr
        exact ⟨e, (if_neg hkey).trans he, hle⟩
    · cases List.mem_singleton.mp hr
      exact ⟨(s.now, counts), if_pos rfl, Nat.le_refl _⟩
  · rcases List.mem_append.mp hr with hr | hr
    · exact h.past r hr
    · cases List.mem_singleton.mp hr
      exact ⟨hle, Nat.le_refl _⟩
  · refine List.pairwise_append.mpr ⟨h.apart, List.pairwise_singleton _ _, ?_⟩
    intro r hr r' hr'
    cases List.mem_singleton.mp hr'
    exact hafter r hr

theorem OverviewState.Sound.of_eq {s s' : OverviewState} (h : s.Sound)
    (hcache : s'.cache = s.cache) (hstored : s'.stored = s.stored)
    (hnow : s.now ≤ s'.now) : s'.Sound := by
  refine ⟨?_, ?_, ?_, ?_⟩
  · rw [hcache, hstored]
    exact h.cached
  · rw [hcache, hstored]
    exact h.last
  · rw [hstored]
    intro r hr
    exact ⟨(h.past r hr).1, Nat.le_trans (h.past r hr).2 hnow⟩
  · rw [hstored]
    exact h.apart

theorem OverviewThread.Alone.of_eq {s s' : OverviewState} {t : OverviewThread}
    (h : t.Alone s) (hstored : s'.stored = s.stored) (hnow : s.now ≤ s'.now) :
    t.Alone s' := by
  intro n hn
  rw [hstored]
  exact ⟨Nat.le_trans (h n hn).1 hnow, (h n hn).2⟩

/-- A step puts a count into the history or leaves it. -/
theorem OverviewMove.stored_cases {s s' : OverviewState} {t : OverviewThread}
    {p : OverviewPhase} (h : OverviewMove s t s' p) :
    (s'.cache = s.cache ∧ s'.stored = s.stored ∧ s'.now = s.now) ∨
      ∃ c started counts, t.phase = .storing c started counts ∧
        s' = s.store t.request.cacheKey c started counts := by
  cases h with
  | store hphase => exact .inr ⟨_, _, _, hphase, rfl⟩
  | _ => exact .inl ⟨rfl, rfl, rfl⟩

/-- A count begins at a look that finds nothing fresh. -/
theorem OverviewMove.started_cases {s s' : OverviewState}
    {t t' : OverviewThread} (h : OverviewMove s t s' t'.phase) {n : Nat}
    (hn : t'.started = some n) :
    s' = s ∧ (t.started = some n ∨
      n = s.now ∧ s.fresh t.request.cacheKey = none) := by
  unfold OverviewThread.started at hn
  generalize t'.phase = p at h hn
  cases h with
  | remiss hphase hfresh =>
      cases hn
      exact ⟨rfl, .inr ⟨rfl, hfresh⟩⟩
  | counted hphase =>
      cases hn
      refine ⟨rfl, .inl ?_⟩
      unfold OverviewThread.started
      rw [hphase]
  | _ => cases hn

theorem overview_rules (chain : String) :
    (overviewSystem chain).Rules
      (fun t u => t.holds = true → u.holds = false) OverviewState.Sound
      fun s t => t.Alone s where
  spawn s query _ := by
    intro n hn
    have hn : (OverviewThread.arrive chain query).started = some n := hn
    unfold OverviewThread.started at hn
    rcases OverviewThread.arrive_phase chain query with h | ⟨_, h⟩ <;>
      rw [h] at hn <;> cases hn
  step s t a s' t' hs halone h := by
    obtain ⟨hrequest, hmove⟩ := overviewStep_moves h
    refine ⟨?_, fun n hn => ?_⟩
    · rcases hmove.stored_cases with ⟨hcache, hstored, hnow⟩ |
          ⟨c, started, counts, hphase, rfl⟩
      · exact hs.of_eq hcache hstored (Nat.le_of_eq hnow.symm)
      · refine hs.store ?_ halone counts
        unfold OverviewThread.started
        rw [hphase]
    · rw [hrequest]
      obtain ⟨rfl, hold | ⟨rfl, hfresh⟩⟩ := hmove.started_cases hn
      · exact halone n hold
      · exact ⟨Nat.le_refl _, fun r hr =>
          ⟨(hs.past r hr).2, hs.ranOut hfresh hr⟩⟩
  other s t a s' t' u hs _ halone hapart h := by
    obtain ⟨-, hmove⟩ := overviewStep_moves h
    rcases hmove.stored_cases with ⟨-, hstored, hnow⟩ |
        ⟨c, started, counts, hphase, rfl⟩
    · exact halone.of_eq hstored (Nat.le_of_eq hnow.symm)
    · intro n hn
      have hholds : t.holds = true := by
        unfold OverviewThread.holds
        rw [hphase]
      have := OverviewThread.holds_of_started hn
      rw [hapart hholds] at this
      cases this
  env s n s' hs h := by
    cases h
    exact ⟨hs.of_eq rfl rfl (Nat.le_add_right _ _),
      fun t ht => ht.of_eq rfl (Nat.le_add_right _ _)⟩

/-! ## Runs -/

/-- What holds along every run. -/
theorem overview_invariant {chain : String} {s : Threads OverviewState
    OverviewThread} {as} (h : (overviewSystem chain).Runs overviewStart as s) :
    s.Counted OverviewThread.holds (fun s => s.flight.toNat) ∧
      s.All OverviewState.Sound fun s t => t.Alone s := by
  refine (overview_rules chain).runs
    (I := Threads.Counted OverviewThread.holds fun s => s.flight.toNat)
    (fun _ _ _ => (overview_counts_holders chain).moves) ?_ h rfl ?_
  · intro s hcounted _
    exact hcounted.apart (Bool.toNat_le _)
  · refine ⟨⟨?_, ?_, ?_, List.Pairwise.nil⟩, ?_⟩
    · intro key e he
      cases he
    · intro r hr
      cases hr
    · intro r hr
      cases hr
    · intro t ht
      cases ht

/-- Marks that lie `d` apart, none of them above `m`. -/
theorem mul_length_le_of_spaced {d m : Nat} {marks : List Nat}
    (h : marks.Pairwise fun a b => a + d ≤ b) (hm : ∀ a ∈ marks, a ≤ m) :
    d * marks.length ≤ m + d := by
  suffices ∀ low, low ≤ m + d → (∀ a ∈ marks, low ≤ a) →
      low + d * marks.length ≤ m + d by
    have := this 0 (Nat.zero_le _) fun _ _ => Nat.zero_le _
    omega
  induction marks with
  | nil =>
      intro low hlow _
      exact hlow
  | cons a marks ih =>
      intro low _ hall
      obtain ⟨hfirst, hrest⟩ := List.pairwise_cons.mp h
      have hle : a ≤ m := hm a List.mem_cons_self
      have hlow : low ≤ a := hall a List.mem_cons_self
      have := ih hrest (fun b hb => hm b (List.mem_cons_of_mem _ hb)) (a + d)
        (by omega) hfirst
      rw [List.length_cons, Nat.mul_succ]
      omega

/-- At most one request has the lock, a count is over before the next one
begins, and one of the same key begins when the time to live of the last has
run out: of one key there is at most one a minute. -/
theorem overview_counts_once {chain : String} {as : List _}
    {s : Threads OverviewState OverviewThread}
    (h : (overviewSystem chain).Runs overviewStart as s) :
    s.threads.countP OverviewThread.holds ≤ 1 ∧
      s.shared.stored.Pairwise OverviewStored.Before ∧
      ∀ key, overviewCacheTtl *
          s.shared.stored.countP (fun r => decide (r.key = key)) ≤
        s.shared.now + overviewCacheTtl := by
  obtain ⟨hcounted, hsound, -⟩ := overview_invariant h
  refine ⟨?_, hsound.apart, fun key => ?_⟩
  · rw [show s.threads.countP OverviewThread.holds = _ from hcounted]
    exact Bool.toNat_le _
  · have hof : ((s.shared.stored.filter fun r => decide (r.key = key)).map
        OverviewStored.storedAt).Pairwise fun a b =>
          a + overviewCacheTtl ≤ b := by
      rw [List.pairwise_map, List.pairwise_filter]
      refine hsound.apart.imp_of_mem fun {a b} _ hb hbefore ha' hb' => ?_
      have hkey : a.key = b.key :=
        (of_decide_eq_true ha').trans (of_decide_eq_true hb').symm
      exact Nat.le_trans (hbefore.2 hkey) (hsound.past b hb).1
    have := mul_length_le_of_spaced hof (m := s.shared.now) fun n hn => by
      obtain ⟨r, hr, rfl⟩ := List.mem_map.mp hn
      exact (hsound.past r (List.mem_filter.mp hr).1).2
    rwa [List.length_map, ← List.countP_eq_length_filter] at this

/-- Two requests for one chain: the second waits for the count of the first. -/
def overviewTwo : List
    (ThreadAct OverviewStatsQuery OverviewAct Nat) :=
  [.spawn ⟨none, none, none⟩, .step 0 (.resolved (some 1)), .step 0 .look,
    .step 0 .acquire, .spawn ⟨some "main", some 1, none⟩,
    .step 1 (.resolved none), .step 1 .look, .step 0 .look, .env 7,
    .step 0 (.counted (.ok ⟨9, 3, 4, 5, 1, 2, 6, 8⟩)), .step 0 .store,
    .step 0 .release, .step 1 .acquire, .step 1 .look, .step 1 .release]

theorem overview_counts_once_two :
    ∃ s, (overviewSystem "main").Runs overviewStart overviewTwo s ∧
      s.threads.countP OverviewThread.holds ≤ 1 ∧
      s.shared.stored.Pairwise OverviewStored.Before ∧
      ∀ key, overviewCacheTtl *
          s.shared.stored.countP (fun r => decide (r.key = key)) ≤
        s.shared.now + overviewCacheTtl := by
  have hruns := ThreadSystem.runs_of_runSteps
    (show runSteps (overviewSystem "main").next overviewStart overviewTwo =
      some _ from rfl)
  exact ⟨_, hruns, overview_counts_once hruns⟩

/-- What the request will answer, and for which key. -/
def OverviewThread.answer (t : OverviewThread) :
    Option (OverviewCacheKey × OverviewCounts) :=
  match t.phase with
  | .leaving (.answered counts) => some (t.request.cacheKey, counts)
  | .ended (.answered counts) => some (t.request.cacheKey, counts)
  | _ => none

/-- An answer is the fresh entry of its key when it is read, or becomes it. -/
theorem OverviewMove.answer_cases {s s' : OverviewState}
    {t t' : OverviewThread} (h : OverviewMove s t s' t'.phase)
    (hrequest : t'.request = t.request) {k : OverviewCacheKey × OverviewCounts}
    (hk : t'.answer = some k) :
    t.answer = some k ∨ s.fresh k.1 = some k.2 ∨ s'.fresh k.1 = some k.2 := by
  unfold OverviewThread.answer at hk
  generalize t'.phase = p at h hk
  rw [hrequest] at hk
  cases h with
  | hit hphase hfresh =>
      cases hk
      exact .inr (.inl hfresh)
  | rehit hphase hfresh =>
      cases hk
      exact .inr (.inl hfresh)
  | store hphase =>
      cases hk
      refine .inr (.inr ?_)
      simp [OverviewState.fresh, OverviewState.store, overviewCacheTtl]
  | @release result hphase =>
      refine .inl ?_
      unfold OverviewThread.answer
      rw [hphase]
      cases result <;> exact hk
  | gaveUp hphase hresult =>
      rcases hresult with rfl | rfl <;> cases hk
  | _ => cases hk

/-- The counts of an answer went into the cache for the chain and the flag of
its request, less than the time to live before a moment since it came. -/
theorem overview_answers {chain : String} {as : List _}
    {s : Threads OverviewState OverviewThread}
    (h : (overviewSystem chain).Runs overviewStart as s) {i : Nat}
    {t : OverviewThread} (hi : s.threads[i]? = some t)
    {response : OverviewStatsResponse} (hend : t.response = some response) :
    ∃ pre post mid, as = pre ++ post ∧
      (overviewSystem chain).Runs overviewStart pre mid ∧
      (overviewSystem chain).Runs mid post s ∧ i < mid.threads.length ∧
      ∃ r ∈ mid.shared.stored, r.key = t.request.cacheKey ∧
        r.storedAt ≤ mid.shared.now ∧
        mid.shared.now < r.storedAt + overviewCacheTtl ∧
        response = overviewResponse t.request r.counts := by
  unfold OverviewThread.response at hend
  split at hend
  · next counts hphase =>
      cases hend
      have hk : t.answer = some (t.request.cacheKey, counts) := by
        unfold OverviewThread.answer
        rw [hphase]
      have hmoment := ThreadSystem.exists_moment OverviewThread.answer
        (fun s k => OverviewState.fresh s k.1 = some k.2) ?_ ?_ h hi hk
      · rcases hmoment with ⟨u, hu, -⟩ | ⟨pre, post, mid, hsplit, hpre, hpost,
            hcame, hfresh⟩
        · cases hu
        · refine ⟨pre, post, mid, hsplit, hpre, hpost, hcame, ?_⟩
          obtain ⟨-, hsound, -⟩ := overview_invariant hpre
          obtain ⟨e, he, hcounts⟩ := Option.map_eq_some_iff.mp hfresh
          obtain ⟨hcache, hage⟩ := Option.filter_eq_some_iff.mp he
          obtain ⟨r, hr, hkey, hat, hrest⟩ := hsound.cached _ e hcache
          have hpast := (hsound.past r hr).2
          have hage := of_decide_eq_true hage
          refine ⟨r, hr, hkey, hpast, by omega, ?_⟩
          rw [hrest, hcounts]
      · intro s query
        show (OverviewThread.arrive chain query).answer = none
        unfold OverviewThread.answer
        rcases OverviewThread.arrive_phase chain query with h | ⟨_, h⟩ <;>
          rw [h]
      · intro s t a s' t' k hstep hk
        obtain ⟨hrequest, hmove⟩ := overviewStep_moves hstep
        exact hmove.answer_cases hrequest hk
  · cases hend

theorem overview_answers_two :
    ∃ s, (overviewSystem "main").Runs overviewStart overviewTwo s ∧
      ∃ pre post mid, overviewTwo = pre ++ post ∧
        (overviewSystem "main").Runs overviewStart pre mid ∧
        (overviewSystem "main").Runs mid post s ∧ 1 < mid.threads.length ∧
        ∃ r ∈ mid.shared.stored, r.key = ("main", 1) ∧
          r.storedAt ≤ mid.shared.now ∧
          mid.shared.now < r.storedAt + overviewCacheTtl ∧
          (⟨"main", 1, 1, 9, 3, 3, 2, 1, 4, 5, 6, 8⟩ : OverviewStatsResponse) =
            overviewResponse ⟨"main", 1, 1⟩ r.counts := by
  have hruns := ThreadSystem.runs_of_runSteps
    (show runSteps (overviewSystem "main").next overviewStart overviewTwo =
      some _ from rfl)
  exact ⟨_, hruns, overview_answers hruns
    (t := ⟨⟨"main", 1, 1⟩, .ended (.answered ⟨9, 3, 4, 5, 1, 2, 6, 8⟩)⟩)
    rfl rfl⟩

/-! ## Progress -/

/-- How many steps a request has to go at most. -/
def OverviewPhase.rank : OverviewPhase → Nat
  | .resolving => 7
  | .looking _ => 6
  | .waiting _ => 5
  | .rechecking _ => 4
  | .counting _ _ => 3
  | .storing _ _ _ => 2
  | .leaving _ => 1
  | .ended _ => 0

theorem OverviewMove.rank_lt {s s' : OverviewState} {t : OverviewThread}
    {p : OverviewPhase} (h : OverviewMove s t s' p) :
    p.rank < t.phase.rank := by
  cases h with
  | dropped hphase =>
      rcases hphase with hphase | ⟨c, hphase⟩ <;> rw [hphase] <;>
        simp only [OverviewPhase.rank] <;> omega
  | resolved hphase | hit hphase _ | miss hphase | acquire hphase _
  | rehit hphase _ | remiss hphase _ | counted hphase | gaveUp hphase _
  | store hphase | release hphase =>
      rw [hphase]
      simp only [OverviewPhase.rank]
      omega

/-- The request can go on, whether or not its client stays. -/
def OverviewThread.GoesOn (s : OverviewState) (t : OverviewThread) : Prop :=
  ∃ a, a ≠ .drop ∧ (overviewStep s t a).isSome

theorem OverviewThread.goesOn {s : OverviewState} {t : OverviewThread}
    (hended : ∀ result, t.phase ≠ .ended result)
    (hfree : (∃ c, t.phase = .waiting c) → s.flight = false) : t.GoesOn s := by
  cases hphase : t.phase with
  | resolving =>
      exact ⟨.resolved none, by simp, by simp [overviewStep, hphase]⟩
  | looking c =>
      refine ⟨.look, by simp, ?_⟩
      simp only [overviewStep, hphase]
      split <;> rfl
  | waiting c =>
      exact ⟨.acquire, by simp, by simp [overviewStep, hphase, hfree ⟨c, hphase⟩]⟩
  | rechecking c =>
      refine ⟨.look, by simp, ?_⟩
      simp only [overviewStep, hphase]
      split <;> rfl
  | counting c n =>
      exact ⟨.counted (.error ()), by simp, by simp [overviewStep, hphase]⟩
  | storing c n counts =>
      exact ⟨.store, by simp, by simp [overviewStep, hphase]⟩
  | leaving result =>
      exact ⟨.release, by simp, by simp [overviewStep, hphase]⟩
  | ended result => exact absurd hphase (hended result)

/-- A request takes seven steps at most, and as long as one has not ended
there is one that can go on without a client giving up. -/
theorem overview_progress {chain : String} {as : List _}
    {s : Threads OverviewState OverviewThread}
    (h : (overviewSystem chain).Runs overviewStart as s) :
    as.countP ThreadAct.isStep ≤ 7 * as.countP ThreadAct.isSpawn ∧
      ((∀ t ∈ s.threads, ∃ result, t.phase = .ended result) ∨
        ∃ t ∈ s.threads, t.GoesOn s.shared) := by
  refine ⟨?_, ?_⟩
  · have hle := ThreadSystem.steps_le
      (fun t : OverviewThread => t.phase.rank) 7 ?_ ?_ h
    · have : (overviewStart.threads.map fun t => t.phase.rank).sum = 0 := rfl
      omega
    · intro s query
      show (OverviewThread.arrive chain query).phase.rank ≤ 7
      rcases OverviewThread.arrive_phase chain query with h | ⟨_, h⟩ <;>
        rw [h] <;> simp only [OverviewPhase.rank] <;> omega
    · intro s t a s' t' hstep
      exact (overviewStep_moves hstep).2.rank_lt
  · obtain ⟨hcounted, -⟩ := overview_invariant h
    have hcounted : s.threads.countP OverviewThread.holds =
      s.shared.flight.toNat := hcounted
    by_cases hall : ∀ t ∈ s.threads, ∃ result, t.phase = .ended result
    · exact .inl hall
    refine .inr ?_
    cases hflight : s.shared.flight with
    | false =>
        simp only [not_forall] at hall
        obtain ⟨t, ht, hended⟩ := hall
        exact ⟨t, ht, OverviewThread.goesOn (fun r hr => hended ⟨r, hr⟩)
          fun _ => hflight⟩
    | true =>
        -- the one that has the lock does not wait for it
        rw [hflight] at hcounted
        have hpos : 0 < s.threads.countP OverviewThread.holds := by
          rw [hcounted]
          decide
        obtain ⟨t, ht, hholds⟩ := List.countP_pos_iff.mp hpos
        refine ⟨t, ht, OverviewThread.goesOn ?_ ?_⟩
        · intro result hphase
          rw [OverviewThread.holds, hphase] at hholds
          cases hholds
        · rintro ⟨c, hphase⟩
          rw [OverviewThread.holds, hphase] at hholds
          cases hholds

theorem overview_progress_two :
    ∃ s, (overviewSystem "main").Runs overviewStart overviewTwo s ∧
      overviewTwo.countP ThreadAct.isStep ≤
        7 * overviewTwo.countP ThreadAct.isSpawn ∧
      ((∀ t ∈ s.threads, ∃ result, t.phase = .ended result) ∨
        ∃ t ∈ s.threads, t.GoesOn s.shared) := by
  have hruns := ThreadSystem.runs_of_runSteps
    (show runSteps (overviewSystem "main").next overviewStart overviewTwo =
      some _ from rfl)
  exact ⟨_, hruns, overview_progress hruns⟩

end Explorer.Ref
