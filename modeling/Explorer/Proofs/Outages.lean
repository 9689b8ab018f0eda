import Explorer.Ref.Failover

/-!
# What an outage can leave behind

A round is asked in an order that the shared counter rotates, and its last
error speaks for all of it. So a round in which one endpoint is out and another
says no is final or not according to where it started, and the sentinel it
leaves hides a token that the endpoint that was out may know. The fetch of
series does not ask which kind of error it got, so for it an outage of every
endpoint is enough.

`outageSafe_iff` is the exact condition on the answers: the first round that is
not an outage of every endpoint is answered, or refused by all of them.
-/

namespace Explorer.Ref

open Explorer.Lib

variable {α : Type}

/-- The answer is an error, and of this kind. -/
def failsAs (transient : Bool) : Except RpcError α → Bool
  | .ok _ => false
  | .error error => isTransientRpcError error == transient

def answers : Except RpcError α → Bool
  | .ok _ => true
  | .error _ => false

theorem failsAs_error {transient : Bool} {answer : Except RpcError α} :
    failsAs transient answer = true ↔
      ∃ e, answer = .error e ∧ isTransientRpcError e = transient := by
  cases answer with
  | ok value => simp [failsAs]
  | error error => simp [failsAs]

theorem failsAs_cases (answer : Except RpcError α) :
    answers answer = true ∨ failsAs true answer = true ∨
      failsAs false answer = true := by
  cases answer with
  | ok value => exact .inl rfl
  | error error =>
      right
      cases h : isTransientRpcError error <;> simp [failsAs, h]

theorem failsAs_ne {answer : Except RpcError α}
    (ht : failsAs true answer = true) : failsAs false answer = false := by
  obtain ⟨e, rfl, he⟩ := failsAs_error.1 ht
  simp [failsAs, he]

theorem not_answers_of_failsAs {transient : Bool} {answer : Except RpcError α}
    (h : failsAs transient answer = true) : answers answer = false := by
  obtain ⟨e, rfl, -⟩ := failsAs_error.1 h
  rfl

/-! ## One round -/

/-- The endpoint that is asked last in a round. -/
def lastAsked (endpoints start : Nat) : Nat :=
  (start + (endpoints - 1)) % endpoints

theorem endpointOrder_eq {endpoints : Nat} (h : 0 < endpoints) (start : Nat) :
    endpointOrder endpoints start =
      (List.range (endpoints - 1)).map (fun offset =>
        (start + offset) % endpoints) ++ [lastAsked endpoints start] := by
  obtain ⟨n, rfl⟩ : ∃ n, endpoints = n + 1 := ⟨endpoints - 1, by omega⟩
  simp [endpointOrder, lastAsked, List.range_succ]

/-- The order is a rotation, so every endpoint has its turn. -/
theorem mem_endpointOrder {endpoints start i : Nat} (h : 0 < endpoints) :
    i ∈ endpointOrder endpoints start ↔ i < endpoints := by
  simp only [endpointOrder, List.mem_map, List.mem_range]
  constructor
  · rintro ⟨offset, -, rfl⟩
    exact Nat.mod_lt _ h
  · intro hi
    refine ⟨(i + (endpoints - start % endpoints)) % endpoints,
      Nat.mod_lt _ h, ?_⟩
    have hs : start % endpoints < endpoints := Nat.mod_lt _ h
    calc (start + (i + (endpoints - start % endpoints)) % endpoints) % endpoints
        = (start % endpoints + (i + (endpoints - start % endpoints)))
            % endpoints := by simp [Nat.add_mod]
      _ = (i + endpoints) % endpoints := by congr 1; omega
      _ = i := by rw [Nat.add_mod_right, Nat.mod_eq_of_lt hi]

theorem lastAsked_lt {endpoints : Nat} (h : 0 < endpoints) (start : Nat) :
    lastAsked endpoints start < endpoints := Nat.mod_lt _ h

/-- Some start leaves any given endpoint to the end. -/
theorem lastAsked_succ {endpoints i : Nat} (hi : i < endpoints) :
    lastAsked endpoints (i + 1) = i := by
  have : i + 1 + (endpoints - 1) = i + endpoints := by omega
  rw [lastAsked, this, Nat.add_mod_right, Nat.mod_eq_of_lt hi]

theorem tryEndpoints_ok {call : Nat → Except RpcError α} {value : α} :
    ∀ {lastError : Option RpcError} {order : List Nat},
      tryEndpoints call lastError order = .ok value →
      ∃ i ∈ order, call i = .ok value := by
  intro lastError order
  fun_induction tryEndpoints call lastError order with
  | case1 lastError => exact nofun
  | case2 lastError endpoint rest v hv =>
      intro h
      exact ⟨endpoint, by simp, hv.trans h⟩
  | case3 lastError endpoint rest error herror ih =>
      intro h
      obtain ⟨i, hi, hcall⟩ := ih h
      exact ⟨i, by simp [hi], hcall⟩

/-- A round that fails has asked everyone, and its error is that of the
endpoint asked last. -/
theorem tryEndpoints_error {call : Nat → Except RpcError α} {error : RpcError}
    {last : Nat} :
    ∀ {lastError : Option RpcError} {order : List Nat},
      tryEndpoints call lastError (order ++ [last]) = .error error →
      (∀ i ∈ order, answers (call i) = false) ∧ call last = .error error := by
  intro lastError order
  induction order generalizing lastError with
  | nil =>
      intro h
      simp only [List.nil_append, tryEndpoints] at h
      split at h
      · cases h
      · rename_i e he
        simpa [he] using h
  | cons i rest ih =>
      intro h
      simp only [List.cons_append, tryEndpoints] at h
      split at h
      · cases h
      · rename_i e he
        obtain ⟨hrest, hlast⟩ := ih h
        refine ⟨?_, hlast⟩
        intro j hj
        obtain rfl | hj := List.mem_cons.1 hj
        · simp [he, answers]
        · exact hrest j hj

theorem tryEndpointsOnce_error {endpoints start : Nat}
    {call : Nat → Except RpcError α} {error : RpcError} (h : 0 < endpoints)
    (hrun : tryEndpointsOnce endpoints start call = .error error) :
    (∀ i < endpoints, answers (call i) = false) ∧
      call (lastAsked endpoints start) = .error error := by
  rw [tryEndpointsOnce, endpointOrder_eq h] at hrun
  obtain ⟨hfront, hlast⟩ := tryEndpoints_error hrun
  refine ⟨?_, hlast⟩
  intro i hi
  have hi : i ∈ endpointOrder endpoints start := (mem_endpointOrder h).2 hi
  rw [endpointOrder_eq h, List.mem_append, List.mem_singleton] at hi
  obtain hi | rfl := hi
  · exact hfront i hi
  · simp [hlast, answers]

theorem tryEndpointsOnce_of_answers {endpoints i : Nat}
    {call : Nat → Except RpcError α} (start : Nat) (hi : i < endpoints)
    (hanswer : answers (call i) = true) :
    ∃ value, tryEndpointsOnce endpoints start call = .ok value := by
  cases hrun : tryEndpointsOnce endpoints start call with
  | ok value => exact ⟨value, rfl⟩
  | error error =>
      have hnone := (tryEndpointsOnce_error (by omega) hrun).1 i hi
      rw [hanswer] at hnone
      cases hnone

theorem tryEndpointsOnce_of_noAnswer {endpoints : Nat}
    {call : Nat → Except RpcError α} (h : 0 < endpoints) (start : Nat)
    (hnone : ∀ i < endpoints, answers (call i) = false) :
    ∃ error, tryEndpointsOnce endpoints start call = .error error ∧
      call (lastAsked endpoints start) = .error error := by
  cases hrun : tryEndpointsOnce endpoints start call with
  | ok value =>
      obtain ⟨i, hi, hcall⟩ := tryEndpoints_ok hrun
      have := hnone i ((mem_endpointOrder h).1 hi)
      rw [hcall] at this
      cases this
  | error error => exact ⟨error, rfl, (tryEndpointsOnce_error h hrun).2⟩

/-! ## The rounds of a call -/

section Rounds

variable {endpoints attempts : Nat} {call : Nat → Nat → Except RpcError α}

/-- Every endpoint is out in this round. -/
def Outage (endpoints : Nat) (call : Nat → Except RpcError α) : Prop :=
  ∀ i < endpoints, failsAs true (call i) = true

/-- Every endpoint refuses in this round. -/
def Refusal (endpoints : Nat) (call : Nat → Except RpcError α) : Prop :=
  ∀ i < endpoints, failsAs false (call i) = true

instance (endpoints : Nat) (call : Nat → Except RpcError α) :
    Decidable (Outage endpoints call) :=
  inferInstanceAs (Decidable (∀ i < endpoints, failsAs true (call i) = true))

instance (endpoints : Nat) (call : Nat → Except RpcError α) :
    Decidable (Refusal endpoints call) :=
  inferInstanceAs (Decidable (∀ i < endpoints, failsAs false (call i) = true))

theorem Outage.noAnswer {call : Nat → Except RpcError α}
    (h : Outage endpoints call) : ∀ i < endpoints, answers (call i) = false :=
  fun i hi => not_answers_of_failsAs (h i hi)

theorem Refusal.noAnswer {call : Nat → Except RpcError α}
    (h : Refusal endpoints call) : ∀ i < endpoints, answers (call i) = false :=
  fun i hi => not_answers_of_failsAs (h i hi)

/-- A round that is an outage leads to the next one. -/
theorem failoverRounds_outage (h : 0 < endpoints) (starts : Nat → Nat)
    {attempt : Nat} (hout : Outage endpoints (call attempt))
    (lastError : Option RpcError) (left : Nat) :
    ∃ error, failoverRounds endpoints starts call lastError attempt (left + 1) =
      failoverRounds endpoints starts call (some error) (attempt + 1) left := by
  obtain ⟨error, hround, hlast⟩ :=
    tryEndpointsOnce_of_noAnswer h (starts attempt) hout.noAnswer
  have htransient : isTransientRpcError error = true := by
    have := hout _ (lastAsked_lt h (starts attempt))
    simpa [hlast, failsAs] using this
  refine ⟨error, ?_⟩
  rw [failoverRounds, hround]
  exact if_pos htransient

/-- So do any number of them. -/
theorem failoverRounds_outages (h : 0 < endpoints) (starts : Nat → Nat)
    (left : Nat) : ∀ (k attempt : Nat) (lastError : Option RpcError),
    (∀ j < k, Outage endpoints (call (attempt + j))) →
    ∃ lastError', failoverRounds endpoints starts call lastError attempt
        (k + left) =
      failoverRounds endpoints starts call lastError' (attempt + k) left := by
  intro k
  induction k with
  | zero =>
      intro attempt lastError _
      exact ⟨lastError, by simp⟩
  | succ k ih =>
      intro attempt lastError hout
      obtain ⟨error, hstep⟩ := failoverRounds_outage h starts
        (by simpa using hout 0 (by omega)) lastError (k + left)
      obtain ⟨lastError', hrest⟩ := ih (attempt + 1) (some error)
        (fun j hj => by
          have := hout (j + 1) (by omega)
          rwa [show attempt + (j + 1) = attempt + 1 + j by omega] at this)
      refine ⟨lastError', ?_⟩
      rw [show k + 1 + left = k + left + 1 by omega, hstep, hrest,
        show attempt + 1 + k = attempt + (k + 1) by omega]

/-- A call whose rounds before `k` are outages is decided by round `k`, if
that round is not left to the next one. -/
theorem runFailover_reaches (h : 0 < endpoints) (starts : Nat → Nat) {k : Nat}
    (hk : k < attempts) (hout : ∀ j < k, Outage endpoints (call j)) :
    ∃ lastError left, runFailover endpoints attempts starts call =
      failoverRounds endpoints starts call lastError k (left + 1) := by
  obtain ⟨left, rfl⟩ : ∃ left, attempts = k + (left + 1) :=
    ⟨attempts - k - 1, by omega⟩
  obtain ⟨lastError, hrun⟩ :=
    failoverRounds_outages h starts (left + 1) k 0 none
      (by simpa using hout)
  exact ⟨lastError, left, by simpa [runFailover] using hrun⟩

theorem runFailover_answered (h : 0 < endpoints) (starts : Nat → Nat) {k i : Nat}
    (hk : k < attempts) (hout : ∀ j < k, Outage endpoints (call j))
    (hi : i < endpoints) (hanswer : answers (call k i) = true) :
    ∃ value, runFailover endpoints attempts starts call =
      ⟨.ok value, k + 1⟩ := by
  obtain ⟨lastError, left, hrun⟩ := runFailover_reaches h starts hk hout
  obtain ⟨value, hround⟩ := tryEndpointsOnce_of_answers (starts k) hi hanswer
  refine ⟨value, ?_⟩
  rw [hrun, failoverRounds, hround]

/-- A round without an answer whose last endpoint refuses ends the call. -/
theorem runFailover_refused (h : 0 < endpoints) (starts : Nat → Nat) {k : Nat}
    (hk : k < attempts) (hout : ∀ j < k, Outage endpoints (call j))
    (hnone : ∀ i < endpoints, answers (call k i) = false)
    (hlast : failsAs false (call k (lastAsked endpoints (starts k))) = true) :
    ∃ error, isTransientRpcError error = false ∧
      runFailover endpoints attempts starts call = ⟨.error error, k + 1⟩ := by
  obtain ⟨lastError, left, hrun⟩ := runFailover_reaches h starts hk hout
  obtain ⟨error, hround, hcall⟩ :=
    tryEndpointsOnce_of_noAnswer h (starts k) hnone
  have hpermanent : isTransientRpcError error = false := by
    simpa [hcall, failsAs] using hlast
  refine ⟨error, hpermanent, ?_⟩
  rw [hrun, failoverRounds, hround]
  simp [hpermanent]

theorem runFailover_exhausted (h : 0 < endpoints) (starts : Nat → Nat)
    (hout : ∀ j < attempts, Outage endpoints (call j)) :
    ∃ error, runFailover endpoints attempts starts call =
      ⟨.error error, attempts⟩ := by
  obtain ⟨lastError, hrun⟩ :=
    failoverRounds_outages h starts 0 attempts 0 none (by simpa using hout)
  refine ⟨lastError.getD .missingRpcEndpoints, ?_⟩
  simpa [runFailover, failoverRounds] using hrun

end Rounds

/-! ## Verdicts and sentinels -/

/-- Success, or the kind of the failure. -/
def Failover.verdict (run : Failover α) : Option Bool :=
  match run.result with
  | .ok _ => none
  | .error error => some (isTransientRpcError error)

/-- No endpoint is out in this round. -/
def NoOutage (endpoints : Nat) (call : Nat → Except RpcError α) : Prop :=
  ∀ i < endpoints, failsAs true (call i) = false

/-- What a call with these answers keeps to, wherever its rounds start: a
permanent error is everyone's, where the rounds start does not matter to
answers that stay the same, and a sentinel is written only when no endpoint was
out in the last round. -/
structure OutageSafe (endpoints attempts : Nat)
    (call : Nat → Nat → Except RpcError α) : Prop where
  permanent : ∀ starts error,
    (runFailover endpoints attempts starts call).result = .error error →
    isTransientRpcError error = false →
    Refusal endpoints
      (call ((runFailover endpoints attempts starts call).rounds - 1))
  startFree : (∀ k i, call k i = call 0 i) → ∀ starts starts',
    (runFailover endpoints attempts starts call).rounds =
        (runFailover endpoints attempts starts' call).rounds ∧
      (runFailover endpoints attempts starts call).verdict =
        (runFailover endpoints attempts starts' call).verdict
  nft : ∀ starts error upserts symbol tokenId,
    (runFailover endpoints attempts starts call).result = .error error →
    recordNftMetadataFetchFailure upserts symbol tokenId error ≠ upserts →
    NoOutage endpoints
      (call ((runFailover endpoints attempts starts call).rounds - 1))
  series : ∀ starts error toUpsert before candidate,
    (runFailover endpoints attempts starts call).result = .error error →
    fetchSeriesRpcMetadata toUpsert
        (before ++ [(candidate,
          (runFailover endpoints attempts starts call).result)]) ≠
      fetchSeriesRpcMetadata toUpsert before →
    NoOutage endpoints
      (call ((runFailover endpoints attempts starts call).rounds - 1))

/-- The first round that is not an outage of every endpoint is answered, or
refused by all. -/
def Decided (endpoints attempts : Nat)
    (call : Nat → Nat → Except RpcError α) : Prop :=
  ∃ k < attempts, (∀ j < k, Outage endpoints (call j)) ∧
    ((∃ i < endpoints, answers (call k i) = true) ∨
      Refusal endpoints (call k))

theorem Refusal.noOutage {endpoints : Nat} {call : Nat → Except RpcError α}
    (h : Refusal endpoints call) : NoOutage endpoints call := by
  intro i hi
  cases hc : failsAs true (call i) with
  | false => rfl
  | true =>
      have := failsAs_ne hc
      rw [h i hi] at this
      cases this

/-- All there is to a call that is decided: its round, and its result. -/
theorem runFailover_decided {endpoints attempts : Nat}
    {call : Nat → Nat → Except RpcError α} (h : 0 < endpoints)
    (hdec : Decided endpoints attempts call) :
    ∃ k, (∀ starts, ∃ value, runFailover endpoints attempts starts call =
        ⟨.ok value, k + 1⟩) ∨
      (Refusal endpoints (call k) ∧
        ∀ starts, ∃ error, isTransientRpcError error = false ∧
          runFailover endpoints attempts starts call =
            ⟨.error error, k + 1⟩) := by
  obtain ⟨k, hk, hout, ⟨i, hi, hanswer⟩ | hrefusal⟩ := hdec
  · exact ⟨k, .inl fun starts =>
      runFailover_answered h starts hk hout hi hanswer⟩
  · refine ⟨k, .inr ⟨hrefusal, fun starts => ?_⟩⟩
    exact runFailover_refused h starts hk hout hrefusal.noAnswer
      (hrefusal _ (lastAsked_lt h _))

theorem fetchSeriesRpcMetadata_snoc {toUpsert : String → α →
      Option SeriesRpcMetadataUpsert}
    (before : List (SeriesRpcMetadataCandidate × Except RpcError α))
    (candidate : SeriesRpcMetadataCandidate) (error : RpcError) :
    fetchSeriesRpcMetadata toUpsert (before ++ [(candidate, .error error)]) =
      fetchSeriesRpcMetadata toUpsert before ++
        [seriesErrorToMetadataUpsert candidate error] := by
  simp [fetchSeriesRpcMetadata, List.foldl_append, fetchSeriesStep]

theorem OutageSafe.of_decided {endpoints attempts : Nat}
    {call : Nat → Nat → Except RpcError α} (h : 0 < endpoints)
    (hdec : Decided endpoints attempts call) :
    OutageSafe endpoints attempts call := by
  obtain ⟨k, hok | ⟨hrefusal, herror⟩⟩ := runFailover_decided h hdec
  · -- An answered call fails in no way, and stops in the same round.
    have hfail : ∀ {starts error},
        (runFailover endpoints attempts starts call).result ≠
          .error error := by
      intro starts error hres
      obtain ⟨value, hrun⟩ := hok starts
      rw [hrun] at hres
      cases hres
    refine ⟨fun _ _ hres => absurd hres hfail, ?_,
      fun _ _ _ _ _ hres => absurd hres hfail,
      fun _ _ _ _ _ hres => absurd hres hfail⟩
    intro _ starts starts'
    obtain ⟨value, hrun⟩ := hok starts
    obtain ⟨value', hrun'⟩ := hok starts'
    rw [hrun, hrun']
    exact ⟨rfl, rfl⟩
  · have hlast : ∀ starts,
        (runFailover endpoints attempts starts call).rounds - 1 = k := by
      intro starts
      obtain ⟨error, -, hrun⟩ := herror starts
      rw [hrun]
      rfl
    refine ⟨fun starts _ _ _ => by rwa [hlast starts], ?_,
      fun starts _ _ _ _ _ _ => by
        rw [hlast starts]
        exact hrefusal.noOutage,
      fun starts _ _ _ _ _ _ => by
        rw [hlast starts]
        exact hrefusal.noOutage⟩
    intro _ starts starts'
    obtain ⟨error, hkind, hrun⟩ := herror starts
    obtain ⟨error', hkind', hrun'⟩ := herror starts'
    rw [hrun, hrun']
    exact ⟨rfl, by simp [Failover.verdict, hkind, hkind']⟩

/-- A round that is neither an outage nor answered nor refused by all has an
endpoint of either kind. -/
theorem mixed_round {endpoints : Nat} {call : Nat → Except RpcError α}
    (hout : ¬ Outage endpoints call)
    (hnone : ¬ ∃ i < endpoints, answers (call i) = true)
    (hrefusal : ¬ Refusal endpoints call) :
    (∃ i < endpoints, failsAs true (call i) = true) ∧
      ∃ i < endpoints, failsAs false (call i) = true := by
  simp only [Outage, Refusal, not_forall] at hout hrefusal
  obtain ⟨i, hi, hnot⟩ := hrefusal
  obtain ⟨j, hj, hnot'⟩ := hout
  refine ⟨⟨i, hi, ?_⟩, j, hj, ?_⟩
  · obtain ha | ht | hf := failsAs_cases (call i)
    · exact absurd ⟨i, hi, ha⟩ hnone
    · exact ht
    · exact absurd hf hnot
  · obtain ha | ht | hf := failsAs_cases (call j)
    · exact absurd ⟨j, hj, ha⟩ hnone
    · exact absurd ht hnot'
    · exact hf

/-- A call is safe from outages exactly when it is decided. -/
theorem outageSafe_iff {endpoints attempts : Nat} (h : 0 < endpoints)
    (hattempts : 0 < attempts) (call : Nat → Nat → Except RpcError α) :
    OutageSafe endpoints attempts call ↔ Decided endpoints attempts call := by
  refine ⟨fun hsafe => ?_, OutageSafe.of_decided h⟩
  by_cases hall : ∀ j < attempts, Outage endpoints (call j)
  · -- Nothing but outages: the fetch of series writes its sentinel.
    obtain ⟨error, hrun⟩ := runFailover_exhausted h (fun _ => 0) hall
    have hclear := hsafe.series (fun _ => 0) error (fun _ _ => none) [] ⟨"", ""⟩
      (by rw [hrun])
      (by
        rw [hrun, fetchSeriesRpcMetadata_snoc]
        simp)
    rw [hrun] at hclear
    have hnot := hclear 0 h
    rw [hall (attempts - 1) (by omega) 0 h] at hnot
    cases hnot
  · -- The first other round. Had it both kinds of failure, a start that leaves
    -- a refusal to the end would make it final.
    have hex : ∃ k, k < attempts ∧ ¬ Outage endpoints (call k) := by
      simpa [not_forall] using hall
    classical
    obtain ⟨hk, hnot⟩ := Nat.find_spec hex
    have hout : ∀ j < Nat.find hex, Outage endpoints (call j) := by
      intro j hj
      have := Nat.find_min hex hj
      by_contra hno
      exact this ⟨by omega, hno⟩
    refine ⟨Nat.find hex, hk, hout, ?_⟩
    by_contra hmixed
    obtain ⟨hnone, hrefusal⟩ := not_or.1 hmixed
    obtain ⟨⟨i, hi, ht⟩, j, hj, hf⟩ := mixed_round hnot hnone hrefusal
    obtain ⟨error, hkind, hrun⟩ := runFailover_refused h (fun _ => j + 1) hk
      hout (fun i hi => by simpa using fun ha => hnone ⟨i, hi, ha⟩)
      (by rwa [lastAsked_succ hj])
    have hall' := hsafe.permanent (fun _ => j + 1) error (by rw [hrun]) hkind
    rw [hrun] at hall'
    exact hrefusal hall'

/-- Both endpoints time out, and the second is back in the next round. -/
def backInSecondRound (round endpoint : Nat) : Except RpcError String :=
  if round = 0 ∨ endpoint = 0 then .error (.sdk (.http "timeout"))
  else .ok "metadata"

theorem outageSafe_backInSecondRound :
    (0 < 2 ∧ 0 < maxRpcAttempts) ∧
      OutageSafe 2 maxRpcAttempts backInSecondRound :=
  ⟨by decide, (outageSafe_iff (by decide) (by decide) backInSecondRound).2
    ⟨1, by decide, by decide, .inl ⟨1, by decide, by decide⟩⟩⟩

/-- The first endpoint is out, and the second does not know the token. -/
def outAndUnknown (_round endpoint : Nat) : Except RpcError String :=
  if endpoint = 0 then .error (.sdk (.http "timeout"))
  else .error (.sdk (.other "ID not found"))

/-- The round that starts at the first endpoint is final, and writes the
sentinel; the one that starts at the second is tried again. With every endpoint
out, the series has its sentinel at once. -/
theorem outage_leaves_sentinel :
    ¬ OutageSafe 2 maxRpcAttempts outAndUnknown ∧
      (runFailover 2 maxRpcAttempts (fun _ => 0) outAndUnknown).rounds = 1 ∧
      (runFailover 2 maxRpcAttempts (fun _ => 1) outAndUnknown).rounds = 4 ∧
      recordNftMetadataFetchFailure [] "GHOST" "7"
          (.sdk (.other "ID not found")) ≠ [] ∧
      ¬ OutageSafe 1 maxRpcAttempts
        fun _ _ => (.error (.sdk (.http "timeout")) : Except RpcError String) := by
  refine ⟨fun h => ?_, by decide, by decide, by
    simp [recordNftMetadataFetchFailure, isTransientRpcError], fun h => ?_⟩
  · have := h.permanent (fun _ => 0) (.sdk (.other "ID not found")) rfl rfl
      0 (by decide)
    exact absurd this (by decide)
  · have := h.series (fun _ => 0) (.sdk (.http "timeout")) (fun _ _ => none)
      [] ⟨"GHOST", "7"⟩ rfl (fun h => by cases h) 0 (by decide)
    exact absurd this (by decide)

end Explorer.Ref
