import Explorer.Ref.InFlight
import Explorer.Proofs.KeyBudgets
import Explorer.Proofs.WindowMap

/-!
# The gate counts whom it let in

The counter goes up when an exchange succeeds and down when a guard is dropped,
so it is the number of guards, in every interleaving. An exchange is tried only
for a value below the capacity and succeeds only if the counter has that value,
so the counter is never above it; and it never wraps, because a guard that is
dropped is one that is counted.

A request that is shed, which is a 429 as that of the windows is, has seen a
counter at the capacity. It may have been a while ago, but not before it came:
at that moment the guards were as many as the capacity.

The windows are those of the calls of `admit` one after the other. Which calls
these are is read off the acts of the run alone (`gateLog`): one for each
`callAdmit`, of the request that came in that place and with the clock as it
stood at that request's check.
-/

namespace Explorer.Ref

open Explorer.Lib

variable {Ip : Type} [DecidableEq Ip] {ip : IpText Ip} {gate : Gate Ip}

/-! ## What a step can do -/

inductive GateMove (ip : IpText Ip) (gate : Gate Ip) (s : GateState)
    (t : GateThread Ip) : GateAct → GateState → GatePhase → Prop
  | around : t.phase = .arrived → t.request.bypasses gate = true →
      GateMove ip gate s t .check s (.running false)
  | unauthorized : t.phase = .arrived → t.request.bypasses gate = false →
      gate.requireApiKey = true → t.request.known gate = false →
      GateMove ip gate s t .check s (.ended .unauthorized)
  | checked : t.phase = .arrived → t.request.bypasses gate = false →
      (gate.requireApiKey = true → t.request.known gate = true) →
      GateMove ip gate s t .check s (.admitting s.segment)
  | admitted {segment : Nat} {limiter : RateLimiter} :
      t.phase = .admitting segment →
      admitRequest ip gate.limits s.limiter ⟨t.request.presentedKey,
        t.request.peer, t.request.forwarded, segment⟩ = (true, limiter) →
      GateMove ip gate s t .callAdmit { s with limiter := limiter } .entering
  | rateLimited {segment : Nat} {limiter : RateLimiter} :
      t.phase = .admitting segment →
      admitRequest ip gate.limits s.limiter ⟨t.request.presentedKey,
        t.request.peer, t.request.forwarded, segment⟩ = (false, limiter) →
      GateMove ip gate s t .callAdmit { s with limiter := limiter }
        (.ended .rateLimited)
  | loaded : t.phase = .entering →
      GateMove ip gate s t .load s (.claiming s.inFlight)
  | shed {spurious : Bool} {current : UInt64} : t.phase = .claiming current →
      gate.capacity ≤ current →
      GateMove ip gate s t (.exchange spurious) s (.ended .shed)
  | entered {spurious : Bool} {current : UInt64} :
      t.phase = .claiming current → current < gate.capacity →
      s.inFlight = current →
      GateMove ip gate s t (.exchange spurious) { s with
        inFlight := current + 1 } (.running true)
  | again {spurious : Bool} {current : UInt64} : t.phase = .claiming current →
      GateMove ip gate s t (.exchange spurious) s (.claiming s.inFlight)
  | done {a : GateAct} {served : Bool} : a = .finish ∨ a = .cancel →
      t.phase = .running true → GateMove ip gate s t a s (.leaving served)
  | doneAround {a : GateAct} {result : GateEnd} : a = .finish ∨ a = .cancel →
      t.phase = .running false → (result = .served ∨ result = .cancelled) →
      GateMove ip gate s t a s (.ended result)
  | released {served : Bool} {result : GateEnd} :
      t.phase = .leaving served →
      (result = .served ∨ result = .cancelled) →
      GateMove ip gate s t .release { s with inFlight := s.inFlight - 1 }
        (.ended result)

theorem gateStep_moves {s s' : GateState} {t t' : GateThread Ip} {a : GateAct}
    (h : gateStep ip gate s t a = some (s', t')) :
    t'.request = t.request ∧ GateMove ip gate s t a s' t'.phase := by
  cases a with
  | check =>
      simp only [gateStep] at h
      split at h
      · next hphase =>
          split at h
          · next haround =>
              cases h
              exact ⟨rfl, .around hphase haround⟩
          · next haround =>
              have haround := Bool.eq_false_iff.mpr haround
              split at h
              · next hkey =>
                  cases h
                  obtain ⟨hrequire, hknown⟩ := Bool.and_eq_true_iff.mp hkey
                  rw [Bool.not_eq_true'] at hknown
                  exact ⟨rfl, .unauthorized hphase haround hrequire hknown⟩
              · next hkey =>
                  cases h
                  refine ⟨rfl, .checked hphase haround fun hrequire => ?_⟩
                  rw [hrequire, Bool.true_and, Bool.not_eq_true,
                    Bool.not_eq_false'] at hkey
                  exact hkey
      · cases h
  | callAdmit =>
      simp only [gateStep] at h
      split at h
      · next segment hphase =>
          rcases hr : admitRequest ip gate.limits s.limiter
              ⟨t.request.presentedKey, t.request.peer, t.request.forwarded,
                segment⟩ with ⟨b, limiter⟩
          rw [hr] at h
          cases b with
          | true =>
              cases h
              exact ⟨rfl, .admitted hphase hr⟩
          | false =>
              cases h
              exact ⟨rfl, .rateLimited hphase hr⟩
      · cases h
  | load =>
      simp only [gateStep] at h
      split at h
      · next hphase =>
          cases h
          exact ⟨rfl, .loaded hphase⟩
      · cases h
  | exchange spurious =>
      simp only [gateStep] at h
      split at h
      · next current hphase =>
          split at h
          · next hfull =>
              cases h
              exact ⟨rfl, .shed hphase hfull⟩
          · next hroom =>
              split at h
              · next hsame =>
                  cases h
                  exact ⟨rfl, .entered hphase (UInt64.not_le.mp hroom) hsame.1⟩
              · cases h
                exact ⟨rfl, .again hphase⟩
      · cases h
  | finish =>
      simp only [gateStep] at h
      split at h
      · next hphase =>
          cases h
          exact ⟨rfl, .done (.inl rfl) hphase⟩
      · next hphase =>
          cases h
          exact ⟨rfl, .doneAround (.inl rfl) hphase (.inl rfl)⟩
      · cases h
  | cancel =>
      simp only [gateStep] at h
      split at h
      · next hphase =>
          cases h
          exact ⟨rfl, .done (.inr rfl) hphase⟩
      · next hphase =>
          cases h
          exact ⟨rfl, .doneAround (.inr rfl) hphase (.inr rfl)⟩
      · cases h
  | release =>
      simp only [gateStep] at h
      split at h
      · next served hphase =>
          cases h
          refine ⟨rfl, .released hphase ?_⟩
          cases served with
          | true => exact .inl rfl
          | false => exact .inr rfl
      · cases h

/-! ## The guards -/

/-- The phase has the guard. -/
def GatePhase.guarded : GatePhase → Bool
  | .running true | .leaving _ => true
  | _ => false

/-- The request has the guard. -/
def GateThread.guarded (t : GateThread Ip) : Bool := t.phase.guarded

theorem toNat_succ {n m : UInt64} (h : n < m) :
    (n + 1).toNat = n.toNat + 1 := by
  have hlt := UInt64.lt_iff_toNat_lt.mp h
  have hsize := m.toNat_lt
  rw [UInt64.toNat_add, UInt64.toNat_one]
  omega

theorem toNat_pred {n : UInt64} (h : 0 < n.toNat) :
    (n - 1).toNat = n.toNat - 1 := by
  have hle : (1 : UInt64) ≤ n := UInt64.le_iff_toNat_le.mpr h
  rw [UInt64.toNat_sub_of_le _ _ hle, UInt64.toNat_one]

theorem gate_counts_guards :
    (gateSystem ip gate).Counts GateThread.guarded
      fun s => s.inFlight.toNat where
  spawn s r := rfl
  step s t a s' t' hpos h := by
    obtain ⟨-, hmove⟩ := gateStep_moves h
    unfold GateThread.guarded at hpos ⊢
    generalize t'.phase = p at hmove
    cases hmove with
    | entered hphase hroom hsame =>
        rw [hphase, hsame]
        show (_ + 1 : UInt64).toNat + 0 = _ + 1
        rw [toNat_succ hroom]
    | released hphase =>
        rw [hphase] at hpos ⊢
        have hpos : 0 < s.inFlight.toNat := hpos rfl
        show (s.inFlight - 1).toNat + 1 = s.inFlight.toNat + 0
        rw [toNat_pred hpos]
        omega
    | done _ hphase | doneAround _ hphase | around hphase | unauthorized hphase
    | checked hphase | admitted hphase
    | rateLimited hphase | loaded hphase | shed hphase | again hphase =>
        rw [hphase]
        rfl
  env s n s' h := by
    cases h
    rfl

theorem GateMove.inFlight_le {s s' : GateState} {t : GateThread Ip}
    {a : GateAct} {p : GatePhase} (h : GateMove ip gate s t a s' p)
    (hpos : t.guarded = true → 0 < s.inFlight.toNat)
    (hle : s.inFlight.toNat ≤ gate.capacity.toNat) :
    s'.inFlight.toNat ≤ gate.capacity.toNat := by
  cases h with
  | entered hphase hroom hsame =>
      show (_ + 1 : UInt64).toNat ≤ _
      rw [toNat_succ hroom]
      exact UInt64.lt_iff_toNat_lt.mp hroom
  | released hphase _ =>
      have hguarded : t.guarded = true := by
        unfold GateThread.guarded
        rw [hphase]
        rfl
      show (s.inFlight - 1).toNat ≤ _
      rw [toNat_pred (hpos hguarded)]
      omega
  | _ => exact hle

/-- The counter is the number of guards, and at most the capacity. -/
def GateCounted (gate : Gate Ip) (s : Threads GateState (GateThread Ip)) :
    Prop :=
  s.Counted GateThread.guarded (fun s => s.inFlight.toNat) ∧
    s.shared.inFlight.toNat ≤ gate.capacity.toNat

theorem gateCounted_moves {s s' : Threads GateState (GateThread Ip)}
    {a : ThreadAct (GateRequest Ip) GateAct Nat} (h : GateCounted gate s)
    (hmove : (gateSystem ip gate).Moves s a s') : GateCounted gate s' := by
  refine ⟨gate_counts_guards.moves h.1 hmove, ?_⟩
  cases hmove with
  | spawn r => exact h.2
  | step ht hstep =>
      exact (gateStep_moves hstep).2.inFlight_le
        (h.1.pos (List.mem_of_getElem? ht)) h.2
  | env henv =>
      cases henv
      exact h.2

theorem gateCounted_runs {s s' : Threads GateState (GateThread Ip)}
    {as : List (ThreadAct (GateRequest Ip) GateAct Nat)}
    (hruns : (gateSystem ip gate).Runs s as s') (h : GateCounted gate s) :
    GateCounted gate s' :=
  hruns.invariant (I := GateCounted gate) (fun _ _ _ => gateCounted_moves) h

omit [DecidableEq Ip] in
theorem gateCounted_start : GateCounted gate gateStart :=
  ⟨rfl, Nat.zero_le _⟩

/-- The request has seen the counter at the capacity, or was shed for it. -/
def GateThread.sawFull (gate : Gate Ip) (t : GateThread Ip) : Option Unit :=
  match t.phase with
  | .claiming current => if gate.capacity ≤ current then some () else none
  | .ended .shed => some ()
  | _ => none

theorem GateMove.sawFull_cases {s s' : GateState} {t t' : GateThread Ip}
    {a : GateAct} (h : GateMove ip gate s t a s' t'.phase)
    (hfull : t'.sawFull gate = some ()) :
    t.sawFull gate = some () ∨ gate.capacity ≤ s.inFlight := by
  unfold GateThread.sawFull at hfull ⊢
  generalize t'.phase = p at h hfull
  cases h with
  | shed hphase hcurrent =>
      rw [hphase]
      exact .inl (if_pos hcurrent)
  | loaded | again =>
      refine .inr (Decidable.byContradiction fun hroom => ?_)
      have hfull : (if gate.capacity ≤ s.inFlight then some () else none) =
        some () := hfull
      rw [if_neg hroom] at hfull
      cases hfull
  | released _ hresult | doneAround _ _ hresult =>
      rcases hresult with rfl | rfl <;> cases hfull
  | _ => cases hfull

/-- In every interleaving the counter is the number of the guards and never
above the capacity, and a request that was shed came before a moment at which
they were as many as that. -/
theorem gate_sheds_when_full {as : List _}
    {s : Threads GateState (GateThread Ip)}
    (h : (gateSystem ip gate).Runs gateStart as s) :
    s.shared.inFlight.toNat = s.threads.countP GateThread.guarded ∧
      s.threads.countP GateThread.guarded ≤ gate.capacity.toNat ∧
      ∀ (i : Nat) (t : GateThread Ip), s.threads[i]? = some t →
        t.phase = .ended .shed →
        ∃ pre post mid, as = pre ++ post ∧
          (gateSystem ip gate).Runs gateStart pre mid ∧
          (gateSystem ip gate).Runs mid post s ∧ i < mid.threads.length ∧
          mid.threads.countP GateThread.guarded = gate.capacity.toNat := by
  obtain ⟨hcounted, hle⟩ := gateCounted_runs h gateCounted_start
  have hcounted : s.threads.countP GateThread.guarded =
    s.shared.inFlight.toNat := hcounted
  refine ⟨hcounted.symm, by omega, fun i t hi hphase => ?_⟩
  have hsaw : t.sawFull gate = some () := by
    unfold GateThread.sawFull
    rw [hphase]
  have hmoment := ThreadSystem.exists_moment (GateThread.sawFull gate)
    (fun s _ => gate.capacity ≤ s.inFlight) (fun _ _ => rfl) ?_ h hi hsaw
  · rcases hmoment with ⟨u, hu, -⟩ | ⟨pre, post, mid, hsplit, hpre, hpost,
        hcame, hfull⟩
    · cases hu
    · refine ⟨pre, post, mid, hsplit, hpre, hpost, hcame, ?_⟩
      obtain ⟨hmid, hmidle⟩ := gateCounted_runs hpre gateCounted_start
      have hmid : mid.threads.countP GateThread.guarded =
        mid.shared.inFlight.toNat := hmid
      have hfull := UInt64.le_iff_toNat_le.mp hfull
      omega
  · intro s t a s' t' k hstep hk
    rcases (gateStep_moves hstep).2.sawFull_cases hk with hold | hfull
    · exact .inl hold
    · exact .inr (.inl hfull)

/-- Two requests and a capacity of one: the second is shed while the first
runs. -/
def gateTwo : List (ThreadAct (GateRequest (List UInt8)) GateAct Nat) :=
  [.spawn ⟨"GET", "/api/v1/blocks", [], [], none⟩, .step 0 .check,
    .step 0 .callAdmit, .spawn ⟨"GET", "/api/v1/tokens", [], [], none⟩,
    .step 1 .check, .step 1 .callAdmit, .step 0 .load, .step 1 .load,
    .step 0 (.exchange true), .step 0 (.exchange false),
    .step 1 (.exchange false), .step 1 (.exchange false), .step 0 .finish,
    .step 0 .release]

/-- No key, no proxy, a capacity of one. -/
def gateOfOne : Gate (List UInt8) :=
  ⟨true, false, ⟨300, fun _ => none, []⟩, gateCapacity 0 0⟩

theorem gate_sheds_when_full_two :
    ∃ s, (gateSystem ipv4Text gateOfOne).Runs gateStart gateTwo s ∧
      s.shared.inFlight.toNat = s.threads.countP GateThread.guarded ∧
      s.threads.countP GateThread.guarded ≤ gateOfOne.capacity.toNat ∧
      ∀ (i : Nat) (t : GateThread (List UInt8)), s.threads[i]? = some t →
        t.phase = .ended .shed →
        ∃ pre post mid, gateTwo = pre ++ post ∧
          (gateSystem ipv4Text gateOfOne).Runs gateStart pre mid ∧
          (gateSystem ipv4Text gateOfOne).Runs mid post s ∧
          i < mid.threads.length ∧
          mid.threads.countP GateThread.guarded =
            gateOfOne.capacity.toNat := by
  have hruns := ThreadSystem.runs_of_runSteps
    (show runSteps (gateSystem ipv4Text gateOfOne).next gateStart gateTwo =
      some _ from rfl)
  exact ⟨_, hruns, gate_sheds_when_full hruns⟩

/-! ## Who gets how far -/

/-- The request gets as far as the windows. -/
def GateRequest.passes (gate : Gate Ip) (r : GateRequest Ip) : Prop :=
  r.bypasses gate = false ∧ (gate.requireApiKey = true → r.known gate = true)

/-- Where a request may stand. -/
def GateThread.Lawful (gate : Gate Ip) (t : GateThread Ip) : Prop :=
  match t.phase with
  | .arrived => True
  | .running false => t.request.bypasses gate = true
  | .ended .unauthorized => t.request.bypasses gate = false ∧
      gate.requireApiKey = true ∧ t.request.known gate = false
  | .ended .served | .ended .cancelled =>
      t.request.bypasses gate = true ∨ t.request.passes gate
  | _ => t.request.passes gate

/-- What the acts of a run say of the calls of `admit`. -/
structure GateLog (Ip : Type) where
  requests : List (GateRequest Ip) := []
  segment : Nat := 0
  /-- The requests that were checked, and the clock at their check. -/
  checks : List (Nat × Nat) := []
  calls : List (AdmitCall Ip) := []

/-- The call that the request in this place makes. -/
def GateLog.callOf (log : GateLog Ip) (i : Nat) : Option (AdmitCall Ip) :=
  log.requests[i]?.bind fun r =>
    (log.checks.lookup i).map fun segment =>
      ⟨r.presentedKey, r.peer, r.forwarded, segment⟩

def GateLog.next (log : GateLog Ip) :
    ThreadAct (GateRequest Ip) GateAct Nat → GateLog Ip
  | .spawn r => { log with requests := log.requests ++ [r] }
  | .env segments => { log with segment := log.segment + segments }
  | .step i .check => { log with checks := (i, log.segment) :: log.checks }
  | .step i .callAdmit =>
      { log with calls := log.calls ++ (log.callOf i).toList }
  | .step _ _ => log

def gateLog (as : List (ThreadAct (GateRequest Ip) GateAct Nat)) :
    GateLog Ip :=
  as.foldl GateLog.next {}

def callsAdmit : ThreadAct (GateRequest Ip) GateAct Nat → Bool
  | .step _ .callAdmit => true
  | _ => false

/-- What the windows have answered to the request, where the phase tells. -/
def GatePhase.answer : GatePhase → Option Bool
  | .entering | .claiming _ | .running true | .leaving _ | .ended .shed =>
      some true
  | .ended .rateLimited => some false
  | _ => none

theorem admitRun_append (limits : Limits Ip) (calls : List (AdmitCall Ip))
    (c : AdmitCall Ip) : admitRun ip limits (calls ++ [c]) =
      (admitRequest ip limits (admitRun ip limits calls) c).2 := by
  rw [admitRun, List.foldl_append]
  rfl

theorem GateMove.lawful {s s' : GateState} {t t' : GateThread Ip} {a : GateAct}
    (h : GateMove ip gate s t a s' t'.phase) (hrequest : t'.request = t.request)
    (ht : t.Lawful gate) : t'.Lawful gate := by
  unfold GateThread.Lawful at ht ⊢
  generalize t'.phase = p at h
  rw [hrequest]
  cases h with
  | around _ haround => exact haround
  | unauthorized _ haround hrequire hknown =>
      exact ⟨haround, hrequire, hknown⟩
  | checked _ haround hknown => exact ⟨haround, hknown⟩
  | doneAround _ hphase hresult =>
      rw [hphase] at ht
      rcases hresult with rfl | rfl <;> exact .inl ht
  | released hphase hresult =>
      rw [hphase] at ht
      rcases hresult with rfl | rfl <;> exact .inr ht
  | admitted hphase | rateLimited hphase | loaded hphase | shed hphase
  | entered hphase | again hphase | done _ hphase =>
      rw [hphase] at ht
      exact ht

theorem gate_rules :
    (gateSystem ip gate).Rules (fun _ _ => True) (fun _ => True)
      fun _ t => t.Lawful gate where
  spawn _ _ _ := trivial
  step s t a s' t' _ ht h := by
    obtain ⟨hrequest, hmove⟩ := gateStep_moves h
    exact ⟨trivial, hmove.lawful hrequest ht⟩
  other _ _ _ _ _ _ _ _ hu _ _ := hu
  env _ _ _ _ _ := ⟨trivial, fun _ ht => ht⟩

theorem gate_lawful {as : List _} {s : Threads GateState (GateThread Ip)}
    (h : (gateSystem ip gate).Runs gateStart as s) :
    ∀ t ∈ s.threads, t.Lawful gate := by
  refine (gate_rules.runs (I := fun _ => True) (fun _ _ _ _ _ => trivial) ?_ h
    trivial ⟨trivial, ?_⟩).2.2
  · intro s _ _ i j t u _ _ _
    trivial
  · intro t ht
    cases ht

/-! ## The calls of the run -/

/-- The windows have answered so to the request in this place, by a call behind
those before it in the run. -/
def AnsweredBy (ip : IpText Ip) (gate : Gate Ip)
    (as : List (ThreadAct (GateRequest Ip) GateAct Nat)) (i : Nat)
    (r : GateRequest Ip) (answer : Bool) : Prop :=
  ∃ pre post segment, as = pre ++ .step i .callAdmit :: post ∧
    (gateLog pre).checks.lookup i = some segment ∧
    admits ip gate.limits (gateLog pre).calls
      ⟨r.presentedKey, r.peer, r.forwarded, segment⟩ = answer

/-- The state is what the acts say. -/
structure GateLogged (ip : IpText Ip) (gate : Gate Ip)
    (as : List (ThreadAct (GateRequest Ip) GateAct Nat))
    (s : Threads GateState (GateThread Ip)) : Prop where
  requests : (gateLog as).requests = s.threads.map GateThread.request
  segment : (gateLog as).segment = s.shared.segment
  checked : ∀ (i : Nat) (t : GateThread Ip) segment, s.threads[i]? = some t →
    t.phase = .admitting segment →
    (gateLog as).checks.lookup i = some segment
  limiter : s.shared.limiter = admitRun ip gate.limits (gateLog as).calls
  count : (gateLog as).calls.length = as.countP callsAdmit
  passes : ∀ c ∈ (gateLog as).calls, ∃ r : GateRequest Ip, r.passes gate ∧
    c.key = r.presentedKey
  answered : ∀ (i : Nat) (t : GateThread Ip) answer,
    s.threads[i]? = some t → t.phase.answer = some answer →
    AnsweredBy ip gate as i t.request answer

omit [DecidableEq Ip] in
theorem gateLog_snoc (as : List (ThreadAct (GateRequest Ip) GateAct Nat))
    (a : ThreadAct (GateRequest Ip) GateAct Nat) :
    gateLog (as ++ [a]) = (gateLog as).next a := by
  rw [gateLog, List.foldl_append]
  rfl

theorem AnsweredBy.snoc {as : List (ThreadAct (GateRequest Ip) GateAct Nat)}
    {i : Nat} {r : GateRequest Ip} {answer : Bool}
    (h : AnsweredBy ip gate as i r answer)
    (a : ThreadAct (GateRequest Ip) GateAct Nat) :
    AnsweredBy ip gate (as ++ [a]) i r answer := by
  obtain ⟨pre, post, segment, rfl, hrest⟩ := h
  exact ⟨pre, post ++ [a], segment, by simp, hrest⟩

variable {as : List (ThreadAct (GateRequest Ip) GateAct Nat)}
  {s : Threads GateState (GateThread Ip)}

theorem GateLogged.spawn (h : GateLogged ip gate as s) (r : GateRequest Ip) :
    GateLogged ip gate (as ++ [.spawn r])
      ⟨s.shared, s.threads ++ [⟨r, .arrived⟩]⟩ := by
  have hold : ∀ (i : Nat) (t : GateThread Ip),
      (s.threads ++ [⟨r, .arrived⟩])[i]? = some t → t.phase ≠ .arrived →
      s.threads[i]? = some t := by
    intro i t hi hphase
    rcases Nat.lt_or_ge i s.threads.length with hlt | hge
    · rw [List.getElem?_append_left hlt] at hi
      exact hi
    · rw [List.getElem?_append_right hge] at hi
      rw [List.mem_singleton.mp (List.mem_of_getElem? hi)] at hphase
      exact absurd rfl hphase
  refine ⟨?_, ?_, ?_, ?_, ?_, ?_, ?_⟩
  · rw [gateLog_snoc, GateLog.next, h.requests, List.map_append]
    rfl
  · rw [gateLog_snoc]
    exact h.segment
  · intro i t segment hi hphase
    rw [gateLog_snoc]
    exact h.checked i t segment (hold i t hi (by simp [hphase])) hphase
  · rw [gateLog_snoc]
    exact h.limiter
  · rw [gateLog_snoc, List.countP_append]
    exact h.count
  · rw [gateLog_snoc]
    exact h.passes
  · intro i t answer hi hanswer
    refine (h.answered i t answer (hold i t hi ?_) hanswer).snoc _
    intro hphase
    rw [hphase] at hanswer
    cases hanswer

theorem GateLogged.env (h : GateLogged ip gate as s) (segments : Nat) :
    GateLogged ip gate (as ++ [.env segments])
      ⟨{ s.shared with segment := s.shared.segment + segments },
        s.threads⟩ := by
  refine ⟨?_, ?_, ?_, ?_, ?_, ?_, fun i t answer hi hanswer =>
    (h.answered i t answer hi hanswer).snoc _⟩ <;> rw [gateLog_snoc]
  · exact h.requests
  · rw [GateLog.next, h.segment]
  · exact h.checked
  · exact h.limiter
  · rw [List.countP_append]
    exact h.count
  · exact h.passes

/-- A step that makes no call. -/
theorem GateLogged.quiet (h : GateLogged ip gate as s) {i : Nat} {a : GateAct}
    {t t' : GateThread Ip} {shared : GateState} (ht : s.threads[i]? = some t)
    (hrequest : t'.request = t.request) (hcall : a ≠ .callAdmit)
    (hsegment : shared.segment = s.shared.segment)
    (hlimiter : shared.limiter = s.shared.limiter)
    (hchecked : ∀ segment, t'.phase = .admitting segment →
      a = .check ∧ segment = s.shared.segment)
    (hanswer : ∀ answer, t'.phase.answer = some answer →
      t.phase.answer = some answer) :
    GateLogged ip gate (as ++ [.step i a]) ⟨shared, s.threads.set i t'⟩ := by
  have hlog : gateLog (as ++ [.step i a]) =
      { gateLog as with
        checks :=
          if a = .check then (i, s.shared.segment) :: (gateLog as).checks
          else (gateLog as).checks } := by
    rw [gateLog_snoc]
    cases a with
    | callAdmit => exact absurd rfl hcall
    | check => rw [if_pos rfl, ← h.segment, GateLog.next]
    | _ => rfl
  refine ⟨?_, ?_, ?_, ?_, ?_, ?_, ?_⟩
  · rw [hlog, map_set_of_eq ht hrequest]
    exact h.requests
  · rw [hlog]
    exact h.segment.trans hsegment.symm
  · intro j u segment hj hphase
    rw [hlog]
    rcases of_getElem?_set hj with ⟨rfl, rfl⟩ | ⟨hne, hj⟩
    · obtain ⟨hcheck, rfl⟩ := hchecked segment hphase
      rw [if_pos hcheck]
      simp
    · have hold := h.checked j u segment hj hphase
      split
      · rw [List.lookup_cons, beq_eq_false_iff_ne.mpr hne]
        exact hold
      · exact hold
  · rw [hlog, hlimiter]
    exact h.limiter
  · rw [hlog, List.countP_append]
    have hnone : [ThreadAct.step i a].countP (@callsAdmit Ip) = 0 := by
      cases a with
      | callAdmit => exact absurd rfl hcall
      | _ => rfl
    rw [hnone]
    exact h.count
  · rw [hlog]
    exact h.passes
  · intro j u answer hj hphase
    rcases of_getElem?_set hj with ⟨rfl, rfl⟩ | ⟨-, hj⟩
    · rw [hrequest]
      exact (h.answered j t answer ht (hanswer answer hphase)).snoc _
    · exact (h.answered j u answer hj hphase).snoc _

/-- The call of `admit`. -/
theorem GateLogged.called (h : GateLogged ip gate as s) {i : Nat}
    {t t' : GateThread Ip} {segment : Nat} {answer : Bool}
    {limiter : RateLimiter} (ht : s.threads[i]? = some t)
    (hrequest : t'.request = t.request) (hphase : t.phase = .admitting segment)
    (hcall : admitRequest ip gate.limits s.shared.limiter
      ⟨t.request.presentedKey, t.request.peer, t.request.forwarded, segment⟩ =
      (answer, limiter))
    (hpasses : t.request.passes gate)
    (hphase' : t'.phase = if answer then .entering else .ended .rateLimited) :
    GateLogged ip gate (as ++ [.step i .callAdmit])
      ⟨{ s.shared with limiter := limiter }, s.threads.set i t'⟩ := by
  have hcheck := h.checked i t segment ht hphase
  have hlog : gateLog (as ++ [.step i .callAdmit]) =
      { gateLog as with
        calls := (gateLog as).calls ++ [⟨t.request.presentedKey,
          t.request.peer, t.request.forwarded, segment⟩] } := by
    have hrequest : (gateLog as).requests[i]? = some t.request := by
      rw [h.requests, List.getElem?_map, ht]
      rfl
    rw [gateLog_snoc, GateLog.next, GateLog.callOf, hrequest, hcheck]
    rfl
  refine ⟨?_, ?_, ?_, ?_, ?_, ?_, ?_⟩
  · rw [hlog, map_set_of_eq ht hrequest]
    exact h.requests
  · rw [hlog]
    exact h.segment
  · intro j u seg hj hu
    rw [hlog]
    rcases of_getElem?_set hj with ⟨rfl, rfl⟩ | ⟨-, hj⟩
    · rw [hphase'] at hu
      split at hu <;> cases hu
    · exact h.checked j u seg hj hu
  · rw [hlog, admitRun_append, ← h.limiter, hcall]
  · rw [hlog, List.length_append, List.countP_append, h.count]
    rfl
  · rw [hlog]
    intro c hc
    rcases List.mem_append.mp hc with hc | hc
    · exact h.passes c hc
    · rw [List.mem_singleton.mp hc]
      exact ⟨t.request, hpasses, rfl⟩
  · intro j u b hj hu
    rcases of_getElem?_set hj with ⟨rfl, rfl⟩ | ⟨-, hj⟩
    · refine ⟨as, [], segment, rfl, hcheck, ?_⟩
      rw [hrequest, admits, ← h.limiter, hcall]
      rw [hphase'] at hu
      cases answer <;> cases hu <;> rfl
    · exact (h.answered j u b hj hu).snoc _

theorem GateLogged.moves (h : GateLogged ip gate as s)
    (hlawful : ∀ t ∈ s.threads, t.Lawful gate)
    {a : ThreadAct (GateRequest Ip) GateAct Nat}
    {s' : Threads GateState (GateThread Ip)}
    (hmoves : (gateSystem ip gate).Moves s a s') :
    GateLogged ip gate (as ++ [a]) s' := by
  cases hmoves with
  | spawn r => exact h.spawn r
  | env henv =>
      cases henv
      exact h.env _
  | @step i act t t' shared ht hstep =>
      obtain ⟨hrequest, hmove⟩ := gateStep_moves hstep
      have hpasses := hlawful t (List.mem_of_getElem? ht)
      unfold GateThread.Lawful at hpasses
      generalize hphase' : t'.phase = p at hmove
      cases hmove with
      | admitted hphase hcall =>
          rw [hphase] at hpasses
          exact h.called ht hrequest hphase hcall hpasses hphase'
      | rateLimited hphase hcall =>
          rw [hphase] at hpasses
          exact h.called ht hrequest hphase hcall hpasses hphase'
      | checked hphase =>
          refine h.quiet ht hrequest (by simp) rfl rfl ?_ ?_ <;> rw [hphase']
          · intro segment hsegment
            cases hsegment
            exact ⟨rfl, rfl⟩
          · intro answer hanswer
            cases hanswer
      | around hphase | unauthorized hphase =>
          refine h.quiet ht hrequest (by simp) rfl rfl ?_ ?_ <;> rw [hphase']
          · intro segment hsegment
            cases hsegment
          · intro answer hanswer
            cases hanswer
      | loaded hphase | shed hphase | entered hphase | again hphase =>
          refine h.quiet ht hrequest (by simp) rfl rfl ?_ ?_ <;> rw [hphase']
          · intro segment hsegment
            cases hsegment
          · intro answer hanswer
            rw [hphase]
            exact hanswer
      | done hact hphase =>
          refine h.quiet ht hrequest ?_ rfl rfl ?_ ?_
          · rcases hact with rfl | rfl <;> simp
          · rw [hphase']
            intro segment hsegment
            cases hsegment
          · rw [hphase', hphase]
            exact fun answer hanswer => hanswer
      | doneAround hact hphase hresult =>
          refine h.quiet ht hrequest ?_ rfl rfl ?_ ?_
          · rcases hact with rfl | rfl <;> simp
          · rw [hphase']
            intro segment hsegment
            cases hsegment
          · rw [hphase']
            intro answer hanswer
            rcases hresult with rfl | rfl <;> cases hanswer
      | released hphase hresult =>
          refine h.quiet ht hrequest (by simp) rfl rfl ?_ ?_ <;> rw [hphase']
          · intro segment hsegment
            cases hsegment
          · intro answer hanswer
            rcases hresult with rfl | rfl <;> cases hanswer

theorem gate_logged (h : (gateSystem ip gate).Runs gateStart as s) :
    GateLogged ip gate as s := by
  refine h.invariant_prefix (I := GateLogged ip gate) ?_ ?_
  · intro pre a post s₁ s₂ _ hpre hlogged hmoves
    exact hlogged.moves (gate_lawful hpre) hmoves
  · refine ⟨rfl, rfl, ?_, rfl, rfl, ?_, ?_⟩
    · intro i t segment hi
      cases hi
    · intro c hc
      cases hc
    · intro i t answer hi
      cases hi

omit [DecidableEq Ip] in
theorem GateThread.Lawful.around {t : GateThread Ip} (h : t.Lawful gate)
    (haround : t.request.bypasses gate = true) :
    t.phase = .arrived ∨ t.phase = .running false ∨ t.phase = .ended .served ∨
      t.phase = .ended .cancelled := by
  unfold GateThread.Lawful at h
  unfold GateRequest.passes at h
  rw [haround] at h
  split at h <;> simp_all

omit [DecidableEq Ip] in
theorem GateThread.Lawful.turnedAway {t : GateThread Ip} (h : t.Lawful gate)
    (haround : t.request.bypasses gate = false)
    (hrequire : gate.requireApiKey = true)
    (hknown : t.request.known gate = false) :
    t.phase = .arrived ∨ t.phase = .ended .unauthorized := by
  unfold GateThread.Lawful at h
  unfold GateRequest.passes at h
  rw [haround, hrequire, hknown] at h
  split at h <;> simp_all

omit [DecidableEq Ip] in
theorem GateThread.Lawful.passes {t : GateThread Ip} (h : t.Lawful gate)
    (hpasses : t.request.passes gate) :
    t.phase ≠ .running false ∧ t.phase ≠ .ended .unauthorized := by
  unfold GateThread.Lawful at h
  refine ⟨fun hphase => ?_, fun hphase => ?_⟩
  · rw [hphase] at h
    exact Bool.noConfusion (h.symm.trans hpasses.1)
  · rw [hphase] at h
    exact Bool.noConfusion (h.2.2.symm.trans (hpasses.2 h.2.1))

/-- In every interleaving: a request around the gate is never turned away, one
without the key that is required gets no further than its 401, no other request
gets a 401, and a request is let in or limited as the windows answer to its
call. The windows are those of the calls of the run one after the other, each
`callAdmit` of it one of them. In keys-only mode nothing but configured keys has
a window. -/
theorem gate_turns_away
    {as : List (ThreadAct (GateRequest Ip) GateAct Nat)}
    {s : Threads GateState (GateThread Ip)}
    (h : (gateSystem ip gate).Runs gateStart as s) :
    (∀ t ∈ s.threads,
      (t.request.bypasses gate = true → t.phase = .arrived ∨
        t.phase = .running false ∨ t.phase = .ended .served ∨
        t.phase = .ended .cancelled) ∧
      (t.request.bypasses gate = false → gate.requireApiKey = true →
        t.request.known gate = false →
        t.phase = .arrived ∨ t.phase = .ended .unauthorized) ∧
      (t.request.passes gate → t.phase ≠ .running false ∧
        t.phase ≠ .ended .unauthorized)) ∧
    (∀ (i : Nat) (t : GateThread Ip) answer, s.threads[i]? = some t →
      t.phase.answer = some answer →
      AnsweredBy ip gate as i t.request answer) ∧
    (gateLog as).requests = s.threads.map GateThread.request ∧
    (gateLog as).segment = s.shared.segment ∧
    s.shared.limiter = admitRun ip gate.limits (gateLog as).calls ∧
    (gateLog as).calls.length = as.countP callsAdmit ∧
    (gate.requireApiKey = true → ∀ p w, s.shared.limiter.windows p = some w →
      ∃ key, p = "apikey:" ++ key ∧ (gate.limits.keyLimits key).isSome) := by
  have hlogged := gate_logged h
  refine ⟨fun t ht => ?_, hlogged.answered, hlogged.requests, hlogged.segment,
    hlogged.limiter, hlogged.count, fun hrequire p w hw => ?_⟩
  · have hlawful := gate_lawful h t ht
    exact ⟨hlawful.around, hlawful.turnedAway, hlawful.passes⟩
  · rw [hlogged.limiter, admitRun_eq] at hw
    obtain ⟨c, hc, rfl⟩ := called_of_windows hw
    obtain ⟨r, hr, hpart⟩ := List.mem_filterMap.mp hc
    obtain ⟨request, hpasses, hkey⟩ := hlogged.passes r hr
    have hknown := hpasses.2 hrequire
    unfold GateRequest.known at hknown
    rw [← hkey] at hknown
    unfold partitionOf at hpart
    cases hpresented : r.key with
    | none => simp [hpresented] at hknown
    | some key =>
        rw [hpresented] at hknown hpart
        obtain ⟨perMinute, hlimit⟩ := Option.isSome_iff_exists.mp hknown
        rw [Option.bind_some, hlimit, Option.map_some] at hpart
        simp only at hpart
        split at hpart
        · cases hpart
        · cases hpart
          exact ⟨key, rfl, hknown⟩

/-- Keys only, with one key that has a call a minute. -/
def gateOfKey : Gate (List UInt8) :=
  ⟨true, true, ⟨300, fun key => if key = "k" then some 1 else none, []⟩, 2⟩

/-- A probe, two requests with the key and one without. -/
def gateFour : List (ThreadAct (GateRequest (List UInt8)) GateAct Nat) :=
  [.spawn ⟨"GET", "/health", [], [], none⟩,
    .spawn ⟨"GET", "/api/v1/blocks", [[107]], [], none⟩,
    .spawn ⟨"GET", "/api/v1/blocks", [[108]], [], none⟩,
    .spawn ⟨"GET", "/api/v1/tokens", [[107]], [], none⟩,
    .step 2 .check, .step 1 .check, .env 3, .step 1 .callAdmit, .step 3 .check,
    .step 0 .check, .step 3 .callAdmit, .step 0 .finish, .step 1 .load]

/-- The first request with the key is let in, the second is limited, and the one
without it is unauthorized. -/
theorem gate_turns_away_four :
    ∃ s, (gateSystem ipv4Text gateOfKey).Runs gateStart gateFour s ∧
      s.threads.map GateThread.phase =
        [.ended .served, .claiming 0, .ended .unauthorized,
          .ended .rateLimited] ∧
      (∀ t ∈ s.threads,
        (t.request.bypasses gateOfKey = true → t.phase = .arrived ∨
          t.phase = .running false ∨ t.phase = .ended .served ∨
          t.phase = .ended .cancelled) ∧
        (t.request.bypasses gateOfKey = false →
          gateOfKey.requireApiKey = true →
          t.request.known gateOfKey = false →
          t.phase = .arrived ∨ t.phase = .ended .unauthorized) ∧
        (t.request.passes gateOfKey → t.phase ≠ .running false ∧
          t.phase ≠ .ended .unauthorized)) ∧
      (∀ (i : Nat) (t : GateThread (List UInt8)) answer,
        s.threads[i]? = some t → t.phase.answer = some answer →
        AnsweredBy ipv4Text gateOfKey gateFour i t.request answer) ∧
      (gateLog gateFour).requests = s.threads.map GateThread.request ∧
      (gateLog gateFour).segment = s.shared.segment ∧
      s.shared.limiter =
        admitRun ipv4Text gateOfKey.limits (gateLog gateFour).calls ∧
      (gateLog gateFour).calls.length = gateFour.countP callsAdmit ∧
      (gateOfKey.requireApiKey = true →
        ∀ p w, s.shared.limiter.windows p = some w →
          ∃ key, p = "apikey:" ++ key ∧
            (gateOfKey.limits.keyLimits key).isSome) := by
  have hruns := ThreadSystem.runs_of_runSteps
    (show runSteps (gateSystem ipv4Text gateOfKey).next gateStart gateFour =
      some _ from rfl)
  exact ⟨_, hruns, by decide +kernel, gate_turns_away hruns⟩

end Explorer.Ref
