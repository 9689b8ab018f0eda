import Explorer.Lib.Steps
import Mathlib

/-!
# Threads over a shared state

Any number of threads come and go over one shared state. A step is a thread's,
and reads and writes the shared state and its own; or it is the environment's.
What holds over every interleaving is put together from what one thread does.

`Rules` is the proof outline: an invariant of the shared state, one of each
thread, and a thread's step leaves the others theirs. Where two threads may
stand is what they rely on, and it comes from `Counts`: a counter in the
shared state goes up and down with the threads that hold something, so it
counts them, and a counter that is at most 1 keeps them apart.

`exists_moment` is for what a thread has learnt: it was so at a moment since
the thread came. `steps_le` is for progress: threads that come nearer to their
end with every step take no more of them than they had to go.
-/

namespace Explorer.Lib

variable {σ τ ρ α ε κ : Type*}

/-- The shared state, and each thread where it stands. -/
structure Threads (σ τ : Type*) where
  shared : σ
  threads : List τ

inductive ThreadAct (ρ α ε : Type*) where
  | spawn (r : ρ)
  | step (i : Nat) (a : α)
  | env (e : ε)

def ThreadAct.isSpawn : ThreadAct ρ α ε → Bool
  | .spawn _ => true
  | _ => false

def ThreadAct.isStep : ThreadAct ρ α ε → Bool
  | .step _ _ => true
  | _ => false

/-- Where a thread starts, what its steps do, and what else happens. -/
structure ThreadSystem (σ τ ρ α ε : Type*) where
  spawn : σ → ρ → τ
  step : σ → τ → α → Option (σ × τ)
  env : σ → ε → Option σ

namespace ThreadSystem

variable (sys : ThreadSystem σ τ ρ α ε)

/-- One step of the system. -/
def next (s : Threads σ τ) : ThreadAct ρ α ε → Option (Threads σ τ)
  | .spawn r => some ⟨s.shared, s.threads ++ [sys.spawn s.shared r]⟩
  | .step i a =>
      s.threads[i]?.bind fun t =>
        (sys.step s.shared t a).map fun r => ⟨r.1, s.threads.set i r.2⟩
  | .env e => (sys.env s.shared e).map fun shared => ⟨shared, s.threads⟩

/-- The cases of a step. -/
inductive Moves (s : Threads σ τ) : ThreadAct ρ α ε → Threads σ τ → Prop
  | spawn (r : ρ) :
      Moves s (.spawn r) ⟨s.shared, s.threads ++ [sys.spawn s.shared r]⟩
  | step {i : Nat} {a : α} {t t' : τ} {shared : σ} :
      s.threads[i]? = some t → sys.step s.shared t a = some (shared, t') →
      Moves s (.step i a) ⟨shared, s.threads.set i t'⟩
  | env {e : ε} {shared : σ} : sys.env s.shared e = some shared →
      Moves s (.env e) ⟨shared, s.threads⟩

variable {sys}

theorem moves_of_next {s s' : Threads σ τ} {a : ThreadAct ρ α ε}
    (h : sys.next s a = some s') : sys.Moves s a s' := by
  cases a with
  | spawn r =>
      cases h
      exact Moves.spawn r
  | step i a =>
      obtain ⟨t, ht, h⟩ := Option.bind_eq_some_iff.mp h
      obtain ⟨⟨shared, t'⟩, hstep, rfl⟩ := Option.map_eq_some_iff.mp h
      exact Moves.step ht hstep
  | env e =>
      obtain ⟨shared, henv, rfl⟩ := Option.map_eq_some_iff.mp h
      exact Moves.env henv

variable (sys) in
/-- The actions lead from one state to the other. -/
abbrev Runs (s : Threads σ τ) (as : List (ThreadAct ρ α ε))
    (s' : Threads σ τ) : Prop :=
  Steps sys.Moves s as s'

theorem runs_of_runSteps {s s' : Threads σ τ} {as : List (ThreadAct ρ α ε)}
    (h : runSteps sys.next s as = some s') : sys.Runs s as s' :=
  (steps_of_runSteps h).mono fun _ _ _ => moves_of_next

end ThreadSystem

/-! ## One thread changed -/

/-- Where one thread has been put, it stands, and the others do. -/
theorem of_getElem?_set {threads : List τ} {i j : Nat} {t u : τ}
    (h : (threads.set i t)[j]? = some u) :
    j = i ∧ u = t ∨ j ≠ i ∧ threads[j]? = some u := by
  by_cases hij : i = j
  · subst hij
    rw [List.getElem?_set_self'] at h
    obtain ⟨_, -, rfl⟩ := Option.map_eq_some_iff.mp h
    exact .inl ⟨rfl, rfl⟩
  · rw [List.getElem?_set_ne hij] at h
    exact .inr ⟨Ne.symm hij, h⟩

/-- What the new thread shares with the old one stays as it is. -/
theorem map_set_of_eq {f : τ → κ} {threads : List τ} {i : Nat} {t t' : τ}
    (h : threads[i]? = some t) (hf : f t' = f t) :
    (threads.set i t').map f = threads.map f := by
  obtain ⟨hlt, rfl⟩ := List.getElem?_eq_some_iff.mp h
  rw [List.map_set, hf, ← List.getElem_map (f := f) (h := by simpa),
    List.set_getElem_self]

/-! ## A counter of those that hold something -/

theorem sum_map_set (f : τ → Nat) {threads : List τ} {i : Nat} {t : τ}
    (h : threads[i]? = some t) (t' : τ) :
    ((threads.set i t').map f).sum + f t = (threads.map f).sum + f t' := by
  induction threads generalizing i with
  | nil => simp at h
  | cons u threads ih =>
      cases i with
      | zero =>
          simp only [List.getElem?_cons_zero, Option.some.injEq] at h
          subst h
          simp only [List.set_cons_zero, List.map_cons, List.sum_cons]
          omega
      | succ i =>
          have := ih h
          simp only [List.set_cons_succ, List.map_cons, List.sum_cons]
          omega

theorem countP_eq_sum (holds : τ → Bool) (threads : List τ) :
    threads.countP holds = (threads.map fun t => (holds t).toNat).sum := by
  induction threads with
  | nil => rfl
  | cons t threads ih =>
      rw [List.countP_cons, ih, List.map_cons, List.sum_cons]
      cases holds t <;> simp [Nat.add_comm]

/-- The counter of the shared state is the number of threads that hold. -/
def Threads.Counted (holds : τ → Bool) (held : σ → Nat)
    (s : Threads σ τ) : Prop :=
  s.threads.countP holds = held s.shared

theorem Threads.Counted.pos {holds : τ → Bool} {held : σ → Nat}
    {s : Threads σ τ} (h : s.Counted holds held) {t : τ} (ht : t ∈ s.threads)
    (hholds : holds t = true) : 0 < held s.shared := by
  have hcount : s.threads.countP holds = held s.shared := h
  rw [← hcount]
  exact List.countP_pos_iff.mpr ⟨t, ht, hholds⟩

/-- Who comes holds nothing, and the counter goes with the thread. A thread
that holds may rely on being counted. -/
structure ThreadSystem.Counts (sys : ThreadSystem σ τ ρ α ε)
    (holds : τ → Bool) (held : σ → Nat) : Prop where
  spawn : ∀ s r, holds (sys.spawn s r) = false
  step : ∀ s t a s' t', (holds t = true → 0 < held s) →
    sys.step s t a = some (s', t') →
    held s' + (holds t).toNat = held s + (holds t').toNat
  env : ∀ s e s', sys.env s e = some s' → held s' = held s

namespace ThreadSystem

variable {sys : ThreadSystem σ τ ρ α ε} {holds : τ → Bool} {held : σ → Nat}

theorem Counts.moves (h : sys.Counts holds held) {s s' : Threads σ τ}
    {a : ThreadAct ρ α ε} (hs : s.Counted holds held)
    (hmove : sys.Moves s a s') : s'.Counted holds held := by
  cases hmove with
  | spawn r =>
      show List.countP holds (s.threads ++ [sys.spawn s.shared r]) = _
      rw [List.countP_append, List.countP_singleton, h.spawn]
      exact hs
  | @step i a t t' shared ht hstep =>
      have hcount := h.step _ _ _ _ _ (hs.pos (List.mem_of_getElem? ht)) hstep
      have hset := sum_map_set (fun t => (holds t).toNat) ht t'
      rw [← countP_eq_sum, ← countP_eq_sum] at hset
      have hs : s.threads.countP holds = held s.shared := hs
      show List.countP holds (s.threads.set i t') = held shared
      omega
  | env henv => exact Eq.trans hs (h.env _ _ _ henv).symm

theorem Counts.runs (h : sys.Counts holds held) {s s' : Threads σ τ}
    {as : List (ThreadAct ρ α ε)} (hruns : sys.Runs s as s')
    (hs : s.Counted holds held) : s'.Counted holds held := by
  refine hruns.invariant (I := Threads.Counted holds held) ?_ hs
  intro s a s' hs hmove
  exact h.moves hs hmove

end ThreadSystem

/-- Any two of the threads stand like this. -/
def Threads.Apart (apart : τ → τ → Prop) (s : Threads σ τ) : Prop :=
  ∀ (i j : Nat) (t u : τ), i ≠ j → s.threads[i]? = some t →
    s.threads[j]? = some u → apart t u

theorem add_le_sum_map (f : τ → Nat) {threads : List τ} {i j : Nat} {t u : τ}
    (hne : i ≠ j) (hi : threads[i]? = some t) (hj : threads[j]? = some u) :
    f t + f u ≤ (threads.map f).sum := by
  have hmem : ∀ {threads : List τ} {i : Nat} {t : τ}, threads[i]? = some t →
      f t ≤ (threads.map f).sum := fun h =>
    List.le_sum_of_mem (List.mem_map_of_mem (List.mem_of_getElem? h))
  induction threads generalizing i j with
  | nil => simp at hi
  | cons v threads ih =>
      rw [List.map_cons, List.sum_cons]
      cases i with
      | zero =>
          cases j with
          | zero => exact absurd rfl hne
          | succ j =>
              have := hmem hj
              simp only [List.getElem?_cons_zero, Option.some.injEq] at hi
              subst hi
              simp only [List.getElem?_cons_succ] at hj
              have := hmem hj
              omega
      | succ i =>
          simp only [List.getElem?_cons_succ] at hi
          cases j with
          | zero =>
              simp only [List.getElem?_cons_zero, Option.some.injEq] at hj
              subst hj
              have := hmem hi
              omega
          | succ j =>
              have := ih (fun h => hne (congrArg _ h)) hi hj
              omega

/-- Of the threads that a counter of at most 1 counts there are no two. -/
theorem Threads.Counted.apart {holds : τ → Bool} {held : σ → Nat}
    {s : Threads σ τ} (h : s.Counted holds held) (hle : held s.shared ≤ 1) :
    s.Apart fun t u => holds t = true → holds u = false := by
  intro i j t u hne hi hj ht
  have htwo := add_le_sum_map (fun t => (holds t).toNat) hne hi hj
  have hcount : s.threads.countP holds = held s.shared := h
  rw [← countP_eq_sum, hcount, ht] at htwo
  cases hu : holds u with
  | false => rfl
  | true =>
      rw [hu, Bool.toNat_true] at htwo
      omega

/-! ## The proof outline -/

/-- An invariant of the shared state and one of each thread. -/
def Threads.All (J : σ → Prop) (L : σ → τ → Prop) (s : Threads σ τ) : Prop :=
  J s.shared ∧ ∀ t ∈ s.threads, L s.shared t

/-- A step keeps the invariant of the shared state and its thread's own, and
any other thread that may stand beside it keeps its own. -/
structure ThreadSystem.Rules (sys : ThreadSystem σ τ ρ α ε)
    (apart : τ → τ → Prop) (J : σ → Prop) (L : σ → τ → Prop) : Prop where
  spawn : ∀ s r, J s → L s (sys.spawn s r)
  step : ∀ s t a s' t', J s → L s t → sys.step s t a = some (s', t') →
    J s' ∧ L s' t'
  other : ∀ s t a s' t' u, J s → L s t → L s u → apart t u →
    sys.step s t a = some (s', t') → L s' u
  env : ∀ s e s', J s → sys.env s e = some s' →
    J s' ∧ ∀ t, L s t → L s' t

namespace ThreadSystem

variable {sys : ThreadSystem σ τ ρ α ε} {apart : τ → τ → Prop}
  {J : σ → Prop} {L : σ → τ → Prop}

theorem Rules.moves (h : sys.Rules apart J L) {s s' : Threads σ τ}
    {a : ThreadAct ρ α ε} (hs : s.All J L) (hapart : s.Apart apart)
    (hmove : sys.Moves s a s') : s'.All J L := by
  obtain ⟨hJ, hL⟩ := hs
  cases hmove with
  | spawn r =>
      refine ⟨hJ, fun t ht => ?_⟩
      rcases List.mem_append.mp ht with ht | ht
      · exact hL t ht
      · rw [List.mem_singleton.mp ht]
        exact h.spawn _ r hJ
  | @step i a t t' shared ht hstep =>
      have hown := hL t (List.mem_of_getElem? ht)
      obtain ⟨hJ', ht'⟩ := h.step _ _ _ _ _ hJ hown hstep
      refine ⟨hJ', fun u hu => ?_⟩
      obtain ⟨j, hj⟩ := List.mem_iff_getElem?.mp hu
      by_cases hij : i = j
      · subst hij
        rw [List.getElem?_set_self (List.getElem?_eq_some_iff.mp ht).1] at hj
        cases hj
        exact ht'
      · rw [List.getElem?_set_ne hij] at hj
        exact h.other _ _ _ _ _ u hJ hown (hL u (List.mem_of_getElem? hj))
          (hapart i j t u hij ht hj) hstep
  | env henv =>
      obtain ⟨hJ', hkeep⟩ := h.env _ _ _ hJ henv
      exact ⟨hJ', fun t ht => hkeep t (hL t ht)⟩

/-- The outline holds over every run along which the threads stand apart. -/
theorem Rules.runs (h : sys.Rules apart J L) {I : Threads σ τ → Prop}
    (hI : ∀ s a s', I s → sys.Moves s a s' → I s')
    (hapart : ∀ s, I s → s.All J L → s.Apart apart) {s s' : Threads σ τ}
    {as : List (ThreadAct ρ α ε)} (hruns : sys.Runs s as s') (hI₀ : I s)
    (hs : s.All J L) : I s' ∧ s'.All J L := by
  refine hruns.invariant (I := fun s => I s ∧ s.All J L) ?_ ⟨hI₀, hs⟩
  intro s a s' ⟨hIs, hs⟩ hmove
  exact ⟨hI _ _ _ hIs hmove, h.moves hs (hapart s hIs hs) hmove⟩

/-! ## What a thread has learnt -/

/-- What a thread has learnt was so at a moment since it came: right before
or right after the step in which it learnt it. -/
theorem exists_moment (learnt : τ → Option κ) (P : σ → κ → Prop)
    (hspawn : ∀ s r, learnt (sys.spawn s r) = none)
    (hstep : ∀ s t a s' t' k, sys.step s t a = some (s', t') →
      learnt t' = some k → learnt t = some k ∨ P s k ∨ P s' k)
    {s s' : Threads σ τ} {as : List (ThreadAct ρ α ε)}
    (hruns : sys.Runs s as s') {i : Nat} {t' : τ} {k : κ}
    (hi : s'.threads[i]? = some t') (hk : learnt t' = some k) :
    (∃ t, s.threads[i]? = some t ∧ learnt t = some k) ∨
      ∃ pre post mid, as = pre ++ post ∧ sys.Runs s pre mid ∧
        sys.Runs mid post s' ∧ i < mid.threads.length ∧ P mid.shared k := by
  induction hruns with
  | nil s => exact .inl ⟨t', hi, hk⟩
  | @cons s s₁ s' a as hmove hrest ih =>
      rcases ih hi with ⟨t₁, ht₁, hk₁⟩ | ⟨pre, post, mid, rfl, hpre, hpost, hmid⟩
      · cases hmove with
        | spawn r =>
            rcases Nat.lt_or_ge i s.threads.length with hlt | hge
            · rw [List.getElem?_append_left hlt] at ht₁
              exact .inl ⟨t₁, ht₁, hk₁⟩
            · rw [List.getElem?_append_right hge] at ht₁
              have hnew := List.mem_singleton.mp (List.mem_of_getElem? ht₁)
              rw [hnew, hspawn] at hk₁
              cases hk₁
        | @step j a t t₂ shared ht hstep₁ =>
            by_cases hji : j = i
            · subst hji
              have hlt := (List.getElem?_eq_some_iff.mp ht).1
              rw [List.getElem?_set_self hlt] at ht₁
              cases ht₁
              rcases hstep _ _ _ _ _ _ hstep₁ hk₁ with hold | hbefore | hafter
              · exact .inl ⟨t, ht, hold⟩
              · exact .inr ⟨[], _, s, rfl, Steps.nil s,
                  Steps.cons (Moves.step ht hstep₁) hrest, hlt, hbefore⟩
              · refine .inr ⟨[_], as, _, rfl,
                  Steps.cons (Moves.step ht hstep₁) (Steps.nil _), hrest, ?_,
                  hafter⟩
                rw [List.length_set]
                exact hlt
            · rw [List.getElem?_set_ne hji] at ht₁
              exact .inl ⟨t₁, ht₁, hk₁⟩
        | env henv => exact .inl ⟨t₁, ht₁, hk₁⟩
      · exact .inr ⟨a :: pre, post, mid, rfl, Steps.cons hmove hpre, hpost,
          hmid⟩

/-! ## Progress -/

/-- With every step a thread comes nearer to its end, and none comes with more
than `most` to go: there are at most as many steps as that. -/
theorem steps_le (rank : τ → Nat) (most : Nat)
    (hspawn : ∀ s r, rank (sys.spawn s r) ≤ most)
    (hstep : ∀ s t a s' t', sys.step s t a = some (s', t') →
      rank t' < rank t) {s s' : Threads σ τ} {as : List (ThreadAct ρ α ε)}
    (hruns : sys.Runs s as s') :
    as.countP ThreadAct.isStep + (s'.threads.map rank).sum ≤
      (s.threads.map rank).sum + most * as.countP ThreadAct.isSpawn := by
  induction hruns with
  | nil => simp
  | @cons s s₁ s' a as hmove _ ih =>
      rw [List.countP_cons, List.countP_cons]
      cases hmove with
      | spawn r =>
          have := hspawn s.shared r
          rw [List.map_append, List.sum_append] at ih
          simp only [List.map_cons, List.map_nil, List.sum_cons,
            List.sum_nil] at ih
          simp only [ThreadAct.isStep, ThreadAct.isSpawn, Bool.false_eq_true,
            if_false, if_true, Nat.mul_add, Nat.mul_one]
          omega
      | @step i a t t' shared ht hstep₁ =>
          have hlt := hstep _ _ _ _ _ hstep₁
          have hset := sum_map_set rank ht t'
          have ih : _ ≤ ((s.threads.set i t').map rank).sum + _ := ih
          simp only [ThreadAct.isStep, ThreadAct.isSpawn, Bool.false_eq_true,
            if_false, if_true, Nat.add_zero]
          omega
      | env henv =>
          simp only [ThreadAct.isStep, ThreadAct.isSpawn, Bool.false_eq_true,
            if_false, Nat.add_zero]
          exact ih

end ThreadSystem

end Explorer.Lib
