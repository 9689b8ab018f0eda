import Mathlib.Order.Basic

/-!
# Runs of a labelled step relation

A step relation says which action leads from which state to which. This file
is what the developments over such relations share: a run is a list of
actions, an invariant of the steps is one of the runs, and a system whose
steps lower a measure and whose unfinished states can always step completes,
whatever order its steps come in.
-/

namespace Explorer.Lib

variable {σ α : Type*} {step : σ → α → σ → Prop}

/-- Actions taken one after the other. -/
inductive Steps (step : σ → α → σ → Prop) : σ → List α → σ → Prop
  | nil (s : σ) : Steps step s [] s
  | cons {s s' s'' : σ} {a : α} {as : List α} :
      step s a s' → Steps step s' as s'' → Steps step s (a :: as) s''

theorem Steps.append {s s' s'' : σ} {as bs : List α}
    (h : Steps step s as s') (h' : Steps step s' bs s'') :
    Steps step s (as ++ bs) s'' := by
  induction h with
  | nil => exact h'
  | cons hstep _ ih => exact Steps.cons hstep (ih h')

theorem Steps.snoc {s s' s'' : σ} {as : List α} {a : α}
    (h : Steps step s as s') (hstep : step s' a s'') :
    Steps step s (as ++ [a]) s'' :=
  h.append (Steps.cons hstep (Steps.nil s''))

/-- What every step keeps, every run keeps. -/
theorem Steps.invariant {I : σ → Prop}
    (hstep : ∀ s a s', I s → step s a s' → I s') {s s' : σ} {as : List α}
    (h : Steps step s as s') (hs : I s) : I s' := by
  induction h with
  | nil => exact hs
  | cons hfirst _ ih => exact ih (hstep _ _ _ hs hfirst)

/-- As `Steps.invariant`, where what is kept speaks of the actions so far, and a
step is told that the run is there and goes on as it does. -/
theorem Steps.invariant_prefix {I : List α → σ → Prop} {s₀ s' : σ}
    {all : List α} (h : Steps step s₀ all s')
    (hstep : ∀ pre a post s s', all = pre ++ a :: post →
      Steps step s₀ pre s → I pre s → step s a s' → I (pre ++ [a]) s')
    (hs : I [] s₀) : I all s' := by
  suffices hrest : ∀ (post pre : List α) (s : σ), all = pre ++ post →
      Steps step s₀ pre s → I pre s → Steps step s post s' →
      I (pre ++ post) s' from
    hrest all [] s₀ rfl (Steps.nil s₀) hs h
  intro post
  induction post with
  | nil =>
      intro pre s _ _ hI hend
      cases hend
      rw [List.append_nil]
      exact hI
  | cons a post ih =>
      intro pre s heq hpre hI hrun
      rw [List.append_cons] at heq ⊢
      cases hrun with
      | cons hfirst hrest =>
          refine ih (pre ++ [a]) _ heq (hpre.snoc hfirst) ?_ hrest
          rw [← List.append_cons] at heq
          exact hstep pre a post _ _ heq hpre hI hfirst

/-- A run seen through a map that the steps of another relation follow. -/
theorem Steps.map {τ : Type*} {step' : τ → α → τ → Prop} (f : σ → τ)
    (hstep : ∀ s a s', step s a s' → step' (f s) a (f s')) {s s' : σ}
    {as : List α} (h : Steps step s as s') : Steps step' (f s) as (f s') := by
  induction h with
  | nil => exact Steps.nil _
  | cons hfirst _ ih => exact Steps.cons (hstep _ _ _ hfirst) ih

/-- A step relation inside another runs inside it. -/
theorem Steps.mono {step' : σ → α → σ → Prop}
    (hstep : ∀ s a s', step s a s' → step' s a s') {s s' : σ} {as : List α}
    (h : Steps step s as s') : Steps step' s as s' :=
  h.map id hstep

/-- A step function along a list of actions. -/
def runSteps (f : σ → α → Option σ) : σ → List α → Option σ
  | s, [] => some s
  | s, a :: as => (f s a).bind fun s' => runSteps f s' as

theorem steps_of_runSteps {f : σ → α → Option σ} {s s' : σ} {as : List α}
    (h : runSteps f s as = some s') :
    Steps (fun s a s' => f s a = some s') s as s' := by
  induction as generalizing s with
  | nil =>
      cases h
      exact Steps.nil _
  | cons a as ih =>
      obtain ⟨s₁, hfirst, hrest⟩ := Option.bind_eq_some_iff.mp h
      exact Steps.cons hfirst (ih hrest)

/-- Runs are bounded by a measure the steps lower. -/
theorem Steps.length_le {I : σ → Prop} {measure : σ → Nat}
    (hstep : ∀ s a s', I s → step s a s' → I s' ∧ measure s' < measure s)
    {s s' : σ} {as : List α} (h : Steps step s as s') (hs : I s) :
    as.length + measure s' ≤ measure s := by
  induction h with
  | nil => simp
  | cons hfirst _ ih =>
      obtain ⟨hs', hlt⟩ := hstep _ _ _ hs hfirst
      have := ih hs'
      simp only [List.length_cons]
      omega

/-- Every run from here is bounded, and one that is not done can go on. -/
def Completes (step : σ → α → σ → Prop) (done : σ → Prop) (s : σ) : Prop :=
  (∃ bound, ∀ as s', Steps step s as s' → as.length ≤ bound) ∧
    ∀ as s', Steps step s as s' → done s' ∨ ∃ a s'', step s' a s''

theorem completes_of_measure {I done : σ → Prop} (measure : σ → Nat)
    (hstep : ∀ s a s', I s → step s a s' → I s' ∧ measure s' < measure s)
    (hprogress : ∀ s, I s → done s ∨ ∃ a s', step s a s') {s : σ}
    (hs : I s) : Completes step done s := by
  refine ⟨⟨measure s, ?_⟩, ?_⟩
  · intro as s' h
    have := h.length_le hstep hs
    omega
  · intro as s' h
    refine hprogress s' (h.invariant ?_ hs)
    intro s a s' hI hfirst
    exact (hstep s a s' hI hfirst).1

/-! ## Runs of a step function that always steps -/

/-- What holds where a run starts, and after a step exactly when the step is a
good one, holds all along the runs of good steps and along no others. -/
theorem always_foldl_iff {f : σ → α → σ} {I J : σ → Prop} {K : σ → α → Prop}
    (hkeep : ∀ s a, I s → I (f s a))
    (hgood : ∀ s a, I s → J s → (J (f s a) ↔ K s a)) {s : σ} (hs : I s)
    (as : List α) :
    (∀ pre post, as = pre ++ post → J (pre.foldl f s)) ↔
      J s ∧ ∀ pre a post, as = pre ++ a :: post → K (pre.foldl f s) a := by
  induction as generalizing s with
  | nil =>
      constructor
      · intro h
        refine ⟨h [] [] rfl, fun pre a post heq => ?_⟩
        cases pre <;> cases heq
      · rintro ⟨hJ, -⟩ pre post heq
        obtain ⟨rfl, rfl⟩ := List.append_eq_nil_iff.mp heq.symm
        exact hJ
  | cons a as ih =>
      have ih := ih (hkeep s a hs)
      constructor
      · intro h
        have hJ : J s := h [] (a :: as) rfl
        obtain ⟨hnext, hrest⟩ := ih.mp fun pre post heq =>
          h (a :: pre) post (by rw [heq, List.cons_append])
        refine ⟨hJ, fun pre b post heq => ?_⟩
        cases pre with
        | nil =>
            cases heq
            exact (hgood s a hs hJ).mp hnext
        | cons x pre =>
            cases heq
            exact hrest pre b post rfl
      · rintro ⟨hJ, hK⟩ pre post heq
        cases pre with
        | nil => exact hJ
        | cons x pre =>
            cases heq
            refine ih.mpr ⟨?_, fun pre b post heq => ?_⟩ pre post rfl
            · exact (hgood s a hs hJ).mpr (hK [] a _ rfl)
            · exact hK (a :: pre) b post (by rw [heq, List.cons_append])

end Explorer.Lib
