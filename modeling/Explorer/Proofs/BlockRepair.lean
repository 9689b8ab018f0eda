import Explorer.Ref.ExtendedEvents

/-!
# What the repair of a block leaves

The inner loop goes by positions: it asks for the transaction of one position,
replaces it there, and never asks for a position again that it replaced. So
every request names the hash that stands in the block as it was fetched, and
what the loop returns is that block with some of its positions replaced by
answers. `repairBlock_ok` says this from any point of the loop on, and
`fetchAttempts_ok` adds up the attempts.
-/

namespace Explorer.Ref

open Explorer.Lib

/-- The block is the fetched one but for the positions that were replaced, and
there it has the answers. -/
structure Patched (steps : List RepairStep) (fetched block : SdkBlockResult) :
    Prop where
  rest : block.rest = fetched.rest
  length : block.txs.length = fetched.txs.length
  txs : ∀ i, block.txs[i]? = fetched.txs[i]? ∨
    ∃ step ∈ steps, step.txIndex = i ∧ step.replaced ∧
      ∃ transaction, step.answer = .ok transaction ∧
        block.txs[i]? = some transaction

section

variable {σ : Type} (node : Node σ)

/-- What the node answered to requests for transactions, one after the other,
from a state of it to another. -/
def StepsAnswered : List RepairStep → σ → σ → Prop
  | [], s, s' => s' = s
  | step :: steps, s, s' => ∃ s₁,
      node.getTransaction step.txHash s = (step.answer, s₁) ∧
        StepsAnswered steps s₁ s'

/-- The same for attempts: each asks for the block and then for transactions. -/
def AttemptsAnswered : List Attempt → σ → σ → Prop
  | [], s, s' => s' = s
  | attempt :: attempts, s, s' => ∃ s₁ s₂,
      node.getBlockByHeightPayload s = (attempt.answer, s₁) ∧
        StepsAnswered node attempt.steps s₁ s₂ ∧
        AttemptsAnswered attempts s₂ s'

/-- The requests for transactions of a block: one for a position, for the hash
that stands there. -/
structure StepsOk (fetched : SdkBlockResult) (steps : List RepairStep) :
    Prop where
  once : (steps.map RepairStep.txIndex).Nodup
  asked : ∀ step ∈ steps, ∃ transaction,
    fetched.txs[step.txIndex]? = some transaction ∧
      nonEmptyString transaction.hash = some step.txHash

/-- An attempt repaired the block that it decoded. -/
structure AttemptOk (attempt : Attempt) : Prop where
  decoded : ∀ fetched, attempt.fetched = some fetched → ∃ payload,
    attempt.answer = .ok payload ∧
      node.decodeBlockResult payload.rawValue = .ok fetched
  steps : ∀ fetched, attempt.fetched = some fetched →
    StepsOk fetched attempt.steps
  idle : attempt.fetched = none → attempt.steps = []

/-- There is an attempt, and not too many of them; they are what the node
answered on the way from one state to the other; and the block that is returned
is complete and comes from the last of them. -/
structure FetchOk (s s' : σ) (result : Except IngestionError SdkBlockResult)
    (attempts : List Attempt) : Prop where
  requested : attempts ≠ []
  answered : AttemptsAnswered node attempts s s'
  bounded : attempts.length ≤ specialResolutionRefetchAttempts
  single : ∀ attempt payload, attempts.head? = some attempt →
    attempt.answer = .ok payload →
    extendedPayloadRefetchMaxBlockBytes < payload.byteLen →
    attempts.length = 1
  each : ∀ attempt ∈ attempts, AttemptOk node attempt
  complete : ∀ block, result = .ok block →
    incompleteExtendedPayload block = none ∧
      ∃ attempt fetched, attempts.getLast? = some attempt ∧
        attempt.fetched = some fetched ∧ Patched attempt.steps fetched block

end

section

variable {σ : Type} {node : Node σ}

/-! ## One request -/

/-- What a request for a transaction can come to. -/
theorem tryCompleteTransaction_cases {txIndex : Nat} {block : SdkBlockResult}
    {s s' : σ} {result : Except IngestionError (Option SdkBlockResult)}
    {steps : List RepairStep}
    (h : tryCompleteTransaction node txIndex block s = (result, steps, s')) :
    (result = .ok none ∧ steps = [] ∧ s' = s) ∨
    ∃ transaction txHash answer replaced,
      block.txs[txIndex]? = some transaction ∧
      nonEmptyString transaction.hash = some txHash ∧
      node.getTransaction txHash s = (answer, s') ∧
      steps = [⟨txIndex, txHash, answer, replaced⟩] ∧
      ∀ block', result = .ok (some block') → replaced = true ∧
        ∃ found, answer = .ok found ∧
          block' = { block with txs := block.txs.set txIndex found } := by
  simp only [tryCompleteTransaction] at h
  split at h
  · cases h
    exact .inl ⟨rfl, rfl, rfl⟩
  · rename_i txHash hhash
    obtain ⟨transaction, hat, hhash⟩ := Option.bind_eq_some_iff.mp hhash
    split at h
    · rename_i e s₁ hasked
      cases h
      refine .inr ⟨transaction, txHash, _, _, hat, hhash, hasked, rfl,
        fun block' hblock => ?_⟩
      cases hblock
    · rename_i found s₁ hasked
      split at h
      · cases h
        refine .inr ⟨transaction, txHash, _, _, hat, hhash, hasked, rfl,
          fun block' hblock => ?_⟩
        cases hblock
      · cases h
        refine .inr ⟨transaction, txHash, _, _, hat, hhash, hasked, rfl,
          fun block' hblock => ?_⟩
        cases hblock
        exact ⟨rfl, found, rfl, rfl⟩

/-! ## The inner loop -/

theorem patched_refl (block : SdkBlockResult) : Patched [] block block :=
  ⟨rfl, rfl, fun _ => .inl rfl⟩

/-- What the loop does from a point on where some positions are replaced. -/
structure LoopOk (node : Node σ) (block : SdkBlockResult)
    (completed : Finset Nat) (s s' : σ) (result : Repair)
    (steps : List RepairStep) : Prop extends StepsOk block steps where
  answered : StepsAnswered node steps s s'
  fresh : ∀ step ∈ steps, step.txIndex ∉ completed
  complete : ∀ block', result = .complete block' →
    incompleteExtendedPayload block' = none ∧ Patched steps block block'

theorem stepsOk_nil (block : SdkBlockResult) : StepsOk block [] :=
  ⟨List.nodup_nil, nofun⟩

theorem loopOk_of_steps {block : SdkBlockResult} {completed : Finset Nat}
    {result : Repair} {steps : List RepairStep} {txIndex : Nat} {s s' : σ}
    {tried : Except IngestionError (Option SdkBlockResult)}
    (hfresh : txIndex ∉ completed)
    (htry : tryCompleteTransaction node txIndex block s = (tried, steps, s'))
    (hresult : ∀ block', result ≠ .complete block') :
    LoopOk node block completed s s' result steps := by
  rcases tryCompleteTransaction_cases htry with
    ⟨-, rfl, rfl⟩ | ⟨transaction, txHash, answer, replaced, hat, hhash,
      hanswer, rfl, -⟩
  · exact ⟨stepsOk_nil block, rfl, nofun,
      fun block' h => absurd h (hresult block')⟩
  · refine ⟨⟨List.nodup_singleton _, ?_⟩, ⟨s', hanswer, rfl⟩, ?_,
      fun block' h => absurd h (hresult block')⟩
    all_goals
      intro step hstep
      rw [List.mem_singleton] at hstep
      subst hstep
    · exact ⟨transaction, hat, hhash⟩
    · exact hfresh

/-- A position that is replaced, and what the loop does after it. -/
theorem loopOk_cons {block block' : SdkBlockResult} {completed : Finset Nat}
    {result : Repair} {steps later : List RepairStep} {txIndex : Nat}
    {s s₁ s' : σ} (hfresh : txIndex ∉ completed)
    (htry : tryCompleteTransaction node txIndex block s =
      (.ok (some block'), steps, s₁))
    (h : LoopOk node block' (insert txIndex completed) s₁ s' result later) :
    LoopOk node block completed s s' result (steps ++ later) := by
  rcases tryCompleteTransaction_cases htry with
    ⟨hnone, -, -⟩ | ⟨transaction, txHash, answer, replaced, hat, hhash, hanswer,
      rfl, hblock⟩
  · cases hnone
  · obtain ⟨hreplaced, found, rfl, rfl⟩ := hblock block' rfl
    have hother : ∀ step ∈ later, step.txIndex ≠ txIndex := by
      intro step hstep heq
      exact h.fresh step hstep (by rw [heq]; exact Finset.mem_insert_self _ _)
    have hkept : ∀ i, i ≠ txIndex →
        (block.txs.set txIndex found)[i]? = block.txs[i]? := by
      intro i hi
      exact List.getElem?_set_ne (Ne.symm hi)
    refine ⟨⟨?_, ?_⟩, ⟨s₁, hanswer, h.answered⟩, ?_, ?_⟩
    · simp only [List.cons_append, List.nil_append, List.map_cons,
        List.nodup_cons]
      refine ⟨?_, h.once⟩
      intro hmem
      obtain ⟨step, hstep, heq⟩ := List.mem_map.mp hmem
      exact hother step hstep heq
    · intro step hstep
      rcases List.mem_cons.mp hstep with rfl | hstep
      · exact ⟨transaction, hat, hhash⟩
      · obtain ⟨transaction', hat', hhash'⟩ := h.asked step hstep
        refine ⟨transaction', ?_, hhash'⟩
        rw [← hkept _ (hother step hstep), hat']
    · intro step hstep
      rcases List.mem_cons.mp hstep with rfl | hstep
      · exact hfresh
      · exact fun hmem => h.fresh step hstep (Finset.mem_insert_of_mem hmem)
    · intro final hfinal
      obtain ⟨hcomplete, hpatched⟩ := h.complete final hfinal
      refine ⟨hcomplete, hpatched.rest, hpatched.length.trans List.length_set,
        fun i => ?_⟩
      rcases hpatched.txs i with heq | ⟨step, hstep, hi, hstepped⟩
      · by_cases hi : i = txIndex
        · subst hi
          refine .inr ⟨_, List.mem_cons_self, rfl, hreplaced, found, rfl, ?_⟩
          have hlt : i < block.txs.length :=
            (List.getElem?_eq_some_iff.mp hat).1
          rw [heq, List.getElem?_set_self hlt]
        · exact .inl (heq.trans (hkept i hi))
      · exact .inr ⟨step, List.mem_cons_of_mem _ hstep, hi, hstepped⟩

theorem repairBlock_ok (block : SdkBlockResult) (completed : Finset Nat)
    (s : σ) :
    LoopOk node block completed s (repairBlock node block completed s).2.2
      (repairBlock node block completed s).1
      (repairBlock node block completed s).2.1 := by
  fun_induction repairBlock node block completed s with
  | case1 block completed s hfound =>
      refine ⟨stepsOk_nil block, rfl, nofun, fun block' h => ?_⟩
      cases h
      exact ⟨hfound, patched_refl block⟩
  | case2 block completed s incomplete hfound hseen =>
      exact ⟨stepsOk_nil block, rfl, nofun, nofun⟩
  | case3 block completed s incomplete hfound hseen e steps s' htry =>
      exact loopOk_of_steps hseen htry nofun
  | case4 block completed s incomplete hfound hseen steps s' htry =>
      exact loopOk_of_steps hseen htry nofun
  | case5 block completed s incomplete hfound hseen block' steps s₁ htry hlt
      result later s₂ heq ih =>
      rw [heq] at ih
      exact loopOk_cons hseen htry ih

/-! ## The attempts -/

/-- What the attempts from some point on come to. -/
structure AttemptsOk (node : Node σ) (s s' : σ)
    (result : Except IngestionError SdkBlockResult) (attempts : List Attempt) :
    Prop where
  answered : AttemptsAnswered node attempts s s'
  each : ∀ attempt ∈ attempts, AttemptOk node attempt
  complete : ∀ block, result = .ok block →
    incompleteExtendedPayload block = none ∧
      ∃ attempt fetched, attempts.getLast? = some attempt ∧
        attempt.fetched = some fetched ∧ Patched attempt.steps fetched block

/-- The last attempt. -/
theorem attemptsOk_last {attempt : Attempt} {s s₁ s' : σ}
    {result : Except IngestionError SdkBlockResult}
    (hblock : node.getBlockByHeightPayload s = (attempt.answer, s₁))
    (hsteps : StepsAnswered node attempt.steps s₁ s')
    (h : AttemptOk node attempt)
    (hcomplete : ∀ block, result = .ok block →
      incompleteExtendedPayload block = none ∧
        ∃ fetched, attempt.fetched = some fetched ∧
          Patched attempt.steps fetched block) :
    AttemptsOk node s s' result [attempt] := by
  refine ⟨⟨s₁, s', hblock, hsteps, rfl⟩, fun a ha => ?_, fun block hok => ?_⟩
  · rw [List.mem_singleton.mp ha]
    exact h
  · obtain ⟨hnone, fetched, hfetched, hpatched⟩ := hcomplete block hok
    exact ⟨hnone, attempt, fetched, rfl, hfetched, hpatched⟩

/-- An attempt, and those after it. -/
theorem attemptsOk_cons {attempt : Attempt} {attempts : List Attempt}
    {s s₁ s₂ s' : σ} {result : Except IngestionError SdkBlockResult}
    (hblock : node.getBlockByHeightPayload s = (attempt.answer, s₁))
    (hsteps : StepsAnswered node attempt.steps s₁ s₂)
    (h : AttemptOk node attempt)
    (hlater : AttemptsOk node s₂ s' result attempts) :
    AttemptsOk node s s' result (attempt :: attempts) := by
  refine ⟨⟨s₁, s₂, hblock, hsteps, hlater.answered⟩, fun a ha => ?_,
    fun block hok => ?_⟩
  · rcases List.mem_cons.mp ha with rfl | ha
    · exact h
    · exact hlater.each a ha
  · obtain ⟨hnone, last, fetched, hlast, hfetched⟩ := hlater.complete block hok
    refine ⟨hnone, last, fetched, ?_, hfetched⟩
    rw [List.getLast?_cons, hlast]
    rfl

/-- An attempt that decoded no block. -/
theorem attemptOk_of_none (answer : Except IngestionError BlockPayload) :
    AttemptOk node ⟨answer, none, []⟩ :=
  ⟨nofun, nofun, fun _ => rfl⟩

/-- An attempt that decoded a block and ran the inner loop on it. -/
theorem attemptOk_of_repair {payload : BlockPayload} {fetched : SdkBlockResult}
    {result : Repair} {steps : List RepairStep} {s₁ s₂ : σ}
    (hdecode : node.decodeBlockResult payload.rawValue = .ok fetched)
    (hloop : LoopOk node fetched ∅ s₁ s₂ result steps) :
    AttemptOk node ⟨.ok payload, some fetched, steps⟩ := by
  refine ⟨fun block h => ?_, fun block h => ?_, nofun⟩
  · cases h
    exact ⟨payload, rfl, hdecode⟩
  · cases h
    exact hloop.toStepsOk

theorem fetchAttempts_ok (height left attempt maxAttempts : Nat)
    (incomplete : Option IncompleteExtendedPayload) (s : σ) :
    AttemptsOk node s
      (fetchAttempts node height left attempt maxAttempts incomplete s).2.2
      (fetchAttempts node height left attempt maxAttempts incomplete s).1
      (fetchAttempts node height left attempt maxAttempts
        incomplete s).2.1 := by
  -- Four of the cases run the inner loop on the block they decoded.
  have hloop : ∀ {fetched : SdkBlockResult} {s₁ s₂ : σ} {result : Repair}
      {steps : List RepairStep},
      repairBlock node fetched ∅ s₁ = (result, steps, s₂) →
      LoopOk node fetched ∅ s₁ s₂ result steps := by
    intro fetched s₁ s₂ result steps hrepair
    have h := @repairBlock_ok _ node fetched ∅ s₁
    rw [hrepair] at h
    exact h
  fun_induction fetchAttempts node height left attempt maxAttempts incomplete s
    with
  | case1 attempt maxAttempts incomplete s => exact ⟨rfl, nofun, nofun⟩
  | case2 left attempt maxAttempts incomplete s e s₁ hblock =>
      exact attemptsOk_last hblock rfl (attemptOk_of_none _) nofun
  | case3 left attempt maxAttempts incomplete s payload s₁ hblock e hdecode =>
      exact attemptsOk_last hblock rfl (attemptOk_of_none _) nofun
  | case4 left attempt maxAttempts incomplete s payload s₁ hblock fetched
      hdecode block steps s₂ hrepair =>
      refine attemptsOk_last hblock (hloop hrepair).answered
        (attemptOk_of_repair hdecode (hloop hrepair)) fun block' h => ?_
      cases h
      obtain ⟨hcomplete, hpatched⟩ := (hloop hrepair).complete block rfl
      exact ⟨hcomplete, fetched, rfl, hpatched⟩
  | case5 left attempt maxAttempts incomplete s payload s₁ hblock fetched
      hdecode e steps s₂ hrepair =>
      exact attemptsOk_last hblock (hloop hrepair).answered
        (attemptOk_of_repair hdecode (hloop hrepair)) nofun
  | case6 left attempt maxAttempts incomplete s payload s₁ hblock max fetched
      hdecode found steps s₂ hrepair this hlt result later s₃ hlater ih =>
      rw [hlater] at ih
      exact attemptsOk_cons hblock (hloop hrepair).answered
        (attemptOk_of_repair hdecode (hloop hrepair)) ih
  | case7 left attempt maxAttempts incomplete s payload s₁ hblock max fetched
      hdecode found steps s₂ hrepair this hlt =>
      exact attemptsOk_last hblock (hloop hrepair).answered
        (attemptOk_of_repair hdecode (hloop hrepair)) nofun

/-- As long as attempts are left there is one. -/
theorem fetchAttempts_ne_nil (height : Nat) {left : Nat} (hleft : 0 < left)
    (attempt maxAttempts : Nat) (incomplete : Option IncompleteExtendedPayload)
    (s : σ) :
    (fetchAttempts node height left attempt maxAttempts incomplete s).2.1 ≠
      [] := by
  fun_cases fetchAttempts node height left attempt maxAttempts incomplete s with
  | case1 => exact absurd hleft (Nat.lt_irrefl 0)
  | _ => exact List.cons_ne_nil _ _

theorem fetchAttempts_length (height left attempt maxAttempts : Nat)
    (incomplete : Option IncompleteExtendedPayload) (s : σ) :
    (fetchAttempts node height left attempt maxAttempts
      incomplete s).2.1.length ≤ left := by
  fun_induction fetchAttempts node height left attempt maxAttempts incomplete s
    with
  | case1 => exact Nat.le_refl 0
  | case6 left attempt maxAttempts incomplete s payload s₁ hblock max fetched
      hdecode found steps s₂ hrepair this hlt result later s₃ hlater ih =>
      rw [hlater] at ih
      exact Nat.succ_le_succ ih
  | _ => exact Nat.succ_le_succ (Nat.zero_le _)

/-- A first answer above the ceiling leaves no second attempt. -/
theorem fetchAttempts_single {height left attempt maxAttempts : Nat}
    {incomplete : Option IncompleteExtendedPayload} {s : σ} {first : Attempt}
    {payload : BlockPayload} (hattempt : attempt = 1)
    (hfirst : (fetchAttempts node height left attempt maxAttempts
      incomplete s).2.1.head? = some first)
    (hanswer : first.answer = .ok payload)
    (hlarge : extendedPayloadRefetchMaxBlockBytes < payload.byteLen) :
    (fetchAttempts node height left attempt maxAttempts
      incomplete s).2.1.length = 1 := by
  revert hfirst
  fun_cases fetchAttempts node height left attempt maxAttempts incomplete s with
  | case1 => exact nofun
  | case6 =>
      rename_i max hlt _ _
      intro hfirst
      have hthis := Option.some.inj hfirst
      rw [← hthis] at hanswer
      cases hanswer
      have hmax : max = 1 := if_pos ⟨hattempt, hlarge⟩
      omega
  | _ => exact fun _ => rfl

/-- Whatever the node answers, the repair of a block makes a request and ends
after a bounded number of them, and a block it returns is complete: the one
fetched last, with transactions replaced by what the node answered for the
hashes that stood in their places. -/
theorem fetchDecodedBlockForProjection_ok (node : Node σ) (height : Nat)
    (s : σ) :
    FetchOk node s (fetchDecodedBlockForProjection node height s).2.2
      (fetchDecodedBlockForProjection node height s).1
      (fetchDecodedBlockForProjection node height s).2.1 := by
  have hattempts := @fetchAttempts_ok _ node height
    specialResolutionRefetchAttempts 1 specialResolutionRefetchAttempts none s
  have hleft : 0 < specialResolutionRefetchAttempts := by decide
  exact ⟨fetchAttempts_ne_nil height hleft _ _ _ s, hattempts.answered,
    fetchAttempts_length .., fun attempt payload hfirst hanswer hlarge =>
      fetchAttempts_single rfl hfirst hanswer hlarge, hattempts.each,
    hattempts.complete⟩

end

end Explorer.Ref
