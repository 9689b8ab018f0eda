import Explorer.Proofs.PipelineSafe

/-!
# The two projection paths agree

The back-off of the worker is keyed on the height a pass reports, so the
sequential and the pipelined path have to report the same one. The
sequential loop meets the heights in order and classifies a failure where it
meets it; the pipelined one classifies write failures in the write loop,
fetch failures after the loop, and never checks the zero-state boundary
again. They agree because both come to rest at the first height that raises
an error with everything below it committed (`Settled` on one side,
`sequential_prefix` on the other), and because the two classifications are
the same for a failure of the node.
-/

namespace Explorer.Ref

open Explorer.Lib

variable {β : Type} {chain : String} {o : Outcomes β}

/-- The two guards of a projection let the height through. -/
structure InScope (chain : String) (cursor height : Nat) : Prop where
  scope : validateZeroStateScope chain cursor = .ok ()
  height_ok : validateProjectedHeight chain height = .ok ()

theorem InScope.next {cursor height : Nat} (h : InScope chain cursor height) :
    InScope chain (max cursor height) (height + 1) := by
  obtain ⟨hscope, hheight⟩ := h
  unfold validateZeroStateScope at hscope
  unfold validateProjectedHeight at hheight
  constructor
  · rw [validateZeroStateScope, if_neg]
    intro hc
    rw [if_pos ⟨hc.1, by omega⟩] at hscope
    cases hscope
  · rw [validateProjectedHeight, if_neg]
    intro hc
    rw [if_pos ⟨hc.1, by omega⟩] at hheight
    cases hheight

theorem projectRawBlock_ok {cursor height : Nat} {b : β}
    (h : InScope chain cursor height) (hfetch : o.fetch height = .ok b)
    (hwrite : o.write height = none) :
    projectRawBlockAndAdvanceCursor chain o cursor height =
      .ok (b, max cursor height) := by
  simp only [projectRawBlockAndAdvanceCursor, h.scope, h.height_ok, hfetch,
    hwrite]

theorem projectRawBlock_error {cursor height : Nat} {e : IngestionError}
    (h : InScope chain cursor height) (hfail : o.failure height = some e) :
    projectRawBlockAndAdvanceCursor chain o cursor height = .error e := by
  simp only [projectRawBlockAndAdvanceCursor, h.scope, h.height_ok]
  rw [Outcomes.failure] at hfail
  cases hfetch : o.fetch height with
  | error e' =>
      rw [hfetch] at hfail
      cases hfail
      rfl
  | ok b =>
      rw [hfetch] at hfail
      have hwrite : o.write height = some e := hfail
      simp only [hwrite]

/-- The sequential loop over heights that raise nothing. -/
theorem sequential_prefix (ws : List (Nat × β)) {height cursor : Nat}
    (ahead projected : Nat) (written : List (Nat × β))
    (hscope : InScope chain cursor height)
    (hheights : ws.map Prod.fst = List.range' height ws.length)
    (hok : ∀ x ∈ ws, o.fetch x.1 = .ok x.2 ∧ o.write x.1 = none) :
    ∃ cursor', InScope chain cursor' (height + ws.length) ∧
      (cursor' = if ws.length = 0 then cursor
        else max cursor (height + ws.length - 1)) ∧
      sequentialLoop chain o (ws.length + ahead) height projected cursor
          written =
        sequentialLoop chain o ahead (height + ws.length)
          (projected + ws.length) cursor' (written ++ ws) := by
  induction ws generalizing height ahead projected cursor written with
  | nil => exact ⟨cursor, hscope, rfl, by simp⟩
  | cons x ws ih =>
      rw [List.map_cons, List.length_cons, List.range'_succ,
        List.cons.injEq] at hheights
      obtain ⟨hx, hrest⟩ := hheights
      obtain ⟨hfetch, hwrite⟩ := hok x List.mem_cons_self
      rw [hx] at hfetch hwrite
      obtain ⟨cursor', hscope', hcursor, hloop⟩ := ih ahead (projected + 1)
        (written ++ [x]) hscope.next hrest
        (fun y hy => hok y (List.mem_cons_of_mem _ hy))
      refine ⟨cursor', ?_, ?_, ?_⟩
      · rw [List.length_cons]
        rwa [show height + (ws.length + 1) = height + 1 + ws.length by omega]
      · rw [hcursor, List.length_cons, if_neg (Nat.succ_ne_zero _)]
        split <;> omega
      · have hpair : (height, x.2) = x := by rw [← hx]
        rw [List.length_cons, show ws.length + 1 + ahead =
          ws.length + ahead + 1 by omega, sequentialLoop,
          projectRawBlock_ok hscope hfetch hwrite]
        simp only [hpair]
        rw [hloop]
        congr 1
        · omega
        · omega
        · simp

/-- Every interleaving of the pipelined path ends as the sequential path
does: with the same blocks committed in the same order and the same result,
and an error is the one the height after the last committed block raises. -/
theorem pipelined_agrees_with_sequential (chain : String) (w : FetchWindow)
    (queueCapacity cursor : Nat) (o : Outcomes β)
    (hscope : validateZeroStateScope chain cursor = .ok ())
    (hheight : validateProjectedHeight chain w.fromHeight = .ok ())
    (hnode : ∀ h e, o.fetch h = .error e → isDatabaseFailure e = false) :
    (∀ acts p result, Steps (PipelineStep w queueCapacity o)
        (Pipeline.start β w cursor) acts p → p.phase = .returned result →
      projectWindowSequentially chain o w cursor = (result, p.written) ∧
      ∀ e, result = .error e →
        o.failure (w.fromHeight + p.written.length) = some e) ∧
    Completes (PipelineStep w queueCapacity o) Pipeline.Returned
      (Pipeline.start β w cursor) := by
  refine ⟨?_, pipeline_completes w queueCapacity o cursor⟩
  intro acts p result hrun hphase
  have hok := pipelineOk_of_steps hrun
  have hlen := hok.length_written
  have hcount := hok.counters
  have hheights : p.written.map Prod.fst =
      List.range' w.fromHeight p.written.length := by
    rw [hlen]
    exact hcount.heights
  have hcursor : p.cursorHeightAfter = if p.written.length = 0 then cursor
      else max cursor (w.fromHeight + p.written.length - 1) := by
    rw [hcount.cursor_eq, hlen, hcount.projected_eq]
  have hsettled := (hok.settled _ hphase).cases
  rw [← hlen] at hsettled
  rcases hsettled with ⟨hres, hall⟩ | ⟨e, hfails, hto, hcase⟩
  · -- everything was written
    obtain ⟨cursor', -, hc, hloop⟩ := sequential_prefix p.written 0 0 []
      ⟨hscope, hheight⟩ hheights hcount.writtenOk
    refine ⟨?_, ?_⟩
    · rw [projectWindowSequentially, show w.toHeight + 1 - w.fromHeight =
        p.written.length + 0 by omega, hloop, hres, hcursor, ← hc]
      simp [sequentialLoop]
    · intro e he
      rw [hres] at he
      cases he
  · have hfail := Outcomes.failure_of_fails hfails
    obtain ⟨ahead, hahead⟩ : ∃ ahead, w.toHeight + 1 - w.fromHeight =
        p.written.length + (ahead + 1) :=
      ⟨w.toHeight - w.fromHeight - p.written.length, by omega⟩
    obtain ⟨cursor', hscope', hc, hloop⟩ := sequential_prefix p.written
      (ahead + 1) 0 [] ⟨hscope, hheight⟩ hheights hcount.writtenOk
    have hseq : projectWindowSequentially chain o w cursor =
        (if keepsCommittedPrefix p.written.length e then
          .ok ⟨p.written.length, p.cursorHeightAfter,
            some (w.fromHeight + p.written.length)⟩
        else .error e, p.written) := by
      rw [projectWindowSequentially, hahead, hloop, sequentialLoop,
        projectRawBlock_error hscope' hfail, hcursor, ← hc]
      simp only [Nat.zero_add, List.nil_append]
      split <;> rfl
    rcases hcase with ⟨hres, hpos, hdb⟩ | ⟨hres, hwhy⟩
    · have hkeep : keepsCommittedPrefix p.written.length e = true := by
        have hnot : isDatabaseFailure e = false := by
          cases hd : isDatabaseFailure e with
          | false => rfl
          | true => exact hd.symm.trans (hnode _ e (hdb hd))
        simp [keepsCommittedPrefix, hpos, hnot]
      rw [if_pos hkeep] at hseq
      refine ⟨by rw [hseq, hres], ?_⟩
      intro e' he
      rw [hres] at he
      cases he
    · have hdrop : ¬ keepsCommittedPrefix p.written.length e = true := by
        rcases hwhy with hzero | ⟨hd, -⟩
        · simp [keepsCommittedPrefix, hzero]
        · simp [keepsCommittedPrefix, hd]
      rw [if_neg hdrop] at hseq
      refine ⟨by rw [hseq, hres], ?_⟩
      intro e' he
      rw [hres] at he
      cases he
      exact hfail

/-- The node does not serve height `3`. -/
def stuckAtThree : Outcomes Unit where
  fetch := fun h => if h = 3 then .error (.rpc "timeout") else .ok ()
  write := fun _ => none

/-- Over the heights `1` to `4` of another chain, every interleaving ends,
with two blocks kept and the third reported. -/
theorem pipelined_agrees_stuck_at_three :
    Completes (PipelineStep ⟨1, 4, 2, by decide⟩ 4 stuckAtThree)
      Pipeline.Returned (Pipeline.start Unit ⟨1, 4, 2, by decide⟩ 0) ∧
    ∀ acts p result, Steps (PipelineStep ⟨1, 4, 2, by decide⟩ 4 stuckAtThree)
        (Pipeline.start Unit ⟨1, 4, 2, by decide⟩ 0) acts p →
      p.phase = .returned result →
      (.ok ⟨2, 2, some 3⟩, [(1, ()), (2, ())]) = (result, p.written) := by
  have hnode : ∀ h e, stuckAtThree.fetch h = .error e →
      isDatabaseFailure e = false := by
    intro h e he
    simp only [stuckAtThree] at he
    split at he
    · cases he
      rfl
    · cases he
  obtain ⟨hagree, hcompletes⟩ := pipelined_agrees_with_sequential "side"
    ⟨1, 4, 2, by decide⟩ 4 0 stuckAtThree (by decide) (by decide) hnode
  refine ⟨hcompletes, fun acts p result hrun hphase => ?_⟩
  exact (hagree acts p result hrun hphase).1

end Explorer.Ref
