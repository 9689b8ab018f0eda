import Explorer.Lib.Runs
import Explorer.Proofs.StakeConsistent

/-!
# When the reverse replay undoes the forward one

The seed of the curve is captured by walking the current ledger back over
the known events, so the published curve is right only if the walk back
ends where a walk forward would have started. Across transactions it does:
the groups come in the opposite order (`splitBy_reverse_map`). Inside a
transaction it does not have to, because the reverse loop meets the rows of
a group in row order. It undoes the first row first, and the clamp at zero
fires when an address staked and took out in one transaction.

So the file finds the exact condition. A row moves each stake and the supply
by an amount that depends on the row alone (`stakeShift`, `supplyStep`), as
long as no clamp fires; `RowFits` says when none does, in either direction.
Forward without an anomaly therefore adds the sums of these amounts
(`forward_moved`), and in reverse the loop holds, before each row, what the
rows still ahead of it add to the values from before the transaction. The
clamp stays silent exactly when these partial values are not negative, which
is a condition on the state before the rows and the rows (`undoable`).
-/

namespace Explorer.Ref

open Explorer.Lib

/-! ## What a row moves -/

/-- `1` forwards, `-1` in reverse. -/
def heading (reverse : Bool) : Int := if reverse then -1 else 1

/-- What a row adds to the stake of an address, forwards. -/
def stakeShift (kind : StakeSnapshotTxKind) (row : StakeSnapshotEventRow)
    (a : String) : Int :=
  match counted kind row with
  | some (.stake, v) => if usableStakeAddress row = some a then v else 0
  | some (.claim, v) => if usableStakeAddress row = some a then -v else 0
  | _ => 0

/-- The sign of a mint or a burn, `0` for a row that is neither. -/
def supplySign (kind : StakeSnapshotTxKind) (row : StakeSnapshotEventRow) :
    Int :=
  match counted kind row with
  | some (.mint, _) => 1
  | some (.burn, _) => -1
  | _ => 0

/-- What a row adds to the supply, forwards: its own value, or the inflation
result if that has not been applied yet. -/
def supplyStep (kind : StakeSnapshotTxKind) (inflation : Option Int)
    (applied : Bool) (row : StakeSnapshotEventRow) : Int :=
  match inflation with
  | some delta => if applied then 0 else supplySign kind row * delta
  | none => supplySign kind row * ((counted kind row).map Prod.snd).getD 0

/-- The flag after a row. -/
def appliedAfter (kind : StakeSnapshotTxKind) (inflation : Option Int)
    (applied : Bool) (row : StakeSnapshotEventRow) : Bool :=
  applied || (inflation.isSome && supplySign kind row != 0)

/-- What rows add to the stake of an address. -/
def netStake (kind : StakeSnapshotTxKind) (rows : List StakeSnapshotEventRow)
    (a : String) : Int :=
  (rows.map fun row => stakeShift kind row a).sum

/-- What rows add to the supply. -/
def netSupply (kind : StakeSnapshotTxKind) (inflation : Option Int) :
    Bool → List StakeSnapshotEventRow → Int
  | _, [] => 0
  | applied, row :: rows =>
      supplyStep kind inflation applied row +
        netSupply kind inflation (appliedAfter kind inflation applied row) rows

/-- Undoing the rows in row order never passes below zero: for a stake row,
the stake from before the transaction with what the rows after it add; for a
mint row, the same of the supply. -/
def undoableRows (kind : StakeSnapshotTxKind) (inflation : Option Int)
    (stake : String → Int) (supply : Int) :
    List StakeSnapshotEventRow → Bool
  | [] => true
  | row :: post =>
      (match counted kind row with
      | some (.stake, _) => (usableStakeAddress row).all fun a =>
          decide (0 ≤ stake a + netStake kind post a)
      | some (.mint, _) =>
          decide (0 ≤ supply + netSupply kind inflation true post)
      | _ => true) && undoableRows kind inflation stake supply post

/-- Each transaction can be undone, given the stakes and the supply from
before it. -/
def undoable : (String → Int) → Int → List (List StakeSnapshotEventRow) →
    Bool
  | _, _, [] => true
  | stake, supply, group :: groups =>
      let rows := deduplicateStakeSnapshotTxRows group
      let ctx := txContext rows true
      undoableRows ctx.kind ctx.inflation stake supply rows &&
        undoable (fun a => stake a + netStake ctx.kind rows a)
          (supply + netSupply ctx.kind ctx.inflation false rows) groups

/-! ## A row that clamps nothing -/

/-- No clamp fires at this row, and its address is usable. -/
def RowFits (ctx : TxContext) (l : ReplayLoop)
    (row : StakeSnapshotEventRow) : Prop :=
  match counted ctx.kind row with
  | none => True
  | some (.stake, v) => ∃ a, usableStakeAddress row = some a ∧
      0 ≤ l.state.stakeOf a + heading ctx.reverse * v
  | some (.claim, v) => ∃ a, usableStakeAddress row = some a ∧
      0 ≤ l.state.stakeOf a + heading ctx.reverse * -v
  | some (.mint, _) => ctx.reverse = true → 0 ≤ l.state.soulSupplyRaw +
      heading ctx.reverse * supplyStep ctx.kind ctx.inflation l.applied row
  | some (.burn, _) => ctx.reverse = false → 0 ≤ l.state.soulSupplyRaw +
      heading ctx.reverse * supplyStep ctx.kind ctx.inflation l.applied row

/-- A row moved the loop's variables by its own amounts. -/
structure RowMoved (ctx : TxContext) (row : StakeSnapshotEventRow)
    (l l' : ReplayLoop) : Prop where
  stakes : ∀ a, l'.state.stakeOf a =
    l.state.stakeOf a + heading ctx.reverse * stakeShift ctx.kind row a
  supply : l'.state.soulSupplyRaw = l.state.soulSupplyRaw +
    heading ctx.reverse * supplyStep ctx.kind ctx.inflation l.applied row
  applied : l'.applied = appliedAfter ctx.kind ctx.inflation l.applied row

theorem record_ne_none (an : StakeSnapshotAnomalies) (reason : String) :
    an.record reason ≠ .none := by
  intro h
  have hcount := congrArg StakeSnapshotAnomalies.count h
  simp only [StakeSnapshotAnomalies.record, StakeSnapshotAnomalies.none,
    satAdd32, u32Max] at hcount
  omega

theorem ite_record_eq_none {p : Prop} [Decidable p]
    {an : StakeSnapshotAnomalies} {reason : String} :
    (if p then an.record reason else an) = .none ↔ an = .none ∧ ¬ p := by
  by_cases hp : p
  · simp [hp, record_ne_none]
  · simp [hp]

theorem stakeOf_moveStake (s : StakeSnapshotState) (a b : String)
    (delta : Int) : (s.moveStake a delta).stakeOf b =
      if a = b then clampedStake (s.stakeOf a) delta else s.stakeOf b := by
  simp only [StakeSnapshotState.moveStake]
  generalize clampedStake (s.stakeOf a) delta = new
  unfold StakeSnapshotState.stakeOf
  by_cases h0 : new = 0
  · simp only [if_pos h0]
    by_cases hab : a = b
    · rw [if_pos hab, ← hab, Finmap.lookup_erase, h0]
      rfl
    · rw [if_neg hab, Finmap.lookup_erase_ne (Ne.symm hab)]
  · simp only [if_neg h0]
    by_cases hab : a = b
    · rw [if_pos hab, ← hab, Finmap.lookup_insert]
      rfl
    · rw [if_neg hab, Finmap.lookup_insert_of_ne _ (Ne.symm hab)]

theorem stakeDelta_anomalies {l : ReplayLoop} (hs : Consistent l.state)
    (row : StakeSnapshotEventRow) (delta : Int) :
    (l.stakeDelta row delta).anomalies = .none ↔ l.anomalies = .none ∧
      ∃ a, usableStakeAddress row = some a ∧
        0 ≤ l.state.stakeOf a + delta := by
  simp only [ReplayLoop.stakeDelta, applyStakeSnapshotStakeDelta]
  cases usableStakeAddress row with
  | none => simp [record_ne_none]
  | some a =>
      have htotal := movedTotal_nonneg hs a delta
      simp only [stakeDeltaAnomalies, ite_record_eq_none, Option.some.injEq,
        exists_eq_left']
      constructor
      · intro h
        exact ⟨h.1.1, by omega⟩
      · intro h
        exact ⟨⟨h.1, by omega⟩, by omega⟩

theorem stakeDelta_stakeOf {l : ReplayLoop} {row : StakeSnapshotEventRow}
    {delta : Int} {a : String} (ha : usableStakeAddress row = some a)
    (hfit : 0 ≤ l.state.stakeOf a + delta) (b : String) :
    (l.stakeDelta row delta).state.stakeOf b =
      l.state.stakeOf b + if some a = some b then delta else 0 := by
  simp only [ReplayLoop.stakeDelta, applyStakeSnapshotStakeDelta, ha,
    stakeOf_moveStake, Option.some.injEq]
  split
  · next hab =>
      rw [clampedStake, if_neg (by omega), hab]
  · omega

theorem stakeDelta_supply (l : ReplayLoop) (row : StakeSnapshotEventRow)
    (delta : Int) :
    (l.stakeDelta row delta).state.soulSupplyRaw = l.state.soulSupplyRaw := by
  simp only [ReplayLoop.stakeDelta, applyStakeSnapshotStakeDelta]
  split <;> rfl

/-- A stake delta as the move it is, for a row whose shift is `shift`. -/
theorem stakeDelta_moved {ctx : TxContext} {l : ReplayLoop}
    {row : StakeSnapshotEventRow} {shift : Int} {a : String}
    (ha : usableStakeAddress row = some a)
    (hfit : 0 ≤ l.state.stakeOf a + heading ctx.reverse * shift)
    (hshift : ∀ b, stakeShift ctx.kind row b =
      if usableStakeAddress row = some b then shift else 0)
    (hsign : supplySign ctx.kind row = 0) :
    RowMoved ctx row l (l.stakeDelta row (heading ctx.reverse * shift)) := by
  refine ⟨?_, ?_, ?_⟩
  · intro b
    rw [stakeDelta_stakeOf ha hfit, hshift, ha]
    split <;> simp
  · rw [stakeDelta_supply]
    cases hi : ctx.inflation <;> simp [supplyStep, hsign]
  · simp [ReplayLoop.stakeDelta, appliedAfter, hsign]

theorem moveSupply_stakeOf (l : ReplayLoop) (inflation : Option Int)
    (sign value : Int) (a : String) :
    (l.moveSupply inflation sign value).state.stakeOf a =
      l.state.stakeOf a := by
  unfold ReplayLoop.moveSupply
  split
  · split <;> rfl
  · rfl

theorem moveSupply_anomalies (l : ReplayLoop) (inflation : Option Int)
    (sign value : Int) :
    (l.moveSupply inflation sign value).anomalies = l.anomalies := by
  unfold ReplayLoop.moveSupply
  split
  · split <;> rfl
  · rfl

/-- A supply move as the move it is, for a row whose sign is `sign`. -/
theorem moveSupply_moved (ctx : TxContext) (l : ReplayLoop)
    (row : StakeSnapshotEventRow) {sign value : Int}
    (hsign : supplySign ctx.kind row = sign) (hne : sign ≠ 0)
    (hvalue : (counted ctx.kind row).map Prod.snd = some value)
    (hshift : ∀ b, stakeShift ctx.kind row b = 0) :
    RowMoved ctx row l (l.moveSupply ctx.inflation
      (heading ctx.reverse * sign) value) := by
  refine ⟨?_, ?_, ?_⟩
  · intro a
    rw [moveSupply_stakeOf, hshift]
    omega
  · cases hi : ctx.inflation with
    | none =>
        simp only [ReplayLoop.moveSupply, supplyStep, hsign, hvalue,
          Option.getD_some, Int.mul_assoc]
    | some delta =>
        cases ha : l.applied <;>
          simp [ReplayLoop.moveSupply, supplyStep, hsign, ha, Int.mul_assoc]
  · cases hi : ctx.inflation with
    | none => simp [ReplayLoop.moveSupply, appliedAfter]
    | some delta =>
        cases ha : l.applied <;>
          simp [ReplayLoop.moveSupply, appliedAfter, hsign, hne, ha]

theorem clampSupply_anomalies (l : ReplayLoop) (reverse : Bool)
    (row : StakeSnapshotEventRow) :
    (l.clampSupply reverse row).anomalies = .none ↔
      l.anomalies = .none ∧ 0 ≤ l.state.soulSupplyRaw := by
  unfold ReplayLoop.clampSupply
  split
  · next h => simp [record_ne_none, h]
  · next h => simp [not_lt.mp h]

theorem clampSupply_of_nonneg {l : ReplayLoop}
    (h : 0 ≤ l.state.soulSupplyRaw) (reverse : Bool)
    (row : StakeSnapshotEventRow) : l.clampSupply reverse row = l := by
  rw [ReplayLoop.clampSupply, if_neg (by omega)]

/-- A subtraction from the supply, checked. -/
theorem subtractSupply_spec {ctx : TxContext} {l : ReplayLoop}
    {row : StakeSnapshotEventRow} {sign value : Int}
    (hmoved : RowMoved ctx row l (l.moveSupply ctx.inflation sign value)) :
    (((l.moveSupply ctx.inflation sign value).clampSupply ctx.reverse
        row).anomalies = .none ↔ l.anomalies = .none ∧
      0 ≤ l.state.soulSupplyRaw + heading ctx.reverse *
        supplyStep ctx.kind ctx.inflation l.applied row) ∧
    (0 ≤ l.state.soulSupplyRaw + heading ctx.reverse *
        supplyStep ctx.kind ctx.inflation l.applied row →
      RowMoved ctx row l ((l.moveSupply ctx.inflation sign
        value).clampSupply ctx.reverse row)) := by
  rw [clampSupply_anomalies, moveSupply_anomalies, ← hmoved.supply]
  refine ⟨Iff.rfl, ?_⟩
  intro hfit
  rw [clampSupply_of_nonneg hfit]
  exact hmoved

/-- The row loop's body: it records nothing exactly when the row fits, and
then it moves what the row moves. -/
theorem applyRow_spec (ctx : TxContext) {l : ReplayLoop}
    (hs : Consistent l.state) (row : StakeSnapshotEventRow) :
    ((applyRow ctx l row).anomalies = .none ↔
      l.anomalies = .none ∧ RowFits ctx l row) ∧
    (RowFits ctx l row → RowMoved ctx row l (applyRow ctx l row)) := by
  cases hc : counted ctx.kind row with
  | none =>
      simp only [applyRow, RowFits, hc, and_true, true_implies, true_and]
      refine ⟨?_, ?_, ?_⟩
      · simp [stakeShift, hc]
      · simp only [supplyStep, supplySign, hc]
        split <;> simp
      · simp [appliedAfter, supplySign, hc]
  | some kv =>
      obtain ⟨kind, v⟩ := kv
      cases kind with
      | stake =>
          have happly : applyRow ctx l row =
              l.stakeDelta row (heading ctx.reverse * v) := by
            cases hr : ctx.reverse <;> simp [applyRow, hc, hr, heading]
          rw [happly, stakeDelta_anomalies hs]
          simp only [RowFits, hc, true_and]
          rintro ⟨a, ha, hfit⟩
          exact stakeDelta_moved ha hfit (by simp [stakeShift, hc])
            (by simp [supplySign, hc])
      | claim =>
          have happly : applyRow ctx l row =
              l.stakeDelta row (heading ctx.reverse * -v) := by
            cases hr : ctx.reverse <;> simp [applyRow, hc, hr, heading]
          rw [happly, stakeDelta_anomalies hs]
          simp only [RowFits, hc, true_and]
          rintro ⟨a, ha, hfit⟩
          exact stakeDelta_moved ha hfit (by simp [stakeShift, hc])
            (by simp [supplySign, hc])
      | mint =>
          have hsign : supplySign ctx.kind row = 1 := by simp [supplySign, hc]
          have hvalue : (counted ctx.kind row).map Prod.snd = some v := by
            simp [hc]
          have hmoved := moveSupply_moved ctx l row hsign (by omega) hvalue
            (by simp [stakeShift, hc])
          -- a mint is added forwards and subtracted in reverse
          cases hr : ctx.reverse with
          | false =>
              have happly : applyRow ctx l row =
                  l.moveSupply ctx.inflation (heading ctx.reverse * 1) v := by
                simp [applyRow, hc, hr, heading]
              rw [happly, moveSupply_anomalies]
              exact ⟨by simp [RowFits, hc, hr], fun _ => hmoved⟩
          | true =>
              have happly : applyRow ctx l row =
                  (l.moveSupply ctx.inflation (heading ctx.reverse * 1)
                    v).clampSupply ctx.reverse row := by
                simp [applyRow, hc, hr, heading]
              rw [happly]
              simpa [RowFits, hc, hr] using subtractSupply_spec hmoved
      | burn =>
          have hsign : supplySign ctx.kind row = -1 := by
            simp [supplySign, hc]
          have hvalue : (counted ctx.kind row).map Prod.snd = some v := by
            simp [hc]
          have hmoved := moveSupply_moved ctx l row hsign (by omega) hvalue
            (by simp [stakeShift, hc])
          cases hr : ctx.reverse with
          | true =>
              have happly : applyRow ctx l row =
                  l.moveSupply ctx.inflation (heading ctx.reverse * -1) v := by
                simp [applyRow, hc, hr, heading]
              rw [happly, moveSupply_anomalies]
              exact ⟨by simp [RowFits, hc, hr], fun _ => hmoved⟩
          | false =>
              have happly : applyRow ctx l row =
                  (l.moveSupply ctx.inflation (heading ctx.reverse * -1)
                    v).clampSupply ctx.reverse row := by
                simp [applyRow, hc, hr, heading]
              rw [happly]
              simpa [RowFits, hc, hr] using subtractSupply_spec hmoved

/-- An anomaly once recorded stays. -/
theorem anomalies_of_foldl {ctx : TxContext}
    (rows : List StakeSnapshotEventRow) {l : ReplayLoop}
    (hs : Consistent l.state)
    (h : (rows.foldl (applyRow ctx) l).anomalies = .none) :
    l.anomalies = .none := by
  induction rows generalizing l with
  | nil => exact h
  | cons row rows ih =>
      have hrow := ih (consistent_applyRow hs ctx row) h
      exact ((applyRow_spec ctx hs row).1.mp hrow).1

/-! ## A transaction -/

theorem netStake_cons (kind : StakeSnapshotTxKind)
    (row : StakeSnapshotEventRow) (rows : List StakeSnapshotEventRow)
    (a : String) : netStake kind (row :: rows) a =
      stakeShift kind row a + netStake kind rows a := by
  simp [netStake]

/-- Every stake or claim row that counts has an address. -/
def AllUsable (kind : StakeSnapshotTxKind)
    (rows : List StakeSnapshotEventRow) : Prop :=
  ∀ row ∈ rows, ∀ v, counted kind row = some (.stake, v) ∨
    counted kind row = some (.claim, v) →
    ∃ a, usableStakeAddress row = some a

theorem RowFits.usable {ctx : TxContext} {l : ReplayLoop}
    {row : StakeSnapshotEventRow} (h : RowFits ctx l row) {v : Int}
    (hc : counted ctx.kind row = some (.stake, v) ∨
      counted ctx.kind row = some (.claim, v)) :
    ∃ a, usableStakeAddress row = some a := by
  unfold RowFits at h
  rcases hc with hc | hc
  · rw [hc] at h
    exact ⟨h.choose, h.choose_spec.1⟩
  · rw [hc] at h
    exact ⟨h.choose, h.choose_spec.1⟩

theorem counted_pos {kind : StakeSnapshotTxKind} {row : StakeSnapshotEventRow}
    {k : TokenEventKind} {v : Int} (h : counted kind row = some (k, v)) :
    0 < v := by
  unfold counted at h
  split at h
  · split at h
    · cases h
    · split at h
      · cases h
      · split at h
        · cases h
        · cases h
          omega
  · cases h

/-- Rows replayed forwards without an anomaly add what they add. -/
theorem forward_moved (ctx : TxContext) (hr : ctx.reverse = false)
    (rows : List StakeSnapshotEventRow) {l : ReplayLoop}
    (hs : Consistent l.state)
    (h : (rows.foldl (applyRow ctx) l).anomalies = .none) :
    l.anomalies = .none ∧ AllUsable ctx.kind rows ∧
    (∀ a, (rows.foldl (applyRow ctx) l).state.stakeOf a =
      l.state.stakeOf a + netStake ctx.kind rows a) ∧
    (rows.foldl (applyRow ctx) l).state.soulSupplyRaw =
      l.state.soulSupplyRaw +
        netSupply ctx.kind ctx.inflation l.applied rows := by
  induction rows generalizing l with
  | nil =>
      refine ⟨h, ?_, ?_, ?_⟩
      · intro row hrow
        cases hrow
      · simp [netStake]
      · simp [netSupply]
  | cons row rows ih =>
      obtain ⟨hrow, husable, hstakes, hsupply⟩ :=
        ih (consistent_applyRow hs ctx row) h
      obtain ⟨hiff, hmoves⟩ := applyRow_spec ctx hs row
      obtain ⟨hnone, hfits⟩ := hiff.mp hrow
      have hmoved := hmoves hfits
      refine ⟨hnone, ?_, ?_, ?_⟩
      · intro row' hmem v hc
        rcases List.mem_cons.mp hmem with rfl | hmem
        · exact hfits.usable hc
        · exact husable row' hmem v hc
      · intro a
        have := hmoved.stakes a
        rw [List.foldl_cons, hstakes a, this, hr, netStake_cons]
        simp only [heading, Bool.false_eq_true, if_false]
        omega
      · rw [List.foldl_cons, hsupply, hmoved.supply, hmoved.applied, hr]
        simp only [netSupply, heading, Bool.false_eq_true, if_false]
        omega

/-- Without an inflation result the flag changes nothing. -/
theorem netSupply_no_inflation (kind : StakeSnapshotTxKind) (applied : Bool)
    (rows : List StakeSnapshotEventRow) :
    netSupply kind none applied rows = netSupply kind none true rows := by
  induction rows generalizing applied with
  | nil => rfl
  | cons row rows ih =>
      simp only [netSupply, supplyStep]
      rw [ih (appliedAfter kind none applied row),
        ih (appliedAfter kind none true row)]

/-- After a mint or a burn the inflation result, if there is one, is
spent. -/
theorem netSupply_after_sign {kind : StakeSnapshotTxKind}
    {row : StakeSnapshotEventRow} (hsign : supplySign kind row ≠ 0)
    (inflation : Option Int) (applied : Bool)
    (post : List StakeSnapshotEventRow) :
    netSupply kind inflation (appliedAfter kind inflation applied row) post =
      netSupply kind inflation true post := by
  cases inflation with
  | none => exact netSupply_no_inflation kind _ post
  | some delta =>
      have hspent : appliedAfter kind (some delta) applied row = true := by
        simp [appliedAfter, hsign]
      rw [hspent]

/-- What the reverse loop holds before the rows still ahead of it: the values
from before the transaction, with what these rows add. -/
structure Ahead (ctx : TxContext) (stake : String → Int) (supply : Int)
    (l : ReplayLoop) (rows : List StakeSnapshotEventRow) : Prop where
  stakes : ∀ a, l.state.stakeOf a = stake a + netStake ctx.kind rows a
  supply : l.state.soulSupplyRaw =
    supply + netSupply ctx.kind ctx.inflation l.applied rows

theorem Ahead.step {ctx : TxContext} (hr : ctx.reverse = true)
    {stake : String → Int} {supply : Int} {l l' : ReplayLoop}
    {row : StakeSnapshotEventRow} {post : List StakeSnapshotEventRow}
    (h : Ahead ctx stake supply l (row :: post))
    (hmoved : RowMoved ctx row l l') : Ahead ctx stake supply l' post := by
  refine ⟨?_, ?_⟩
  · intro a
    have hmove := hmoved.stakes a
    have hhere := h.stakes a
    rw [netStake_cons] at hhere
    simp only [hr, heading, if_true] at hmove
    omega
  · have hmove := hmoved.supply
    have hhere := h.supply
    simp only [netSupply] at hhere
    simp only [hr, heading, if_true] at hmove
    rw [hmoved.applied]
    omega

/-- In reverse a row fits exactly when its part of `undoableRows` holds. -/
theorem Ahead.fits_iff {ctx : TxContext} (hr : ctx.reverse = true)
    {stake : String → Int} {supply : Int} {l : ReplayLoop}
    {row : StakeSnapshotEventRow} {post : List StakeSnapshotEventRow}
    (hs : Consistent l.state) (h : Ahead ctx stake supply l (row :: post))
    (husable : AllUsable ctx.kind (row :: post)) :
    RowFits ctx l row ↔ (match counted ctx.kind row with
      | some (.stake, _) => (usableStakeAddress row).all fun a =>
          decide (0 ≤ stake a + netStake ctx.kind post a)
      | some (.mint, _) =>
          decide (0 ≤ supply + netSupply ctx.kind ctx.inflation true post)
      | _ => true) = true := by
  have hsupply := h.supply
  simp only [netSupply] at hsupply
  cases hc : counted ctx.kind row with
  | none => simp [RowFits, hc]
  | some kv =>
      obtain ⟨kind, v⟩ := kv
      have hv : 0 < v := counted_pos hc
      cases kind with
      | stake =>
          obtain ⟨a, ha⟩ := husable row List.mem_cons_self v (Or.inl hc)
          have hhere := h.stakes a
          rw [netStake_cons] at hhere
          have hshift : stakeShift ctx.kind row a = v := by
            simp [stakeShift, hc, ha]
          simp only [RowFits, hc, ha, hr, heading, if_true, Option.some.injEq,
            exists_eq_left', Option.all_some, decide_eq_true_eq]
          omega
      | claim =>
          obtain ⟨a, ha⟩ := husable row List.mem_cons_self v (Or.inr hc)
          have hnn := stakeOf_nonneg hs a
          simp only [RowFits, hc, ha, hr, heading, if_true, Option.some.injEq,
            exists_eq_left', iff_true]
          omega
      | mint =>
          rw [netSupply_after_sign (by simp [supplySign, hc])] at hsupply
          simp only [RowFits, hc, hr, heading, if_true, true_implies,
            decide_eq_true_eq]
          omega
      | burn => simp [RowFits, hc, hr]

/-- The reverse loop over a transaction: silent exactly on undoable rows, and
then back at the values from before. -/
theorem reverse_rows (ctx : TxContext) (hr : ctx.reverse = true)
    {stake : String → Int} {supply : Int}
    (rows : List StakeSnapshotEventRow) {l : ReplayLoop}
    (hs : Consistent l.state) (h : Ahead ctx stake supply l rows)
    (husable : AllUsable ctx.kind rows) :
    ((rows.foldl (applyRow ctx) l).anomalies = .none ↔
      l.anomalies = .none ∧
        undoableRows ctx.kind ctx.inflation stake supply rows = true) ∧
    ((rows.foldl (applyRow ctx) l).anomalies = .none →
      Ahead ctx stake supply (rows.foldl (applyRow ctx) l) []) := by
  induction rows generalizing l with
  | nil => exact ⟨by simp [undoableRows], fun _ => h⟩
  | cons row post ih =>
      obtain ⟨hiff, hmoves⟩ := applyRow_spec ctx hs row
      have hfits := h.fits_iff hr hs husable
      rw [List.foldl_cons, undoableRows, Bool.and_eq_true, ← hfits]
      by_cases hrow : RowFits ctx l row
      · have hpost := ih (consistent_applyRow hs ctx row)
          (h.step hr (hmoves hrow))
          fun row' hmem => husable row' (List.mem_cons_of_mem _ hmem)
        refine ⟨?_, hpost.2⟩
        rw [hpost.1, hiff]
        tauto
      · have hbad : (post.foldl (applyRow ctx)
            (applyRow ctx l row)).anomalies ≠ .none := by
          intro hnone
          have := anomalies_of_foldl post
            (consistent_applyRow hs ctx row) hnone
          exact hrow (hiff.mp this).2
        exact ⟨by tauto, fun hnone => absurd hnone hbad⟩

/-! ## Transaction groups -/

theorem lookup_eq_stakeOf {s : StakeSnapshotState} (hs : Consistent s)
    (a : String) : s.stakesByAddress.lookup a =
      if s.stakeOf a = 0 then none else some (s.stakeOf a) := by
  unfold StakeSnapshotState.stakeOf
  cases h : s.stakesByAddress.lookup a with
  | none => rfl
  | some v =>
      have hv := pos_of_lookup hs.pos h
      rw [if_neg]
      · rfl
      · simp only [Option.getD_some]
        omega

/-- A consistent state is its stakes and its supply. -/
theorem Consistent.ext {s s' : StakeSnapshotState} (hs : Consistent s)
    (hs' : Consistent s') (hstakes : ∀ a, s.stakeOf a = s'.stakeOf a)
    (hsupply : s.soulSupplyRaw = s'.soulSupplyRaw) : s = s' := by
  have hmap : s.stakesByAddress = s'.stakesByAddress := by
    refine Finmap.ext_lookup fun a => ?_
    rw [lookup_eq_stakeOf hs, lookup_eq_stakeOf hs', hstakes]
  have h1 := hs.total
  have h2 := hs.stakers
  have h3 := hs.masters
  have h1' := hs'.total
  have h2' := hs'.stakers
  have h3' := hs'.masters
  cases s
  cases s'
  simp only at hmap hsupply h1 h2 h3 h1' h2' h3'
  subst hmap hsupply
  rw [h1, h2, h3, h1', h2', h3']

theorem anomalies_of_replayGroups (reverse : Bool)
    (groups : List (List StakeSnapshotEventRow)) {r : Replay}
    (hs : Consistent r.1) (h : (replayGroups reverse r groups).2 = .none) :
    r.2 = .none := by
  induction groups generalizing r with
  | nil => exact h
  | cons g groups ih =>
      have hg : (replayGroup reverse r g).2 = .none :=
        ih (hs.transaction (deduplicateStakeSnapshotTxRows g) reverse) h
      exact anomalies_of_foldl (l := ⟨r.1, r.2, false⟩) _ hs hg

/-- One transaction there and back. -/
theorem reverse_group {s s' : StakeSnapshotState} (hs : Consistent s)
    {g : List StakeSnapshotEventRow}
    (h : replayGroup false (s, .none) g = (s', .none)) :
    let rows := deduplicateStakeSnapshotTxRows g
    let ctx := txContext rows true
    s'.stakeOf = (fun a => s.stakeOf a + netStake ctx.kind rows a) ∧
    s'.soulSupplyRaw =
      s.soulSupplyRaw + netSupply ctx.kind ctx.inflation false rows ∧
    ((replayGroup true (s', .none) g).2 = .none ↔
      undoableRows ctx.kind ctx.inflation s.stakeOf s.soulSupplyRaw rows =
        true) ∧
    ((replayGroup true (s', .none) g).2 = .none →
      replayGroup true (s', .none) g = (s, .none)) := by
  intro rows ctx
  have hs' : Consistent s' := by
    have := hs.transaction (r := (s, .none)) rows false
    rw [show applyStakeSnapshotTransaction (s, .none) rows false =
      (s', .none) from h] at this
    exact this
  have hstate : ((rows.foldl (applyRow (txContext rows false))
      ⟨s, .none, false⟩).state) = s' := congrArg Prod.fst h
  obtain ⟨-, husable, hstakes, hsupply⟩ := forward_moved
    (txContext rows false) rfl rows (l := ⟨s, .none, false⟩) hs
    (congrArg Prod.snd h)
  rw [hstate] at hstakes hsupply
  obtain ⟨hiff, hback⟩ := reverse_rows ctx rfl rows
    (l := ⟨s', .none, false⟩) hs' ⟨hstakes, hsupply⟩ husable
  refine ⟨funext hstakes, hsupply, ?_, ?_⟩
  · exact hiff.trans (and_iff_right rfl)
  · intro hnone
    obtain ⟨hstakes', hsupply'⟩ := hback hnone
    refine Prod.ext ?_ hnone
    refine Consistent.ext (hs'.transaction (r := (s', .none)) rows true) hs
      (fun a => ?_) ?_
    · exact (hstakes' a).trans (by simp [netStake])
    · exact hsupply'.trans (by simp [netSupply])

/-- The groups there and back: the reverse replay is silent exactly on
undoable groups, and a silent one ends where the forward replay started. -/
theorem reverse_groups (groups : List (List StakeSnapshotEventRow))
    {s t : StakeSnapshotState} (hs : Consistent s)
    (h : replayGroups false (s, .none) groups = (t, .none)) :
    ((replayGroups true (t, .none) groups.reverse).2 = .none ↔
      undoable s.stakeOf s.soulSupplyRaw groups = true) ∧
    ((replayGroups true (t, .none) groups.reverse).2 = .none →
      replayGroups true (t, .none) groups.reverse = (s, .none)) := by
  induction groups generalizing s with
  | nil =>
      cases h
      exact ⟨by simp [replayGroups, undoable], fun _ => rfl⟩
  | cons g groups ih =>
      -- the state between the first group and the others
      have hs1 : Consistent (replayGroup false (s, .none) g).1 :=
        hs.transaction (r := (s, .none)) _ _
      have hnone1 : (replayGroup false (s, .none) g).2 = .none :=
        anomalies_of_replayGroups false groups hs1
          (congrArg Prod.snd h)
      obtain ⟨s1, hfirst⟩ : ∃ s1,
          replayGroup false (s, .none) g = (s1, .none) :=
        ⟨_, Prod.ext rfl hnone1⟩
      rw [hfirst] at hs1
      have hrest : replayGroups false (s1, .none) groups = (t, .none) := by
        rw [← hfirst]
        exact h
      obtain ⟨hiff, hback⟩ := ih hs1 hrest
      obtain ⟨hstakes, hsupply, hiff1, hback1⟩ := reverse_group hs hfirst
      have hlast : replayGroups true (t, .none) (g :: groups).reverse =
          replayGroup true
            (replayGroups true (t, .none) groups.reverse) g := by
        simp [replayGroups, List.foldl_append]
      rw [hlast, undoable, Bool.and_eq_true, ← hstakes, ← hsupply, ← hiff,
        ← hiff1]
      by_cases hnone : (replayGroups true (t, .none) groups.reverse).2 = .none
      · rw [hback hnone]
        exact ⟨by simp, hback1⟩
      · have ht : Consistent t := by
          have := hs1.replayGroups false (r := (s1, .none)) groups
          rw [hrest] at this
          exact this
        have hbad : (replayGroup true
            (replayGroups true (t, .none) groups.reverse) g).2 ≠ .none := by
          intro hn
          exact hnone (anomalies_of_replayGroups true [g]
            (ht.replayGroups true (r := (t, .none)) groups.reverse) hn)
        exact ⟨by tauto, fun hn => absurd hn hbad⟩

/-- The walk back meets the groups of the walk forward, last one first. -/
theorem txGroupsFromEnd_eq (rows : List StakeSnapshotEventRow) :
    txGroupsFromEnd rows = (txGroups rows).reverse := by
  refine splitBy_reverse_map ?_ rows
  intro a b
  rw [Bool.eq_iff_iff]
  simp only [sameTx, beq_iff_eq]
  exact eq_comm

/-- When rows replay forwards from `s` to `t` without an anomaly, replaying
them in reverse from `t` leads back to `s` without an anomaly exactly if
every transaction among them is undoable in row order. -/
theorem reverse_replay_undoes_iff {s t : StakeSnapshotState}
    {rows : List StakeSnapshotEventRow} (hs : Consistent s)
    (h : forwardReplay (s, .none) rows = (t, .none)) :
    reverseReplayStakeSnapshotEvents (t, .none) rows = (s, .none) ↔
      undoable s.stakeOf s.soulSupplyRaw (txGroups rows) = true := by
  obtain ⟨hiff, hback⟩ := reverse_groups (txGroups rows) hs h
  rw [reverseReplayStakeSnapshotEvents, txGroupsFromEnd_eq, ← hiff]
  constructor
  · intro heq
    rw [heq]
  · exact hback

/-- A SOUL row of a transaction that both stakes and unstakes. -/
def soulRow (eventId txId : Int) (kind : String) (value : Int)
    (address : String) : StakeSnapshotEventRow where
  eventId := eventId
  txId := txId
  kind := kind
  timestampUnixSeconds := 0
  payloadIdentity := ""
  payloadFormat := 0
  tokenSymbol := some "SOUL"
  valueRaw := some value
  address := some address
  marketQuoteSymbol := none
  txHasStakeCall := true
  txHasUnstakeCall := true
  txHasClaimCall := false
  txApplyInflationResultSoulDeltaRaw := none

/-- Stake and claim in two transactions, walked back to nothing. -/
theorem reverse_replay_undoes_two_transactions :
    reverseReplayStakeSnapshotEvents
      (forwardReplay (emptyStakeState 100, .none)
        [soulRow 1 1 "TokenStake" 50 "P", soulRow 2 2 "TokenClaim" 20 "P"])
      [soulRow 1 1 "TokenStake" 50 "P", soulRow 2 2 "TokenClaim" 20 "P"] =
        (emptyStakeState 100, .none) := by
  have h : forwardReplay (emptyStakeState 100, .none)
      [soulRow 1 1 "TokenStake" 50 "P", soulRow 2 2 "TokenClaim" 20 "P"] =
      (⟨(∅ : Stakes).insert "P" 30, 30, 100, 1, 0⟩, .none) := by decide
  rw [h]
  exact (reverse_replay_undoes_iff (consistent_emptyStakeState 100) h).mpr
    (by decide)

/-- One transaction that stakes and takes out again: forwards it ends where
it started, in reverse it records an anomaly and invents a stake. -/
theorem reverse_replay_misses_stake_and_claim :
    ¬ ∀ (s t : StakeSnapshotState) (rows : List StakeSnapshotEventRow),
      Consistent s → 0 ≤ s.soulSupplyRaw →
      forwardReplay (s, .none) rows = (t, .none) →
      reverseReplayStakeSnapshotEvents (t, .none) rows = (s, .none) := by
  intro h
  have hback := h (emptyStakeState 100) (emptyStakeState 100)
    [soulRow 1 1 "TokenStake" 10 "P", soulRow 2 1 "TokenClaim" 10 "P"]
    (consistent_emptyStakeState 100) (by decide) (by decide)
  have hstakes := congrArg (fun r => r.1.totalStakedRaw) hback
  revert hstakes
  decide

end Explorer.Ref
