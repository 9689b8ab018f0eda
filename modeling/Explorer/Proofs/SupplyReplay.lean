import Explorer.Proofs.StakeReverse

/-!
# The SOUL supply along the replay

A transaction with an inflation result moves the supply once, at its first
mint or burn. Which way it moves is decided there by the kind of that row and
the direction of the replay, not by the sign of the result: a burn that comes
first turns the result round. The clamp at zero stands behind subtractions
only, and an addition of a negative result passes it by.

Rows of stakes and claims leave the supply alone, so everything is read off
the first supply row of a group and the supply before it.
-/

namespace Explorer.Ref

/-! ## Rows of the supply -/

/-- A counted mint (`true`) or burn, with its value. -/
def supplyRow (kind : StakeSnapshotTxKind) (row : StakeSnapshotEventRow) :
    Option (Bool × Int) :=
  match counted kind row with
  | some (.mint, value) => some (true, value)
  | some (.burn, value) => some (false, value)
  | _ => none

/-- Whether the first supply row of a transaction is a mint. -/
def firstSupply (rows : List StakeSnapshotEventRow) : Option Bool :=
  rows.findSome? fun row =>
    (supplyRow (classifyStakeSnapshotTransaction rows) row).map Prod.fst

/-- The supply is added to: a mint forward, a burn in reverse. -/
def adds (mint reverse : Bool) : Bool := mint != reverse

/-- The sign of the branch. -/
def branchSign (mint reverse : Bool) : Int := if adds mint reverse then 1 else -1

/-- The loop after the arithmetic of a supply row, before any clamp. -/
def ReplayLoop.unclamped (ctx : TxContext) (l : ReplayLoop) (mint : Bool)
    (value : Int) : ReplayLoop :=
  l.moveSupply ctx.inflation (branchSign mint ctx.reverse) value

section

variable {ctx : TxContext} {l : ReplayLoop} {row : StakeSnapshotEventRow}
  {mint : Bool} {value : Int}

theorem supplyRow_pos {kind : StakeSnapshotTxKind}
    (h : supplyRow kind row = some (mint, value)) : 0 < value := by
  rw [supplyRow] at h
  split at h
  · next hcounted =>
      cases h
      exact counted_pos hcounted
  · next hcounted =>
      cases h
      exact counted_pos hcounted
  · cases h

/-- A row of the supply. -/
theorem applyRow_of_supply (h : supplyRow ctx.kind row = some (mint, value)) :
    applyRow ctx l row =
      if adds mint ctx.reverse then l.unclamped ctx mint value
      else (l.unclamped ctx mint value).clampSupply ctx.reverse row := by
  rw [supplyRow] at h
  rw [applyRow, ReplayLoop.unclamped, branchSign]
  split at h
  · next v hcounted =>
      cases h
      rw [hcounted]
      cases hr : ctx.reverse <;> rfl
  · next v hcounted =>
      cases h
      rw [hcounted]
      cases hr : ctx.reverse <;> rfl
  · cases h

/-- Any other row leaves the supply and the flag. -/
theorem applyRow_of_other (h : supplyRow ctx.kind row = none) :
    (applyRow ctx l row).state.soulSupplyRaw = l.state.soulSupplyRaw ∧
      (applyRow ctx l row).applied = l.applied := by
  rw [supplyRow] at h
  rw [applyRow]
  split at h
  · cases h
  · cases h
  · next hmint hburn =>
      cases hcounted : counted ctx.kind row with
      | none => exact ⟨rfl, rfl⟩
      | some x =>
          obtain ⟨kind, v⟩ := x
          cases kind with
          | stake => cases ctx.reverse <;> exact ⟨stakeDelta_supply _ _ _, rfl⟩
          | claim => cases ctx.reverse <;> exact ⟨stakeDelta_supply _ _ _, rfl⟩
          | mint => exact absurd hcounted (hmint v)
          | burn => exact absurd hcounted (hburn v)

end

/-! ## The result of an inflation -/

/-- The clamp fires at a row. -/
def clampsAt (ctx : TxContext) (l : ReplayLoop) (row : StakeSnapshotEventRow) :
    Prop :=
  ∃ mint value, supplyRow ctx.kind row = some (mint, value) ∧
    adds mint ctx.reverse = false ∧
    (l.unclamped ctx mint value).state.soulSupplyRaw < 0

/-- No clamp is recorded for the supply along the rows. -/
def ClampFree (ctx : TxContext) : ReplayLoop → List StakeSnapshotEventRow → Prop
  | _, [] => True
  | l, row :: rows => ¬ clampsAt ctx l row ∧ ClampFree ctx (applyRow ctx l row) rows

section

variable {ctx : TxContext} {l : ReplayLoop} {d : Int}

theorem unclamped_applied (hd : ctx.inflation = some d)
    (happlied : l.applied = true) (mint : Bool) (value : Int) :
    l.unclamped ctx mint value = l := by
  simp only [ReplayLoop.unclamped, ReplayLoop.moveSupply, hd, happlied,
    if_true]

theorem unclamped_first (hd : ctx.inflation = some d)
    (happlied : l.applied = false) (mint : Bool) (value : Int) :
    l.unclamped ctx mint value =
      { l with
        state := { l.state with soulSupplyRaw :=
          l.state.soulSupplyRaw + branchSign mint ctx.reverse * d }
        applied := true } := by
  simp only [ReplayLoop.unclamped, ReplayLoop.moveSupply, hd, happlied,
    Bool.false_eq_true, if_false]

theorem applyRow_of_clampFree {row : StakeSnapshotEventRow} {mint : Bool}
    {value : Int} (h : supplyRow ctx.kind row = some (mint, value))
    (hfree : ¬ clampsAt ctx l row) :
    applyRow ctx l row = l.unclamped ctx mint value := by
  rw [applyRow_of_supply h]
  split
  · rfl
  · next hadds =>
      refine clampSupply_of_nonneg (not_lt.mp fun hneg => hfree ?_) _ _
      exact ⟨mint, value, h, Bool.eq_false_iff.mpr hadds, hneg⟩

/-- Once the result is in, the supply stays. -/
theorem supply_of_applied (hd : ctx.inflation = some d)
    {rows : List StakeSnapshotEventRow} (happlied : l.applied = true)
    (hfree : ClampFree ctx l rows) :
    (rows.foldl (applyRow ctx) l).state.soulSupplyRaw =
      l.state.soulSupplyRaw := by
  induction rows generalizing l with
  | nil => rfl
  | cons row rows ih =>
      cases hrow : supplyRow ctx.kind row with
      | none =>
          obtain ⟨hsupply, hflag⟩ := @applyRow_of_other ctx l row hrow
          rw [List.foldl_cons, ih (hflag.trans happlied) hfree.2, hsupply]
      | some x =>
          obtain ⟨mint, value⟩ := x
          have happly := applyRow_of_clampFree hrow hfree.1
          rw [unclamped_applied hd happlied] at happly
          have hrest := hfree.2
          rw [happly] at hrest
          rw [List.foldl_cons, happly]
          exact ih happlied hrest

/-- Before that, the first supply row moves it. -/
theorem supply_of_first (hd : ctx.inflation = some d)
    {rows : List StakeSnapshotEventRow} {mint : Bool}
    (hfirst : (rows.findSome? fun row =>
      (supplyRow ctx.kind row).map Prod.fst) = some mint)
    (happlied : l.applied = false) (hfree : ClampFree ctx l rows) :
    (rows.foldl (applyRow ctx) l).state.soulSupplyRaw =
      l.state.soulSupplyRaw + branchSign mint ctx.reverse * d := by
  induction rows generalizing l with
  | nil => cases hfirst
  | cons row rows ih =>
      rw [List.findSome?_cons] at hfirst
      cases hrow : supplyRow ctx.kind row with
      | none =>
          rw [hrow] at hfirst
          obtain ⟨hsupply, hflag⟩ := @applyRow_of_other ctx l row hrow
          rw [List.foldl_cons, ih hfirst (hflag.trans happlied) hfree.2,
            hsupply]
      | some x =>
          obtain ⟨mint', value⟩ := x
          rw [hrow] at hfirst
          cases hfirst
          have happly := applyRow_of_clampFree hrow hfree.1
          have hmoved := unclamped_first hd happlied mint' value
          have hrest := hfree.2
          rw [happly, hmoved] at hrest
          rw [List.foldl_cons, happly, hmoved, supply_of_applied hd rfl hrest]

end

/-- Forward the result is added and in reverse taken away, exactly where the
first supply row is a mint. -/
theorem inflation_counts_once_iff {r : Replay}
    {rows : List StakeSnapshotEventRow} {reverse mint : Bool} {d : Int}
    (hd : (rows.findSome? (·.txApplyInflationResultSoulDeltaRaw)) = some d)
    (hfirst : firstSupply rows = some mint)
    (hfree : ClampFree (txContext rows reverse) ⟨r.1, r.2, false⟩ rows) :
    (applyStakeSnapshotTransaction r rows reverse).1.soulSupplyRaw =
        r.1.soulSupplyRaw + (if reverse then -d else d) ↔
      mint = true ∨ d = 0 := by
  have hsupply := @supply_of_first (txContext rows reverse) _ d hd rows mint
    hfirst rfl hfree
  have happly : (applyStakeSnapshotTransaction r rows reverse).1.soulSupplyRaw =
      r.1.soulSupplyRaw + branchSign mint reverse * d := hsupply
  rw [happly]
  cases mint <;> cases reverse <;>
    simp only [branchSign, adds, bne_self_eq_false, Bool.true_bne,
      Bool.false_bne, Bool.not_false, Bool.false_eq_true, if_true, if_false,
      true_or, false_or, iff_true] <;> omega

/-! ### A burn before a mint -/

def supplyTestRow (kind : String) (value : Int) (delta : Option Int) :
    StakeSnapshotEventRow where
  eventId := 1
  txId := 1
  kind := kind
  timestampUnixSeconds := 1700000010
  payloadIdentity := ""
  payloadFormat := 2
  tokenSymbol := some "SOUL"
  valueRaw := some value
  address := some "PTESTA"
  marketQuoteSymbol := none
  txHasStakeCall := false
  txHasUnstakeCall := false
  txHasClaimCall := false
  txApplyInflationResultSoulDeltaRaw := delta

def supplyTestState (supply : Int) : Replay :=
  (⟨∅, 0, supply, 0, 0⟩, .none)

theorem inflation_counts_once_iff_of_mint :
    (applyStakeSnapshotTransaction (supplyTestState 1000)
      [supplyTestRow "TokenMint" 12 (some 10), supplyTestRow "TokenBurn" 2 none]
      false).1.soulSupplyRaw = 1000 + 10 := by
  have hiff := @inflation_counts_once_iff (supplyTestState 1000)
    [supplyTestRow "TokenMint" 12 (some 10), supplyTestRow "TokenBurn" 2 none]
    false true 10 (by decide) (by decide +kernel) ?_
  · exact hiff.mpr (.inl rfl)
  · refine ⟨?_, ?_, trivial⟩
    · rintro ⟨mint, value, hrow, hadds, -⟩
      have hmint : supplyRow .normal (supplyTestRow "TokenMint" 12 (some 10)) =
        some (true, 12) := by decide +kernel
      cases hmint.symm.trans hrow
      cases hadds
    · rintro ⟨mint, value, hrow, -, hneg⟩
      have hburn : supplyRow .normal (supplyTestRow "TokenBurn" 2 none) =
        some (false, 2) := by decide +kernel
      cases hburn.symm.trans hrow
      revert hneg
      decide +kernel

/-- The burn comes first: the result of ten is taken away. -/
theorem inflation_turned_by_burn :
    ¬ ∀ (r : Replay) (rows : List StakeSnapshotEventRow) (d : Int),
      (rows.findSome? (·.txApplyInflationResultSoulDeltaRaw)) = some d →
      (∃ row ∈ rows, (supplyRow (classifyStakeSnapshotTransaction rows)
        row).isSome = true) →
      (applyStakeSnapshotTransaction r rows false).2 = r.2 →
      (applyStakeSnapshotTransaction r rows false).1.soulSupplyRaw =
        r.1.soulSupplyRaw + d := by
  intro hall
  have hwrong := hall (supplyTestState 1000)
    [supplyTestRow "TokenBurn" 2 (some 10), supplyTestRow "TokenMint" 12 none]
    10 (by decide) ⟨_, List.mem_cons_self, by decide +kernel⟩
    (by decide +kernel)
  revert hwrong
  decide +kernel

/-! ## A supply below zero -/

/-- The supply is not negative after the row, and where its arithmetic went
below zero an anomaly says so. -/
structure RowSound (ctx : TxContext) (l : ReplayLoop)
    (row : StakeSnapshotEventRow) : Prop where
  nonneg : 0 ≤ (applyRow ctx l row).state.soulSupplyRaw
  recorded : ∀ mint value, supplyRow ctx.kind row = some (mint, value) →
    (l.unclamped ctx mint value).state.soulSupplyRaw < 0 →
    ∃ reason, (applyRow ctx l row).anomalies = l.anomalies.record reason

def RowsSound (ctx : TxContext) : ReplayLoop → List StakeSnapshotEventRow → Prop
  | _, [] => True
  | l, row :: rows => RowSound ctx l row ∧ RowsSound ctx (applyRow ctx l row) rows

section

variable {ctx : TxContext} {l : ReplayLoop} {row : StakeSnapshotEventRow}
  {mint : Bool} {value : Int}

theorem rowSound_of_other (h : supplyRow ctx.kind row = none)
    (hl : 0 ≤ l.state.soulSupplyRaw) : RowSound ctx l row := by
  refine ⟨?_, fun mint value hrow => ?_⟩
  · rw [(applyRow_of_other h).1]
    exact hl
  · rw [h] at hrow
    cases hrow

/-- A supply row is sound unless its addition goes below zero. -/
theorem rowSound_iff (h : supplyRow ctx.kind row = some (mint, value)) :
    RowSound ctx l row ↔ (adds mint ctx.reverse = true →
      0 ≤ (l.unclamped ctx mint value).state.soulSupplyRaw) := by
  have happly := @applyRow_of_supply ctx l row mint value h
  cases hadds : adds mint ctx.reverse with
  | true =>
      rw [hadds, if_pos rfl] at happly
      refine ⟨fun hsound _ => happly ▸ hsound.nonneg, fun hle => ⟨?_, ?_⟩⟩
      · rw [happly]
        exact hle rfl
      · intro mint' value' hrow hneg
        rw [h] at hrow
        cases hrow
        exact absurd (hle rfl) (not_le.mpr hneg)
  | false =>
      rw [hadds, if_neg Bool.false_ne_true] at happly
      refine ⟨fun _ hfalse => absurd hfalse Bool.false_ne_true,
        fun _ => ⟨?_, ?_⟩⟩
      · rw [happly, ReplayLoop.clampSupply]
        split
        · exact le_refl _
        · next hle => exact not_lt.mp hle
      · intro mint' value' hrow hneg
        rw [h] at hrow
        cases hrow
        rw [happly, ReplayLoop.clampSupply, if_pos hneg]
        exact ⟨_, congrArg (fun a => StakeSnapshotAnomalies.record a _)
          (moveSupply_anomalies _ _ _ _)⟩

/-- Nothing is added below zero where the supply moves by values. -/
theorem unclamped_nonneg_of_none (hnone : ctx.inflation = none)
    (h : supplyRow ctx.kind row = some (mint, value))
    (hl : 0 ≤ l.state.soulSupplyRaw) (hadds : adds mint ctx.reverse = true) :
    0 ≤ (l.unclamped ctx mint value).state.soulSupplyRaw := by
  have hpos := supplyRow_pos h
  simp only [ReplayLoop.unclamped, ReplayLoop.moveSupply, hnone, branchSign,
    hadds, if_true]
  omega

/-- After the result, and without one, every row is sound. -/
theorem rowsSound_of_settled {rows : List StakeSnapshotEventRow}
    (hsettled : ctx.inflation = none ∨ l.applied = true)
    (hl : 0 ≤ l.state.soulSupplyRaw) : RowsSound ctx l rows := by
  induction rows generalizing l with
  | nil => trivial
  | cons row rows ih =>
      cases hrow : supplyRow ctx.kind row with
      | none =>
          have hsound := rowSound_of_other hrow hl
          refine ⟨hsound, ih ?_ hsound.nonneg⟩
          rw [(applyRow_of_other hrow).2]
          exact hsettled
      | some x =>
          obtain ⟨mint, value⟩ := x
          have hsound : RowSound ctx l row := by
            rw [rowSound_iff hrow]
            intro hadds
            rcases hsettled with hnone | happlied
            · exact unclamped_nonneg_of_none hnone hrow hl hadds
            · cases hd : ctx.inflation with
              | none => exact unclamped_nonneg_of_none hd hrow hl hadds
              | some d =>
                  rw [unclamped_applied hd happlied]
                  exact hl
          refine ⟨hsound, ih ?_ hsound.nonneg⟩
          rcases hsettled with hnone | happlied
          · exact .inl hnone
          · refine .inr ?_
            rw [applyRow_of_supply hrow]
            have hflag : (l.unclamped ctx mint value).applied = true := by
              cases hd : ctx.inflation with
              | none =>
                  simp only [ReplayLoop.unclamped, ReplayLoop.moveSupply, hd]
                  exact happlied
              | some d =>
                  rw [unclamped_applied hd happlied]
                  exact happlied
            split
            · exact hflag
            · rw [ReplayLoop.clampSupply]
              split <;> exact hflag

/-- Before the result, its row decides. -/
theorem rowsSound_iff {rows : List StakeSnapshotEventRow} {d : Int}
    (hd : ctx.inflation = some d) (happlied : l.applied = false)
    (hl : 0 ≤ l.state.soulSupplyRaw) :
    RowsSound ctx l rows ↔
      ∀ mint, (rows.findSome? fun row =>
          (supplyRow ctx.kind row).map Prod.fst) = some mint →
        adds mint ctx.reverse = true → 0 ≤ l.state.soulSupplyRaw + d := by
  induction rows generalizing l with
  | nil =>
      refine ⟨fun _ mint hfirst => ?_, fun _ => trivial⟩
      cases hfirst
  | cons row rows ih =>
      rw [List.findSome?_cons]
      cases hrow : supplyRow ctx.kind row with
      | none =>
          obtain ⟨hsupply, hflag⟩ := @applyRow_of_other ctx l row hrow
          have hsound := rowSound_of_other hrow hl
          have hrest := ih (hflag.trans happlied) hsound.nonneg
          rw [hsupply] at hrest
          exact ⟨fun h => hrest.mp h.2, fun h => ⟨hsound, hrest.mpr h⟩⟩
      | some x =>
          obtain ⟨mint, value⟩ := x
          have hmoved := unclamped_first hd happlied mint value
          have hiff : RowSound ctx l row ↔ (adds mint ctx.reverse = true →
              0 ≤ l.state.soulSupplyRaw + d) := by
            rw [rowSound_iff hrow]
            refine forall_congr' fun hadds => ?_
            rw [hmoved]
            simp only [branchSign, hadds, if_true, one_mul]
          constructor
          · rintro ⟨hsound, -⟩ mint' hfirst
            cases hfirst
            exact hiff.mp hsound
          · intro h
            have hsound := hiff.mpr (h mint rfl)
            refine ⟨hsound, rowsSound_of_settled (.inr ?_) hsound.nonneg⟩
            rw [applyRow_of_supply hrow, hmoved]
            split
            · rfl
            · rw [ReplayLoop.clampSupply]
              split <;> rfl

theorem RowsSound.nonneg {rows : List StakeSnapshotEventRow}
    (h : RowsSound ctx l rows) (hl : 0 ≤ l.state.soulSupplyRaw) :
    0 ≤ (rows.foldl (applyRow ctx) l).state.soulSupplyRaw := by
  induction rows generalizing l with
  | nil => exact hl
  | cons row rows ih => exact ih h.2 h.1.nonneg

end

/-- The inflation result of a group, where it is added, leaves a supply. -/
def InflationFits (supply : Int) (rows : List StakeSnapshotEventRow)
    (reverse : Bool) : Prop :=
  ∀ d mint, (rows.findSome? (·.txApplyInflationResultSoulDeltaRaw)) = some d →
    firstSupply rows = some mint → adds mint reverse = true → 0 ≤ supply + d

/-- Groups in either direction, each row sound. -/
def RunSound : Replay → List (Bool × List StakeSnapshotEventRow) → Prop
  | _, [] => True
  | r, (reverse, rows) :: groups =>
      RowsSound (txContext rows reverse) ⟨r.1, r.2, false⟩ rows ∧
        RunSound (applyStakeSnapshotTransaction r rows reverse) groups

/-- Each group fits the supply before it. -/
def RunFits : Replay → List (Bool × List StakeSnapshotEventRow) → Prop
  | _, [] => True
  | r, (reverse, rows) :: groups =>
      InflationFits r.1.soulSupplyRaw rows reverse ∧
        RunFits (applyStakeSnapshotTransaction r rows reverse) groups

theorem group_sound_iff {r : Replay} {rows : List StakeSnapshotEventRow}
    {reverse : Bool} (hr : 0 ≤ r.1.soulSupplyRaw) :
    RowsSound (txContext rows reverse) ⟨r.1, r.2, false⟩ rows ↔
      InflationFits r.1.soulSupplyRaw rows reverse := by
  cases hd : rows.findSome? (·.txApplyInflationResultSoulDeltaRaw) with
  | none =>
      refine ⟨fun _ d mint hsome => ?_, fun _ => ?_⟩
      · rw [hd] at hsome
        cases hsome
      · exact rowsSound_of_settled (.inl hd) hr
  | some d =>
      rw [@rowsSound_iff (txContext rows reverse) _ _ d hd rfl hr]
      constructor
      · intro h d' mint hd' hfirst
        rw [hd] at hd'
        cases hd'
        exact h mint hfirst
      · exact fun h mint hfirst => h d mint hd hfirst

/-- From a supply that is not negative, a run never goes below zero unseen
exactly where each group fits. -/
theorem supply_sound_iff {r : Replay}
    {groups : List (Bool × List StakeSnapshotEventRow)}
    (hr : 0 ≤ r.1.soulSupplyRaw) : RunSound r groups ↔ RunFits r groups := by
  induction groups generalizing r with
  | nil => exact Iff.rfl
  | cons group groups ih =>
      obtain ⟨reverse, rows⟩ := group
      rw [RunSound, RunFits, ← group_sound_iff hr]
      refine and_congr_right fun hsound => ih ?_
      exact hsound.nonneg hr

theorem supply_sound_iff_of_burn :
    RunSound (supplyTestState 1000)
      [(false, [supplyTestRow "TokenBurn" 2000 none]),
        (true, [supplyTestRow "TokenBurn" 5 none])] := by
  refine (supply_sound_iff (by decide)).mpr ⟨?_, ?_, trivial⟩
  · intro d mint hd
    cases hd
  · intro d mint hd
    cases hd

/-- A negative result at a mint: no clamp and no anomaly. -/
theorem supply_negative_after_mint :
    parseCarbonIntxI64Raw "tx.result" "88FFFFFFFFFFFFFFFF" = .ok (-1) ∧
    (applyStakeSnapshotTransaction (supplyTestState 0)
      [supplyTestRow "TokenMint" 12 (some (-1))] false).1.soulSupplyRaw = -1 ∧
    (applyStakeSnapshotTransaction (supplyTestState 0)
      [supplyTestRow "TokenMint" 12 (some (-1))] false).2 = .none ∧
    ¬ RunSound (supplyTestState 0)
      [(false, [supplyTestRow "TokenMint" 12 (some (-1))])] := by
  refine ⟨by decide +kernel, by decide +kernel, by decide +kernel, ?_⟩
  rintro ⟨⟨hsound, -⟩, -⟩
  have hnonneg := hsound.nonneg
  revert hnonneg
  decide +kernel

end Explorer.Ref
