import Explorer.Lib.Firsts
import Explorer.Lib.Joined
import Explorer.Ref.Staking

/-!
# De-duplicated stake rows

The rows of a transaction are collapsed under one text, kind, identity and
address with bars between them. Rows of any other payload format go through
the loop untouched. For the backfilled format the text stands for the three
fields it is made of: a row is lost that is no duplicate exactly where two
rows have one text and differ in a field. A bar in a kind or an address can do
that, and an address that is empty reads as one that is absent.
-/

namespace Explorer.Ref

open Explorer.Lib

/-- The row is one that the loop collapses. -/
def isBackfilled (row : StakeSnapshotEventRow) : Bool :=
  decide (row.payloadFormat = legacyBackfillPayloadFormat)

/-- Kind, identity and address, the absent one apart from all others. -/
def changeOf (row : StakeSnapshotEventRow) : String × String × Option String :=
  (row.kind, row.payloadIdentity, row.address)

theorem dedupFrom_eq (seen : List String) (rows : List StakeSnapshotEventRow) :
    dedupFrom seen rows = firstsFrom isBackfilled dedupKey seen rows := by
  induction rows generalizing seen with
  | nil => rfl
  | cons row rows ih =>
      rw [dedupFrom, firstsFrom_cons, ih, ih]
      refine if_congr ?_ rfl rfl
      rw [isBackfilled, decide_eq_false_iff_not]

/-- What the de-duplication should leave of some rows. -/
structure CollapsesDuplicates (rows out : List StakeSnapshotEventRow) :
    Prop where
  /-- The rows are rows of the transaction, in its order. -/
  order : out.Sublist rows
  /-- No row of another format is lost. -/
  others : (out.filter fun row => !isBackfilled row) =
    rows.filter fun row => !isBackfilled row
  /-- Position by position, a row is left out just if it is backfilled and a
  backfilled row before it has its kind, identity and address. -/
  kept : out = (List.range rows.length).filterMap fun i =>
    rows[i]?.filter fun row => !decide (Repeats isBackfilled changeOf []
      (rows.take i) row)
  /-- Collapsing them again changes nothing. -/
  again : deduplicateStakeSnapshotTxRows out = out

/-- No two backfilled rows share their text and differ. -/
def TextTells (rows : List StakeSnapshotEventRow) : Prop :=
  ∀ a ∈ rows, ∀ b ∈ rows, isBackfilled a = true → isBackfilled b = true →
    dedupKey a = dedupKey b → changeOf a = changeOf b

theorem dedupKey_of_changeOf (a b : StakeSnapshotEventRow)
    (h : changeOf a = changeOf b) : dedupKey a = dedupKey b := by
  rw [changeOf, changeOf, Prod.mk.injEq, Prod.mk.injEq] at h
  rw [dedupKey, dedupKey, h.1, h.2.1, h.2.2]

/-- Only true duplicates are collapsed exactly where the text tells the rows
apart. -/
theorem deduplicates_iff (rows : List StakeSnapshotEventRow) :
    CollapsesDuplicates rows (deduplicateStakeSnapshotTxRows rows) ↔
      TextTells rows := by
  have heq : ∀ rows, deduplicateStakeSnapshotTxRows rows =
      firstsFrom isBackfilled dedupKey [] rows := dedupFrom_eq []
  have hsame : firstsFrom isBackfilled dedupKey [] rows =
      firstsFrom isBackfilled changeOf [] rows ↔ TextTells rows :=
    firstsFrom_eq_iff dedupKey_of_changeOf rows
  have hkept : firstsFrom isBackfilled changeOf [] rows =
      firstPositions isBackfilled changeOf rows :=
    firstsFrom_eq_firstPositions
  rw [hkept] at hsame
  constructor
  · intro h
    exact hsame.mp ((heq rows).symm.trans h.kept)
  · intro h
    refine ⟨?_, ?_, (heq rows).trans (hsame.mpr h), ?_⟩
    · rw [heq]
      exact firstsFrom_sublist isBackfilled dedupKey [] rows
    · rw [heq]
      exact filter_firstsFrom isBackfilled dedupKey [] rows
    · rw [heq, heq]
      exact firstsFrom_firstsFrom (List.Subset.refl [])

/-- Kinds and addresses without a bar, and no empty address. -/
def PlainRow (row : StakeSnapshotEventRow) : Prop :=
  '|' ∉ row.kind.toList ∧
    ∀ address ∈ row.address, '|' ∉ address.toList ∧ address ≠ ""

/-- The text of plain rows tells them apart. -/
theorem textTells_of_plain {rows : List StakeSnapshotEventRow}
    (h : ∀ row ∈ rows, isBackfilled row = true → PlainRow row) :
    TextTells rows := by
  intro a ha b hb hbacka hbackb hkey
  obtain ⟨hkinda, haddressa⟩ := h a ha hbacka
  obtain ⟨hkindb, haddressb⟩ := h b hb hbackb
  have htext : ∀ row : StakeSnapshotEventRow, (dedupKey row).toList =
      row.kind.toList ++ '|' :: (row.payloadIdentity.toList ++
        '|' :: (row.address.getD "").toList) := by
    intro row
    simp [dedupKey]
  have hbar : ∀ {address : Option String},
      (∀ text ∈ address, '|' ∉ text.toList ∧ text ≠ "") →
        '|' ∉ (address.getD "").toList := by
    intro address hplain
    cases address with
    | none => exact List.not_mem_nil
    | some text => exact (hplain text rfl).1
  have hlists := congrArg String.toList hkey
  rw [htext, htext] at hlists
  obtain ⟨hkind, hrest⟩ := append_cons_inj hkinda hkindb hlists
  -- the last bar is the one before the address, so read from the end
  have hreversed := congrArg List.reverse hrest
  rw [List.reverse_append, List.reverse_append, List.reverse_cons,
    List.reverse_cons, List.append_assoc, List.append_assoc,
    List.singleton_append, List.singleton_append] at hreversed
  obtain ⟨haddress, hidentity⟩ := append_cons_inj
    (fun hmem => hbar haddressa (List.mem_reverse.mp hmem))
    (fun hmem => hbar haddressb (List.mem_reverse.mp hmem)) hreversed
  have haddress := String.toList_inj.mp (List.reverse_injective haddress)
  have hidentity := String.toList_inj.mp (List.reverse_injective hidentity)
  rw [changeOf, changeOf, String.toList_inj.mp hkind, hidentity]
  congr 2
  cases haddr : a.address with
  | none =>
      cases haddr' : b.address with
      | none => rfl
      | some text =>
          rw [haddr, haddr'] at haddress
          exact absurd haddress.symm (haddressb text haddr').2
  | some text =>
      cases haddr' : b.address with
      | none =>
          rw [haddr, haddr'] at haddress
          exact absurd haddress (haddressa text haddr).2
      | some text' =>
          rw [haddr, haddr'] at haddress
          exact congrArg some haddress

/-- A backfilled stake of an address. -/
def backfilledStake (eventId : Int) (address : Option String) :
    StakeSnapshotEventRow where
  eventId := eventId
  txId := 1
  kind := "TokenStake"
  timestampUnixSeconds := 0
  payloadIdentity := "payload"
  payloadFormat := 1
  tokenSymbol := some "SOUL"
  valueRaw := some 5
  address := address
  marketQuoteSymbol := none
  txHasStakeCall := true
  txHasUnstakeCall := false
  txHasClaimCall := false
  txApplyInflationResultSoulDeltaRaw := none

/-- The row of the empty address is lost behind the row of none. -/
theorem deduplicates_loses_row :
    deduplicateStakeSnapshotTxRows
      [backfilledStake 0 none, backfilledStake 1 (some "")] =
        [backfilledStake 0 none] ∧
    ¬CollapsesDuplicates
      [backfilledStake 0 none, backfilledStake 1 (some "")]
      (deduplicateStakeSnapshotTxRows
        [backfilledStake 0 none, backfilledStake 1 (some "")]) := by
  refine ⟨by decide +kernel, fun h => ?_⟩
  exact absurd h.kept (by decide +kernel)

end Explorer.Ref
