import Explorer.Ref.Memberships
import Explorer.Proofs.DirtyBalances

/-!
# The memberships of a clean address are those of its stake

A stake is stored in one transaction and the memberships follow in another,
and between the two the pass may be dropped. What holds the two together is the
stamp: a stake is stored only for an address that is stamped, and the one
statement that clears a stamp stands behind the reconciliation of the same
addresses. So an address without a stamp has the memberships of the stake in
its row, whatever came in between.
-/

namespace Explorer.Ref

open Explorer.Lib

/-! ## The reconciliation -/

theorem mem_insertMemberships {desired memberships : List Membership}
    {m : Membership} :
    m ∈ insertMemberships desired memberships ↔
      m ∈ memberships ∨ m ∈ desired := by
  induction desired generalizing memberships with
  | nil => simp [insertMemberships]
  | cons d desired ih =>
      rw [insertMemberships, List.foldl_cons, ← insertMemberships, ih,
        List.mem_cons]
      split
      · next hd =>
          refine ⟨fun h => h.imp_right .inr, ?_⟩
          rintro (h | rfl | h)
          · exact .inl h
          · exact .inl hd
          · exact .inr h
      · rw [List.mem_append, List.mem_singleton, or_assoc]

theorem insertMemberships_nodup {desired memberships : List Membership}
    (h : memberships.Nodup) :
    (insertMemberships desired memberships).Nodup := by
  induction desired generalizing memberships with
  | nil => exact h
  | cons d desired ih =>
      rw [insertMemberships, List.foldl_cons, ← insertMemberships]
      refine ih ?_
      split
      · exact h
      · next hd =>
          rw [← List.concat_eq_append]
          exact h.concat hd

/-- The organization follows the stake. -/
def OrganizationRow.follows (org : OrganizationRow) : Prop :=
  org.name = "stakers" ∨ org.name = "masters"

/-- The address belongs to the organization, by its stake. -/
def OrganizationRow.Takes (org : OrganizationRow) (stakedRaw : Nat) : Prop :=
  (org.name = "stakers" ∧ 0 < stakedRaw) ∨
    (org.name = "masters" ∧ masterStakeRaw ≤ stakedRaw)

instance (org : OrganizationRow) : Decidable org.follows :=
  inferInstanceAs (Decidable (_ ∨ _))

instance (org : OrganizationRow) (stakedRaw : Nat) :
    Decidable (org.Takes stakedRaw) :=
  inferInstanceAs (Decidable (_ ∨ _))

theorem mem_desiredMemberships {organizations : List OrganizationRow}
    {rows : List AddressRow} {m : Membership} :
    m ∈ desiredMemberships organizations rows ↔
      ∃ r ∈ rows, ∃ org ∈ organizations, org.Takes r.stakedAmountRaw ∧
        m = ⟨org.id, r.address⟩ := by
  unfold desiredMemberships OrganizationRow.Takes
  simp only [List.mem_append, List.mem_flatMap, List.mem_map, List.mem_filter,
    decide_eq_true_eq, beq_iff_eq]
  constructor
  · rintro (⟨r, ⟨hr, hstake⟩, org, ⟨horg, hname⟩, rfl⟩ |
      ⟨r, ⟨hr, hstake⟩, org, ⟨horg, hname⟩, rfl⟩)
    · exact ⟨r, hr, org, horg, .inl ⟨hname, hstake⟩, rfl⟩
    · exact ⟨r, hr, org, horg, .inr ⟨hname, hstake⟩, rfl⟩
  · rintro ⟨r, hr, org, horg, ⟨hname, hstake⟩ | ⟨hname, hstake⟩, rfl⟩
    · exact .inl ⟨r, ⟨hr, hstake⟩, org, ⟨horg, hname⟩, rfl⟩
    · exact .inr ⟨r, ⟨hr, hstake⟩, org, ⟨horg, hname⟩, rfl⟩

theorem OrganizationRow.lapsed_iff {org : OrganizationRow} {stakedRaw : Nat} :
    org.lapsed stakedRaw = true ↔ org.follows ∧ ¬org.Takes stakedRaw := by
  unfold lapsed follows Takes
  have hne : "stakers" ≠ "masters" := by decide
  simp only [Bool.or_eq_true, Bool.and_eq_true, beq_iff_eq, decide_eq_true_eq]
  by_cases hstakers : org.name = "stakers"
  · simp [hstakers]
  · by_cases hmasters : org.name = "masters"
    · simp [hmasters]
    · simp [hstakers, hmasters]

section reconcile

variable {organizations : List OrganizationRow} {addresses : List String}
  {rows : List AddressRow} {memberships : List Membership}

theorem reconcile_nodup (h : memberships.Nodup) :
    (reconcileStakeMemberships organizations addresses rows
      memberships).Nodup := by
  unfold reconcileStakeMemberships
  split
  · exact h
  · exact insertMemberships_nodup (h.filter _)

/-- Nobody becomes a member who has no row. -/
theorem mem_of_mem_reconcile {m : Membership}
    (h : m ∈ reconcileStakeMemberships organizations addresses rows
      memberships) :
    m ∈ memberships ∨ (∃ r ∈ rows, r.address = m.address) ∧
      ∃ org ∈ organizations, org.id = m.organizationId ∧ org.follows := by
  unfold reconcileStakeMemberships at h
  split at h
  · exact .inl h
  · rcases mem_insertMemberships.mp h with h | h
    · exact .inl (List.mem_filter.mp h).1
    · obtain ⟨r, hr, org, horg, htakes, rfl⟩ := mem_desiredMemberships.mp h
      exact .inr ⟨⟨r, (List.mem_filter.mp hr).1, rfl⟩, org, horg, rfl,
        htakes.imp And.left And.left⟩

/-- The memberships of other organizations stay. -/
theorem mem_reconcile_of_mem {m : Membership} (hm : m ∈ memberships)
    (hother : ∀ org ∈ organizations, org.id = m.organizationId →
      ¬org.follows) :
    m ∈ reconcileStakeMemberships organizations addresses rows
      memberships := by
  unfold reconcileStakeMemberships
  split
  · exact hm
  · refine mem_insertMemberships.mpr (.inl (List.mem_filter.mpr ⟨hm, ?_⟩))
    rw [Bool.not_eq_true', ← Bool.not_eq_true]
    intro hany
    obtain ⟨r, -, h⟩ := List.any_eq_true.mp hany
    obtain ⟨org, horg, h⟩ :=
      List.any_eq_true.mp (Bool.and_eq_true_iff.mp h).2
    obtain ⟨hid, hlapsed⟩ := Bool.and_eq_true_iff.mp h
    exact hother org horg (beq_iff_eq.mp hid).symm
      (OrganizationRow.lapsed_iff.mp hlapsed).1

/-- For an address in scope, and no other, it decides the memberships of the
organizations that follow the stake. -/
theorem mem_reconcile (hids : (organizations.map OrganizationRow.id).Nodup)
    (hrows : (rows.map AddressRow.address).Nodup) {r : AddressRow}
    (hr : r ∈ rows) {org : OrganizationRow} (horg : org ∈ organizations) :
    (⟨org.id, r.address⟩ : Membership) ∈ reconcileStakeMemberships
        organizations addresses rows memberships ↔
      if r.address ∈ addresses ∧ org.follows then org.Takes r.stakedAmountRaw
      else ⟨org.id, r.address⟩ ∈ memberships := by
  -- the row of the address, and the organization of the id
  have hrow : ∀ r' ∈ rows, r'.address = r.address → r' = r := fun r' hr' h =>
    List.inj_on_of_nodup_map hrows hr' hr h
  have hone : ∀ org' ∈ organizations, org'.id = org.id → org' = org :=
    fun org' horg' h => List.inj_on_of_nodup_map hids horg' horg h
  unfold reconcileStakeMemberships
  split
  · next hempty =>
      rw [List.isEmpty_iff.mp hempty]
      rw [if_neg fun h => absurd h.1 List.not_mem_nil]
  · have hscope : r ∈ scopedRows addresses rows ↔ r.address ∈ addresses := by
      simp [scopedRows, hr]
    have hdesired : (⟨org.id, r.address⟩ : Membership) ∈
        desiredMemberships organizations (scopedRows addresses rows) ↔
          r.address ∈ addresses ∧ org.Takes r.stakedAmountRaw := by
      rw [mem_desiredMemberships, ← hscope]
      constructor
      · rintro ⟨r', hr', org', horg', htakes, heq⟩
        injection heq with hid haddress
        have hr'' : r' = r := hrow r' (List.mem_filter.mp hr').1 haddress.symm
        have horg'' : org' = org := hone org' horg' hid.symm
        subst hr'' horg''
        exact ⟨hr', htakes⟩
      · rintro ⟨hr', htakes⟩
        exact ⟨r, hr', org, horg, htakes, rfl⟩
    have hlapsed : ((scopedRows addresses rows).any fun r' =>
        r.address == r'.address && organizations.any fun org' =>
          org.id == org'.id && org'.lapsed r'.stakedAmountRaw) = true ↔
        r.address ∈ addresses ∧ org.follows ∧
          ¬org.Takes r.stakedAmountRaw := by
      rw [← hscope, ← OrganizationRow.lapsed_iff, List.any_eq_true]
      constructor
      · rintro ⟨r', hr', h⟩
        obtain ⟨haddress, h⟩ := Bool.and_eq_true_iff.mp h
        obtain ⟨org', horg', h⟩ := List.any_eq_true.mp h
        obtain ⟨hid, hlapsed⟩ := Bool.and_eq_true_iff.mp h
        have hr'' : r' = r := hrow r' (List.mem_filter.mp hr').1
          (beq_iff_eq.mp haddress).symm
        have horg'' : org' = org := hone org' horg' (beq_iff_eq.mp hid).symm
        subst hr'' horg''
        exact ⟨hr', hlapsed⟩
      · rintro ⟨hr', hlapsed⟩
        refine ⟨r, hr', ?_⟩
        rw [beq_self_eq_true, Bool.true_and, List.any_eq_true]
        refine ⟨org, horg, ?_⟩
        rw [beq_self_eq_true, Bool.true_and]
        exact hlapsed
    rw [mem_insertMemberships, hdesired, List.mem_filter, Bool.not_eq_true',
      ← Bool.not_eq_true, hlapsed]
    have hfollows : org.Takes r.stakedAmountRaw → org.follows := fun h =>
      h.imp And.left And.left
    split
    · next hin =>
        constructor
        · rintro (⟨-, hkept⟩ | ⟨-, htakes⟩)
          · exact Decidable.byContradiction fun h => hkept ⟨hin.1, hin.2, h⟩
          · exact htakes
        · intro htakes
          exact .inr ⟨hin.1, htakes⟩
    · next hout =>
        constructor
        · rintro (⟨hold, -⟩ | ⟨hin, htakes⟩)
          · exact hold
          · exact absurd ⟨hin, hfollows htakes⟩ hout
        · intro hold
          exact .inl ⟨hold, fun h => hout ⟨h.1, h.2.1⟩⟩

end reconcile

/-! ## Rows without a stamp -/

variable {acts : List BalanceAct} {once : Prop} {s s' : BalanceSync}

/-- Where a row without a stamp comes from: from one with the same stake, which
had none either or was cleared with the addresses of the pass, or it is new. -/
inductive CleanFrom (s : BalanceSync) (a : BalanceAct) (r' : AddressRow) :
    Prop
  | kept (r : AddressRow) : r ∈ s.rows → r'.address = r.address →
      r'.stakedAmountRaw = r.stakedAmountRaw → r.balanceDirtyBlock = 0 →
      CleanFrom s a r'
  | cleared (r : AddressRow) (p : BalancePass) (tokens : List String)
      (updated : List DirtyAddress) : a = .reset → r ∈ s.rows →
      r'.address = r.address → r'.stakedAmountRaw = r.stakedAmountRaw →
      s.pass = some p → p.phase = .stored tokens updated →
      (∃ d ∈ updated, d.address = r.address) → CleanFrom s a r'
  | fresh : (∀ r ∈ s.rows, r.address ≠ r'.address) →
      r'.stakedAmountRaw = 0 → CleanFrom s a r'

theorem cleanFrom_self {a : BalanceAct} {r : AddressRow} (hr : r ∈ s.rows)
    (hzero : r.balanceDirtyBlock = 0) : CleanFrom s a r :=
  .kept r hr rfl rfl hzero

/-- A statement that only raises stamps. -/
theorem cleanFrom_of_map {a : BalanceAct} {f : AddressRow → AddressRow}
    (haddress : ∀ r, (f r).address = r.address)
    (hstake : ∀ r, (f r).stakedAmountRaw = r.stakedAmountRaw)
    (hle : ∀ r, r.balanceDirtyBlock ≤ (f r).balanceDirtyBlock)
    {rows : List AddressRow} (hrows : ∀ r ∈ rows, r.balanceDirtyBlock = 0 →
      CleanFrom s a r) {r' : AddressRow} (hr' : r' ∈ rows.map f)
    (hzero : r'.balanceDirtyBlock = 0) : CleanFrom s a r' := by
  obtain ⟨r, hr, rfl⟩ := List.mem_map.mp hr'
  have := hle r
  have hfrom := hrows r hr (by omega)
  cases hfrom with
  | kept r₀ h1 h2 h3 h4 =>
      exact .kept r₀ h1 ((haddress r).trans h2) ((hstake r).trans h3) h4
  | cleared r₀ p tokens updated h h1 h2 h3 h4 h5 h6 =>
      exact .cleared r₀ p tokens updated h h1 ((haddress r).trans h2)
        ((hstake r).trans h3) h4 h5 h6
  | fresh h1 h2 =>
      exact .fresh (by rw [haddress]; exact h1) ((hstake r).trans h2)

theorem cleanFrom_commit (hok : BalancesOk acts once s) {a : BalanceAct}
    (height : Nat) (touched : List String) {r' : AddressRow}
    (hr' : r' ∈ (s.commit height touched).rows)
    (hzero : r'.balanceDirtyBlock = 0) : CleanFrom s a r' := by
  have hraises := markBlock_raises touched height
  obtain ⟨new, heq, hnew, hnodup, -⟩ := insertAddresses_spec touched s.rows
  refine cleanFrom_of_map hraises.address ?_ hraises.le ?_ hr' hzero
  · intro r
    split <;> rfl
  · intro r hr hzero
    rw [heq] at hr
    have hdistinct := hnodup hok.distinct
    rcases List.mem_append.mp hr with hr | hr
    · exact cleanFrom_self hr hzero
    · refine .fresh (fun r₀ hr₀ h => ?_) (by rw [hnew r hr])
      rw [List.map_append, List.nodup_append] at hdistinct
      exact hdistinct.2.2 _ (List.mem_map_of_mem hr₀) _
        (List.mem_map_of_mem hr) h

theorem cleanFrom_step (hok : BalancesOk acts once s) {a : BalanceAct}
    (h : BalanceStep s a s') {r' : AddressRow} (hr' : r' ∈ s'.rows)
    (hzero : r'.balanceDirtyBlock = 0) : CleanFrom s a r' := by
  cases balanceStep_moves h with
  | @block height touched hlt =>
      exact cleanFrom_commit hok height touched hr' hzero
  | @reproject height touched hpos hle =>
      exact cleanFrom_commit hok height touched hr' hzero
  | markAll =>
      have hraises := markAll_raises s.tip
      refine cleanFrom_of_map hraises.address ?_ hraises.le
        (fun r hr => cleanFrom_self hr) hr' hzero
      intro r
      split <;> rfl
  | @begin rpcTip =>
      rw [s.begin_rows rpcTip] at hr'
      exact cleanFrom_self hr' hzero
  | pass hpass => exact cleanFrom_self hr' hzero
  | @persist p tokens now hp =>
      have hpass := hok.pass p hp
      have hdone := persisted tokens now p.dirtyAddresses p.accounts s.rows
      obtain ⟨r₀, hr₀, ha, hflag, rfl | ⟨d, hd, hda⟩⟩ := hdone.eachRow r' hr'
      · exact cleanFrom_self hr₀ hzero
      · -- what is stored is of the batch, and stamped
        have hstamp := (hpass.stamps d hd r₀ hr₀ (ha.symm.trans hda.symm)).1
        have hpos := (hpass.batch d hd).2.1
        omega
  | @reset p tokens updated hp hphase =>
      obtain ⟨r, hr, rfl⟩ := List.mem_map.mp hr'
      split at hzero
      · next hany =>
          rw [if_pos hany]
          obtain ⟨d, hd, hmatch⟩ := List.any_eq_true.mp hany
          rw [Bool.and_eq_true_iff, beq_iff_eq] at hmatch
          exact .cleared r p tokens updated rfl hr rfl rfl hp hphase
            ⟨d, hd, hmatch.1⟩
      · next hany =>
          rw [if_neg hany]
          exact cleanFrom_self hr hzero

/-- Rows are not deleted. -/
theorem address_kept {a : BalanceAct} (h : BalanceStep s a s')
    {r : AddressRow} (hr : r ∈ s.rows) :
    ∃ r' ∈ s'.rows, r'.address = r.address := by
  have hmap : ∀ {f : AddressRow → AddressRow} {rows : List AddressRow},
      (∀ r, (f r).address = r.address) → r ∈ rows →
      ∃ r' ∈ rows.map f, r'.address = r.address := fun haddress hr =>
    ⟨_, List.mem_map_of_mem hr, haddress r⟩
  have hcommit : ∀ height touched, ∃ r' ∈ (s.commit height touched).rows,
      r'.address = r.address := by
    intro height touched
    obtain ⟨new, heq, -, -, -⟩ := insertAddresses_spec touched s.rows
    refine hmap (markBlock_raises touched height).address ?_
    rw [heq]
    exact List.mem_append_left _ hr
  cases balanceStep_moves h with
  | @block height touched hlt => exact hcommit height touched
  | @reproject height touched hpos hle => exact hcommit height touched
  | markAll => exact hmap (markAll_raises s.tip).address hr
  | @begin rpcTip =>
      rw [s.begin_rows rpcTip]
      exact ⟨r, hr, rfl⟩
  | pass hpass => exact ⟨r, hr, rfl⟩
  | @persist p tokens now hp =>
      have hsame :=
        (persisted tokens now p.dirtyAddresses p.accounts s.rows).addresses
      have hmem : r.address ∈ s.rows.map AddressRow.address :=
        List.mem_map_of_mem hr
      rw [← hsame] at hmem
      exact List.mem_map.mp hmem
  | reset hp hphase =>
      refine hmap (fun r => ?_) hr
      split <;> rfl

/-! ## The invariant -/

/-- The invariant of the sync with the memberships. -/
structure MembersOk (organizations : List OrganizationRow)
    (acts : List BalanceAct) (m : MemberSync) : Prop where
  sync : BalancesOk acts False m.sync
  nodup : m.memberships.Nodup
  rows : ∀ x ∈ m.memberships, ∃ r ∈ m.sync.rows, r.address = x.address
  clean : ∀ r ∈ m.sync.rows, r.balanceDirtyBlock = 0 →
    ∀ org ∈ organizations, org.follows →
      (⟨org.id, r.address⟩ ∈ m.memberships ↔ org.Takes r.stakedAmountRaw)

variable {organizations : List OrganizationRow} {m m' : MemberSync}

/-- The memberships after a step: as before, or reconciled with the addresses
of the pass. -/
theorem memberStep_cases {a : BalanceAct}
    (h : MemberStep organizations m a m') :
    BalanceStep m.sync a m'.sync ∧
      ((m'.memberships = m.memberships ∧ ∀ p tokens updated, a = .reset →
          m.sync.pass = some p → p.phase ≠ .stored tokens updated) ∨
        ∃ p tokens updated, m.sync.pass = some p ∧
          p.phase = .stored tokens updated ∧
          m'.memberships = reconcileStakeMemberships organizations
            (updated.map DirtyAddress.address) m.sync.rows m.memberships) := by
  unfold MemberStep memberStep at h
  obtain ⟨sync, hstep, rfl⟩ := Option.map_eq_some_iff.mp h
  refine ⟨hstep, ?_⟩
  split
  · next p tokens updated hp => exact .inr ⟨_, _, _, hp, rfl, rfl⟩
  · next hno =>
      refine .inl ⟨rfl, fun p tokens updated ha hp hphase => ?_⟩
      obtain ⟨phase, d, i, acc, tip⟩ := p
      cases hphase
      exact hno tokens updated d i acc tip ha hp

theorem MembersOk.step (hids : (organizations.map OrganizationRow.id).Nodup)
    (hok : MembersOk organizations acts m) {a : BalanceAct} (ha : a ∈ acts)
    (h : MemberStep organizations m a m') :
    MembersOk organizations acts m' := by
  obtain ⟨hstep, hmemberships⟩ := memberStep_cases h
  have hrow : ∀ x ∈ m'.memberships, ∃ r ∈ m.sync.rows,
      r.address = x.address := by
    intro x hx
    rcases hmemberships with ⟨hsame, -⟩ | ⟨_, _, _, -, -, hnew⟩
    · exact hok.rows x (hsame ▸ hx)
    · rcases mem_of_mem_reconcile (hnew ▸ hx) with hold | ⟨hr, -⟩
      · exact hok.rows x hold
      · exact hr
  -- a row that had no stamp, or that the pass answers for
  have hold : ∀ r ∈ m.sync.rows, ∀ org ∈ organizations, org.follows →
      (r.balanceDirtyBlock = 0 ∨ ∃ p tokens updated, a = .reset ∧
        m.sync.pass = some p ∧ p.phase = .stored tokens updated ∧
        ∃ d ∈ updated, d.address = r.address) →
      (⟨org.id, r.address⟩ ∈ m'.memberships ↔
        org.Takes r.stakedAmountRaw) := by
    intro r hr org horg hfollows hwhy
    rcases hmemberships with ⟨hsame, hnot⟩ | ⟨p, tokens, updated, hp, hphase,
        hnew⟩
    · rw [hsame]
      rcases hwhy with hzero | ⟨p, tokens, updated, ha, hp, hphase, -⟩
      · exact hok.clean r hr hzero org horg hfollows
      · exact absurd hphase (hnot p tokens updated ha hp)
    · rw [hnew, mem_reconcile hids hok.sync.distinct hr horg]
      split
      · exact Iff.rfl
      · next hout =>
          rcases hwhy with hzero | ⟨q, tokens', updated', -, hq, hphase', d,
              hd, hda⟩
          · exact hok.clean r hr hzero org horg hfollows
          · rw [hp] at hq
            cases hq
            rw [hphase] at hphase'
            cases hphase'
            exact absurd ⟨List.mem_map.mpr ⟨d, hd, hda⟩, hfollows⟩ hout
  refine ⟨hok.sync.step ha (fun h => h.elim) hstep, ?_, ?_, ?_⟩
  · rcases hmemberships with ⟨hsame, -⟩ | ⟨_, _, _, -, -, hnew⟩
    · rw [hsame]
      exact hok.nodup
    · rw [hnew]
      exact reconcile_nodup hok.nodup
  · intro x hx
    obtain ⟨r, hr, hra⟩ := hrow x hx
    obtain ⟨r', hr', hra'⟩ := address_kept hstep hr
    exact ⟨r', hr', hra'.trans hra⟩
  · intro r' hr' hzero org horg hfollows
    cases cleanFrom_step hok.sync hstep hr' hzero with
    | kept r hr ha hstake hzero' =>
        rw [ha, hstake]
        exact hold r hr org horg hfollows (.inl hzero')
    | cleared r p tokens updated hreset hr ha hstake hp hphase hd =>
        rw [ha, hstake]
        exact hold r hr org horg hfollows
          (.inr ⟨p, tokens, updated, hreset, hp, hphase, hd⟩)
    | fresh hnone hstake =>
        refine iff_of_false (fun hmem => ?_) (fun htakes => ?_)
        · obtain ⟨r, hr, hra⟩ := hrow _ hmem
          exact hnone r hr hra
        · have : masterStakeRaw = 5000000000000 := rfl
          rcases htakes with ⟨-, hlt⟩ | ⟨-, hle⟩ <;> omega

/-- A database in which whoever has no stamp has the memberships of the stake
in the row. -/
structure MembersStart (organizations : List OrganizationRow)
    (m : MemberSync) : Prop where
  sync : BalancesStart m.sync
  nodup : m.memberships.Nodup
  rows : ∀ x ∈ m.memberships, ∃ r ∈ m.sync.rows, r.address = x.address
  clean : ∀ r ∈ m.sync.rows, r.balanceDirtyBlock = 0 →
    ∀ org ∈ organizations, org.follows →
      (⟨org.id, r.address⟩ ∈ m.memberships ↔ org.Takes r.stakedAmountRaw)

theorem MembersStart.ok (h : MembersStart organizations m) :
    MembersOk organizations acts m :=
  ⟨h.sync.ok, h.nodup, h.rows, h.clean⟩

/-- In every order of blocks, reprojections and steps of the pass, dropped
anywhere: an address without a stamp is a staker if and only if the stake in
its row is positive and a master if and only if it is at least 50000 SOUL, and
for every block that touched it this stake is the one of an account that the
node answered with in the run, from a state no earlier than the block. No
membership is there twice, and those of other organizations are as they
were. -/
theorem memberships_follow_stakes
    (hids : (organizations.map OrganizationRow.id).Nodup)
    {m₀ : MemberSync} {acts : List BalanceAct}
    (hstart : MembersStart organizations m₀)
    (hrun : Steps (MemberStep organizations) m₀ acts m) :
    (∀ r ∈ m.sync.rows, r.balanceDirtyBlock = 0 →
      (∀ org ∈ organizations,
        (org.name = "stakers" → (⟨org.id, r.address⟩ ∈ m.memberships ↔
          0 < r.stakedAmountRaw)) ∧
        (org.name = "masters" → (⟨org.id, r.address⟩ ∈ m.memberships ↔
          5000000000000 ≤ r.stakedAmountRaw))) ∧
      (r.address ≠ "NULL" → ∀ h, (r.address, h) ∈ m.sync.touches →
        ∃ info, .account info ∈ acts ∧ info.address = r.address ∧
          h ≤ info.read ∧ r.stakedAmountRaw = info.stakeAmount)) ∧
    m.memberships.Nodup ∧
    ∀ x : Membership, (∀ org ∈ organizations, org.id = x.organizationId →
        org.name ≠ "stakers" ∧ org.name ≠ "masters") →
      (x ∈ m.memberships ↔ x ∈ m₀.memberships) := by
  have hok : MembersOk organizations acts m := by
    refine hrun.invariant_prefix (I := fun _ => MembersOk organizations acts)
      ?_ hstart.ok
    intro pre a post m₁ m₂ heq _ hok h
    refine hok.step hids ?_ h
    rw [heq]
    exact List.mem_append_right _ List.mem_cons_self
  refine ⟨fun r hr hzero => ⟨fun org horg => ⟨fun hname => ?_, fun hname => ?_⟩,
    fun hne h hx => ?_⟩, hok.nodup, fun x hother => ?_⟩
  · rw [hok.clean r hr hzero org horg (.inl hname), OrganizationRow.Takes,
      hname]
    simp
  · rw [hok.clean r hr hzero org horg (.inr hname), OrganizationRow.Takes,
      hname]
    simp [masterStakeRaw]
  · obtain ⟨account, _, _, ⟨hinfo, -⟩, -, hread, -, hshows, -⟩ :=
      hok.sync.clean r hr hne hzero h hx
    exact ⟨account.info, hinfo, hshows.address.symm, hread,
      hshows.stakedAmountRaw⟩
  · have hnot : ∀ org ∈ organizations, org.id = x.organizationId →
        ¬org.follows := fun org horg hid h =>
      h.elim (hother org horg hid).1 (hother org horg hid).2
    refine hrun.invariant (I := fun m' =>
      x ∈ m'.memberships ↔ x ∈ m₀.memberships) ?_ Iff.rfl
    intro m₁ a m₂ hsame h
    rw [← hsame]
    rcases (memberStep_cases h).2 with ⟨heq, -⟩ | ⟨_, _, _, -, -, hnew⟩
    · rw [heq]
    · rw [hnew]
      constructor
      · intro hx
        rcases mem_of_mem_reconcile hx with hx | ⟨-, org, horg, hid, hfollows⟩
        · exact hx
        · exact absurd hfollows (hnot org horg hid)
      · intro hx
        exact mem_reconcile_of_mem hx hnot

/-- Two addresses of one block, a stake each, and a block in between. -/
theorem memberships_overlapping_block :
    ∃ m, Steps (MemberStep [⟨1, "stakers"⟩, ⟨2, "masters"⟩])
        ⟨emptyBalances, []⟩ overlappingActs m ∧
      m.sync.rows.map (fun r => (r.address, r.balanceDirtyBlock)) =
        [("P1", 6422528), ("P2", 0)] ∧
      m.memberships = [⟨1, "P1"⟩, ⟨1, "P2"⟩] ∧ m.memberships.Nodup ∧
      ∀ r ∈ m.sync.rows, r.balanceDirtyBlock = 0 →
        ((⟨1, r.address⟩ : Membership) ∈ m.memberships ↔
          0 < r.stakedAmountRaw) ∧
        (r.address ≠ "NULL" → ∀ h, (r.address, h) ∈ m.sync.touches →
          ∃ info, .account info ∈ overlappingActs ∧
            info.address = r.address ∧ h ≤ info.read ∧
            r.stakedAmountRaw = info.stakeAmount) := by
  have hend : (runSteps (memberStep [⟨1, "stakers"⟩, ⟨2, "masters"⟩])
      ⟨emptyBalances, []⟩ overlappingActs).map (fun m =>
        (m.sync.rows.map fun r => (r.address, r.balanceDirtyBlock),
          m.memberships)) =
      some ([("P1", 6422528), ("P2", 0)], [⟨1, "P1"⟩, ⟨1, "P2"⟩]) := by
    decide +kernel
  obtain ⟨m, hm, hrows⟩ := Option.map_eq_some_iff.mp hend
  have hrun : Steps (MemberStep [⟨1, "stakers"⟩, ⟨2, "masters"⟩])
      ⟨emptyBalances, []⟩ overlappingActs m := steps_of_runSteps hm
  have hstart : MembersStart [⟨1, "stakers"⟩, ⟨2, "masters"⟩]
      ⟨emptyBalances, []⟩ := by
    refine ⟨⟨List.nodup_nil, ?_, rfl, rfl⟩, List.nodup_nil, ?_, ?_⟩
    · intro r hr
      cases hr
    · intro x hx
      cases hx
    · intro r hr
      cases hr
  obtain ⟨hclean, hnodup, -⟩ :=
    memberships_follow_stakes (by decide) hstart hrun
  refine ⟨m, hrun, congrArg Prod.fst hrows, congrArg Prod.snd hrows, hnodup,
    fun r hr hzero => ?_⟩
  obtain ⟨hmember, hstake⟩ := hclean r hr hzero
  exact ⟨(hmember ⟨1, "stakers"⟩ List.mem_cons_self).1 rfl, hstake⟩

end Explorer.Ref
