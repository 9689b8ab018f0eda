import Explorer.Ref.Balances

/-!
# Who is a staker and who is a master (`reconcile_stake_memberships`)

The rows of `organization_addresses` for the organizations `stakers` and
`masters` follow the stake of the addresses. Nothing but the balance sync
writes them, in the transaction that clears the stamps; the organizations
themselves are not written by this program. An address stands for its id.
-/

namespace Explorer.Ref

structure OrganizationRow where
  id : Nat
  name : String
  deriving DecidableEq

/-- A row of `organization_addresses`. -/
structure Membership where
  organizationId : Nat
  address : String
  deriving DecidableEq

/-- What a master has to have staked. -/
def masterStakeRaw : Nat := 5000000000000

/-- `scoped`. -/
def scopedRows (addresses : List String) (rows : List AddressRow) :
    List AddressRow :=
  rows.filter fun r => addresses.contains r.address

/-- The condition of the `DELETE`. -/
def OrganizationRow.lapsed (org : OrganizationRow) (stakedRaw : Nat) : Bool :=
  (org.name == "stakers" && decide (stakedRaw ≤ 0)) ||
    (org.name == "masters" && decide (stakedRaw < masterStakeRaw))

/-- `desired`. -/
def desiredMemberships (organizations : List OrganizationRow)
    (inScope : List AddressRow) : List Membership :=
  let joined (name : String) (rows : List AddressRow) : List Membership :=
    rows.flatMap fun r =>
      (organizations.filter fun org => org.name == name).map fun org =>
        ⟨org.id, r.address⟩
  joined "stakers" (inScope.filter fun r => decide (0 < r.stakedAmountRaw)) ++
    joined "masters" (inScope.filter fun r =>
      decide (masterStakeRaw ≤ r.stakedAmountRaw))

/-- `ON CONFLICT (organization_id, address_id) DO NOTHING`. -/
def insertMemberships (desired memberships : List Membership) :
    List Membership :=
  desired.foldl (fun ms m => if m ∈ ms then ms else ms ++ [m]) memberships

/-- `reconcile_stake_memberships`. -/
def reconcileStakeMemberships (organizations : List OrganizationRow)
    (addresses : List String) (rows : List AddressRow)
    (memberships : List Membership) : List Membership :=
  if addresses.isEmpty then memberships
  else
    let inScope := scopedRows addresses rows
    insertMemberships (desiredMemberships organizations inScope)
      (memberships.filter fun m =>
        !inScope.any fun r => m.address == r.address &&
          organizations.any fun org =>
            m.organizationId == org.id && org.lapsed r.stakedAmountRaw)

/-- The balance sync with the memberships. -/
structure MemberSync where
  sync : BalanceSync
  memberships : List Membership

/-- One step: the transaction that clears the stamps reconciles first, and no
other step writes a membership. -/
def memberStep (organizations : List OrganizationRow) (s : MemberSync)
    (a : BalanceAct) : Option MemberSync :=
  (balanceStep s.sync a).map fun sync =>
    { sync := sync
      memberships :=
        match a, s.sync.pass with
        | .reset, some { phase := .stored _ updated, .. } =>
            reconcileStakeMemberships organizations
              (updated.map DirtyAddress.address) s.sync.rows s.memberships
        | _, _ => s.memberships }

def MemberStep (organizations : List OrganizationRow) (s : MemberSync)
    (a : BalanceAct) (s' : MemberSync) : Prop :=
  memberStep organizations s a = some s'

end Explorer.Ref
