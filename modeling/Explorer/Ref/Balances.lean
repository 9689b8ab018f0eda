import Explorer.Lib.Tables
import Explorer.Ref.Pipeline
import Explorer.Ref.Rust
import Mathlib.Data.List.Sort

/-!
# The dirty-balance sync (`crates/db/src/lib.rs`, `crates/ingestion/src/driver.rs`)

A block that commits stamps the addresses it touches with its height in
`balance_dirty_block`. `sync_dirty_balances_once` takes a batch of stamped
addresses, reads the account and then the balances of each from the node,
stores what it read, and clears the stamps it took, each only if it still has
the value it had in the batch. The pass holds no lock and no transaction in
between, so blocks commit, and older ones are projected again, between any two
of its statements, and it may be dropped at any point.

The system here is the addresses' rows, the highest committed height and the
pass. Its steps are the transactions of both sides and the node's answers; a
read that fails is a read that does not happen. The node's answer to an
account or balance request carries the height of the state it was read from:
for a balance walk over several pages, that of the first. That height, which no
row keeps, and the list of touches are history and not in the source.

Amounts are decimal texts in the source and `Nat` here, and blocks are
numbered from one.
-/

namespace Explorer.Ref

/-! ## Rows -/

structure TokenBalance where
  symbol : String
  amountRaw : Nat
  deriving Repr, DecidableEq

structure AddressRow where
  address : String
  balanceDirtyBlock : Nat := 0
  addressName : Option String := none
  nameLastUpdatedUnixSeconds : Nat := 0
  stakeTimestamp : Nat := 0
  stakedAmountRaw : Nat := 0
  unclaimedAmountRaw : Nat := 0
  totalSoulAmount : Nat := 0
  balances : List TokenBalance := []
  deriving Repr, DecidableEq

/-- `mark_block_addresses_dirty`. -/
def markBlockAddressesDirty (touched : List String) (height : Nat)
    (rows : List AddressRow) : List AddressRow :=
  rows.map fun r =>
    if touched.contains r.address && r.address != "NULL" &&
        decide (r.balanceDirtyBlock < height) then
      { r with balanceDirtyBlock := height }
    else r

/-- `mark_all_chain_addresses_dirty`. -/
def markAllChainAddressesDirty (height : Nat) (rows : List AddressRow) :
    List AddressRow :=
  rows.map fun r =>
    if r.address != "NULL" && decide (r.balanceDirtyBlock < height) then
      { r with balanceDirtyBlock := height }
    else r

/-- The addresses of a block get their rows before the block refers to
them. -/
def insertAddresses (addresses : List String) (rows : List AddressRow) :
    List AddressRow :=
  addresses.foldl (fun rows a =>
    if rows.any fun r => r.address == a then rows
    else rows ++ [{ address := a }]) rows

structure DirtyAddress where
  address : String
  balanceDirtyBlock : Nat
  deriving Repr, DecidableEq

/-- A row that `count_dirty_addresses` counts. -/
def AddressRow.isDirty (r : AddressRow) : Bool :=
  decide (0 < r.balanceDirtyBlock) && r.address != "NULL"

def countDirtyAddresses (rows : List AddressRow) : Nat :=
  rows.countP AddressRow.isDirty

/-- `balance_dirty_batch_size`. -/
def balanceDirtyBatchSize (dirtyCount : Nat) : Nat :=
  if 30000 ≤ dirtyCount then 700
  else if 10000 ≤ dirtyCount then 500
  else if 3000 ≤ dirtyCount then 350
  else if 1000 ≤ dirtyCount then 250
  else if 300 ≤ dirtyCount then 150
  else 100

/-- `fetch_dirty_address_batch`. The rows stand in the order of their ids, and
the sort keeps it among equal stamps. -/
def fetchDirtyAddressBatch (batchSize : Nat) (rows : List AddressRow) :
    List DirtyAddress :=
  (((rows.filter AddressRow.isDirty).insertionSort fun a b =>
      a.balanceDirtyBlock ≤ b.balanceDirtyBlock).take batchSize).map fun r =>
    ⟨r.address, r.balanceDirtyBlock⟩

/-- `reset_dirty_balance_flags`. -/
def resetDirtyBalanceFlags (dirtyAddresses : List DirtyAddress)
    (rows : List AddressRow) : List AddressRow :=
  rows.map fun r =>
    if dirtyAddresses.any fun d =>
        d.address == r.address && d.balanceDirtyBlock == r.balanceDirtyBlock
    then { r with balanceDirtyBlock := 0 }
    else r

/-! ## Accounts -/

/-- The node's account answer, and the height it was read at. -/
structure AccountInfo where
  address : String
  name : String
  stakeAmount : Nat
  stakeTime : Nat
  stakeUnclaimed : Nat
  read : Nat
  deriving Repr, DecidableEq

structure FetchedBalanceAccount where
  info : AccountInfo
  balances : List TokenBalance
  read : Nat
  deriving Repr, DecidableEq

/-- The balances of `account_info_to_upsert`. -/
def FetchedBalanceAccount.desired (account : FetchedBalanceAccount) :
    List TokenBalance :=
  account.balances.filterMap fun b =>
    (nonEmptyString b.symbol).map fun symbol => ⟨symbol, b.amountRaw⟩

/-- `missing_balance_symbols`, given the symbols of the token table. -/
def FetchedBalanceAccount.missing (tokens : List String)
    (account : FetchedBalanceAccount) : List String :=
  (account.desired.map TokenBalance.symbol).filter fun symbol =>
    !tokens.contains symbol

/-- The row that `upsert_address_account` leaves: the columns of the account,
and of the balances those whose token is known. -/
def FetchedBalanceAccount.store (tokens : List String) (nowUnixSeconds : Nat)
    (account : FetchedBalanceAccount) (r : AddressRow) : AddressRow :=
  let soulBalance := ((account.balances.find? fun b =>
    b.symbol == "SOUL").map TokenBalance.amountRaw).getD 0
  { r with
    addressName := (nonEmptyString account.info.name).filter fun name =>
      !eqIgnoreAsciiCase name "anonymous"
    nameLastUpdatedUnixSeconds := nowUnixSeconds
    stakeTimestamp := account.info.stakeTime
    stakedAmountRaw := account.info.stakeAmount
    unclaimedAmountRaw := account.info.stakeUnclaimed
    totalSoulAmount := soulBalance + account.info.stakeAmount
    balances := account.desired.filter fun b => tokens.contains b.symbol }

def upsertAddressAccount (tokens : List String) (nowUnixSeconds : Nat)
    (account : FetchedBalanceAccount) (rows : List AddressRow) :
    List AddressRow :=
  rows.map fun r =>
    if r.address == account.info.address then
      account.store tokens nowUnixSeconds r
    else r

/-- `persist_balance_accounts`: the rows, and the dirty addresses whose stamp
may go. An answer for an address that was not asked for is passed over. -/
def persistBalanceAccounts (tokens : List String) (nowUnixSeconds : Nat)
    (dirtyAddresses : List DirtyAddress) :
    List FetchedBalanceAccount → List AddressRow × List DirtyAddress →
    List AddressRow × List DirtyAddress
  | [], done => done
  | account :: accounts, (rows, updated) =>
      match dirtyAddresses.find? fun d => d.address == account.info.address with
      | none =>
          persistBalanceAccounts tokens nowUnixSeconds dirtyAddresses accounts
            (rows, updated)
      | some dirty =>
          persistBalanceAccounts tokens nowUnixSeconds dirtyAddresses accounts
            (upsertAddressAccount tokens nowUnixSeconds account rows,
              if (account.missing tokens).isEmpty then updated ++ [dirty]
              else updated)

/-! ## The system -/

/-- Where `sync_dirty_balances_once` stands: reading accounts, reading
balances, or about to clear the stamps of `updated`. -/
inductive BalancePhase where
  | accounts
  | balances
  | stored (tokens : List String) (updated : List DirtyAddress)
  deriving Repr, DecidableEq

structure BalancePass where
  phase : BalancePhase
  dirtyAddresses : List DirtyAddress
  infos : List AccountInfo
  accounts : List FetchedBalanceAccount
  /-- The highest committed height when the batch was taken. -/
  tipAtFetch : Nat
  deriving Repr, DecidableEq

structure BalanceSync where
  chain : String
  /-- The cursor of the chain. -/
  tip : Nat
  rows : List AddressRow
  pass : Option BalancePass
  /-- Which address was touched by a committed block at which height. -/
  touches : List (String × Nat)
  deriving Repr, DecidableEq

/-- A block with these addresses commits at `height`. -/
def BalanceSync.commit (s : BalanceSync) (height : Nat)
    (touched : List String) : BalanceSync :=
  { s with
    rows := markBlockAddressesDirty touched height
      (insertAddresses touched s.rows)
    touches := s.touches ++ touched.map fun a => (a, height) }

/-- `BALANCE_SYNC_LAG_THRESHOLD`. -/
def balanceSyncLagThreshold : Nat := 50

/-- `sync_dirty_balances_once` up to the batch. A call that fails on the scope
leaves everything as it is. -/
def BalanceSync.begin (s : BalanceSync) (rpcTip : Nat) : BalanceSync :=
  match validateZeroStateScope s.chain s.tip with
  | .error _ => s
  | .ok () =>
      let dirtyBefore := countDirtyAddresses s.rows
      if balanceSyncLagThreshold < rpcTip - s.tip then s
      else if dirtyBefore = 0 then s
      else
        { s with
          pass := some
            { phase := .accounts
              dirtyAddresses := fetchDirtyAddressBatch
                (balanceDirtyBatchSize dirtyBefore) s.rows
              infos := []
              accounts := []
              tipAtFetch := s.tip } }

inductive BalanceAct where
  | block (height : Nat) (touched : List String)
  | reproject (height : Nat) (touched : List String)
  | markAll
  | begin (rpcTip : Nat)
  | account (info : AccountInfo)
  | accountsDone
  | balances (info : AccountInfo) (balances : List TokenBalance) (read : Nat)
  | balancesFailed (info : AccountInfo)
  | persist (tokens : List String) (nowUnixSeconds : Nat)
  | reset
  | cancel
  deriving Repr, DecidableEq

/-- One step. The node answers from a state at or above every committed
height. -/
def balanceStep (s : BalanceSync) : BalanceAct → Option BalanceSync
  | .block height touched =>
      if s.tip < height then some { s.commit height touched with tip := height }
      else none
  | .reproject height touched =>
      if 0 < height ∧ height ≤ s.tip then some (s.commit height touched)
      else none
  | .markAll => some
      { s with rows := markAllChainAddressesDirty s.tip s.rows }
  | .begin rpcTip =>
      match s.pass with
      | none => some (s.begin rpcTip)
      | some _ => none
  | .account info =>
      match s.pass with
      | some p =>
          if p.phase = .accounts ∧ s.tip ≤ info.read then some
            { s with pass := some { p with infos := p.infos ++ [info] } }
          else none
      | none => none
  | .accountsDone =>
      match s.pass with
      | some p =>
          if p.phase = .accounts then some
            { s with pass := some { p with phase := .balances } }
          else none
      | none => none
  | .balances info balances read =>
      match s.pass with
      | some p =>
          if p.phase = .balances ∧ info ∈ p.infos ∧ s.tip ≤ read then some
            { s with
              pass := some
                { p with
                  infos := p.infos.erase info
                  accounts := p.accounts ++ [⟨info, balances, read⟩] } }
          else none
      | none => none
  | .balancesFailed info =>
      match s.pass with
      | some p =>
          if p.phase = .balances ∧ info ∈ p.infos then some
            { s with pass := some { p with infos := p.infos.erase info } }
          else none
      | none => none
  | .persist tokens nowUnixSeconds =>
      match s.pass with
      | some p =>
          if p.phase = .balances ∧ p.infos = [] then
            let (rows, updated) := persistBalanceAccounts tokens
              nowUnixSeconds p.dirtyAddresses p.accounts (s.rows, [])
            some
              { s with
                rows := rows
                pass := some { p with phase := .stored tokens updated } }
          else none
      | none => none
  | .reset =>
      match s.pass with
      | some p =>
          match p.phase with
          | .stored _ updated => some
              { s with
                rows := resetDirtyBalanceFlags updated s.rows
                pass := none }
          | _ => none
      | none => none
  | .cancel => some { s with pass := none }

def BalanceStep (s : BalanceSync) (a : BalanceAct) (s' : BalanceSync) : Prop :=
  balanceStep s a = some s'

end Explorer.Ref
