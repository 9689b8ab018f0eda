import Explorer.Lib.Json
import Explorer.Ref.Balances
import Mathlib.Data.List.Dedup
import Mathlib.Data.List.Infix

/-!
# Maintenance passes (`crates/ingestion/src/{driver,ttrs}.rs`, `crates/db`)

Two passes work off a backlog in batches. `sync_ttrs_offchain_nfts_once` asks
the store for the NFTs of one contract that have no off-chain metadata, and
`sync_dirty_balances_once` reads the dirty addresses from the node. Each takes
the first rows of a fixed order, and a row that does not succeed keeps its
place in it.

The services here answer the same whenever they are asked, and nothing else
writes during a pass. A statement that the database rejects is not modelled.
-/

namespace Explorer.Ref

open Explorer.Lib

/-! ## Off-chain metadata -/

structure NamedContract where
  id : Nat
  chainId : Nat
  name : String
  deriving DecidableEq

/-- A row of `nfts`, with the columns that the pass reads or writes. -/
structure NftMetadataRow where
  id : Nat
  chainId : Nat
  contractId : Nat
  tokenId : Option String
  burned : Option Bool := none
  offchainApiResponse : Option Json := none
  name : Option String := none
  description : Option String := none
  image : Option String := none
  mintNumber : Int := 0
  mintDateUnixSeconds : Int := 0

/-- The rows of `nfts` stand in the order of their ids, those of `contracts` in
the order a scan meets them. -/
structure NftMetadataDb where
  contracts : List NamedContract
  nfts : List NftMetadataRow

/-- `Value::as_i64`: an integer as it is written, in range. -/
def jsonAsI64 : Json → Option Int
  | .num text =>
      if text = "-0" then none
      else text.toInt?.filter fun n => -2 ^ 63 ≤ n ∧ n < 2 ^ 63
  | _ => none

def isObject : Json → Bool
  | .obj _ => true
  | _ => false

/-- The contract that `update_nft_offchain_metadata` writes under: the first
of its name. -/
def NftMetadataDb.updatedContract (db : NftMetadataDb)
    (contractName : String) : Option Nat :=
  (db.contracts.find? fun contract => contract.name == contractName).map
    NamedContract.id

end Explorer.Ref
