import Explorer.Lib.Queues
import Explorer.Proofs.DirtyBalances
import Explorer.Ref.Maintenance

/-!
# Backlogs that stand behind rows that fail

Both maintenance passes take the first rows of a fixed order, and the rows that
fail keep their place. So a row that would succeed is reached exactly when
fewer rows than a batch takes fail in front of it; behind a full batch of
failures it waits for ever.
-/

namespace Explorer.Ref

open Explorer.Lib

/-! ## Off-chain metadata -/

section

variable {chainId : Nat} {store : String → Json} {db : NftMetadataDb}

end

/-! ## Balances -/

section

variable {node : BalanceNode} {tokens : List String}

end

/-! ## Both backlogs -/

end Explorer.Ref
