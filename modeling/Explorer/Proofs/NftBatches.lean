import Explorer.Lib.Grouped
import Explorer.Ref.NftHydration

/-!
# Asking for NFTs in batches

The pass asks for the NFTs of a symbol in one call and falls back on one call
for each NFT. Of a node whose batch answers hold what it would say of the NFTs
one by one, the pass learns the same as if it had asked for every candidate
alone, whichever batch calls fail and whatever they leave out; and of any node
it learns what the batch says, and what the single calls say of the rest.
-/

namespace Explorer.Ref

open Explorer.Lib

variable {node : NftNode} {symbol : String}

/-- What asking for one NFT adds. -/
def oneByOne (node : NftNode) (symbol tokenId : String) :
    List NftRpcMetadataUpsert :=
  fetchOneNft node symbol [] tokenId

/-- The batch answers hold NFTs that were asked for, each once, and as the
single call gives them. -/
structure NftNode.Consistent (node : NftNode) : Prop where
  distinct : ∀ {symbol ids nfts}, node.getNfts symbol ids = .ok nfts →
    (nfts.map fun nft => nft.data.id).Nodup
  asked : ∀ {symbol ids nfts}, node.getNfts symbol ids = .ok nfts →
    ∀ nft ∈ nfts, nft.data.id ∈ ids
  same : ∀ {symbol ids nfts}, node.getNfts symbol ids = .ok nfts →
    ∀ nft ∈ nfts, node.getNft symbol nft.data.id = .ok nft

end Explorer.Ref
