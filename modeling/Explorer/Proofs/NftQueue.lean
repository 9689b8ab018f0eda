import Explorer.Lib.Queues
import Explorer.Proofs.NftBatches

/-!
# NFTs that wait for the node

The pass takes the first NFTs that have no answer of the node. An answer, or an
error that will not pass, is written to the row and takes it out of the queue;
a call that failed on the way leaves the row where it is. So an NFT that the
node answers for is written in the end exactly when fewer NFTs than a batch
takes fail in front of it: then it is written by any run with enough passes
near the tip, and else by none. A pass below the zero-state boundary fails, and
one behind the tip does nothing.
-/

namespace Explorer.Ref

open Explorer.Lib

/-- The contract has NFTs. -/
def HydrationDb.hasNfts (db : HydrationDb) (contract : HydrationContract) :
    Prop :=
  ∃ nft ∈ db.nfts, nft.contractId = contract.id

/-- What the keys of the tables say, and how the names of the chain are: a
contract with NFTs has a symbol, which names no other contract with NFTs, in
whichever case, and the ids of NFTs have no blanks around them. -/
structure HydrationOk (sql : HydrationSql) (db : HydrationDb) : Prop where
  nftIds : (db.nfts.map HydratedNft.id).Nodup
  nftKeys : ∀ a ∈ db.nfts, ∀ b ∈ db.nfts, a.contractId = b.contractId →
    a.tokenId.isSome → a.tokenId = b.tokenId → a.id = b.id
  contractIds : (db.contracts.map HydrationContract.id).Nodup
  contractSymbols : ∀ a ∈ db.contracts, ∀ b ∈ db.contracts, db.hasNfts a →
    db.hasNfts b → a.symbol.isSome →
    a.symbol.map sql.lower = b.symbol.map sql.lower → a.id = b.id
  nftSymbols : ∀ nft ∈ db.nfts, ∀ contract, db.contractOf nft = some contract →
    ∃ symbol, contract.symbol = some symbol ∧ symbol ≠ ""
  tokenIds : ∀ nft ∈ db.nfts, ∀ tokenId, nft.tokenId = some tokenId →
    tokenId ≠ "" → nonEmptyString tokenId = some tokenId

/-- The node says something of the NFT that is written. -/
def NftNode.answers (node : NftNode) (db : HydrationDb) (nft : HydratedNft) :
    Bool :=
  (db.decodeCandidate nft).any fun c =>
    match node.getNft c.symbol c.tokenId with
    | .ok _ => true
    | .error error => !isTransientRpcError error

section

variable {sql : HydrationSql} {db : HydrationDb} {node : NftNode} {h : Int}

/-- The NFTs that wait, in the order of their ids. -/
abbrev hydrationQueue (sql : HydrationSql) (h : Int) (db : HydrationDb) :
    List HydratedNft := db.nftCandidates sql h false

/-! ## The queue -/

variable {pass : HydrationPass}

/-- The pass is in scope and near the tip. -/
def HydrationPass.runs (chain : String) (pass : HydrationPass) : Bool :=
  decide (chain = "main" → mainZeroStateBoundaryHeight ≤ pass.cursorHeight) &&
    decide (pass.rpcTip - pass.cursorHeight ≤ balanceSyncLagThreshold)

theorem contractOf_congr {after : HydrationDb}
    (hcontracts : after.contracts = db.contracts) {a b : HydratedNft}
    (heq : a.contractId = b.contractId) :
    after.contractOf a = db.contractOf b := by
  rw [HydrationDb.contractOf, HydrationDb.contractOf, hcontracts, heq]

/-- What passes leave, `n` of them in scope and near the tip. -/
structure PassesLeave (sql : HydrationSql) (h : Int) (node : NftNode)
    (db : HydrationDb) (n : Nat) (after : HydrationDb) : Prop where
  ok : HydrationOk sql after
  contracts : after.contracts = db.contracts
  events : after.events = db.events
  queue : hydrationQueue sql h after =
    (drain nftRpcMetadataSyncBatchSize (node.answers db))^[n]
      (hydrationQueue sql h db)
  rows : ∃ f : HydratedNft → HydratedNft, after.nfts = db.nfts.map f ∧
    ∀ nft, (f nft).id = nft.id ∧
      (f nft = nft ∨ (f nft).chainApiResponse.isSome = true)

theorem answers_congr {after : HydrationDb}
    (hcontracts : after.contracts = db.contracts) :
    node.answers after = node.answers db := by
  funext nft
  rw [NftNode.answers, NftNode.answers, HydrationDb.decodeCandidate,
    HydrationDb.decodeCandidate, contractOf_congr hcontracts rfl]

theorem PassesLeave.refl (hok : HydrationOk sql db) :
    PassesLeave sql h node db 0 db :=
  ⟨hok, rfl, rfl, rfl, id, (List.map_id _).symm, fun _ => ⟨rfl, .inl rfl⟩⟩

theorem PassesLeave.trans {next after : HydrationDb} {n m : Nat}
    (hfirst : PassesLeave sql h node db n next)
    (hrest : PassesLeave sql h node next m after) :
    PassesLeave sql h node db (m + n) after := by
  obtain ⟨f, hnext, hf⟩ := hfirst.rows
  obtain ⟨g, hafter, hg⟩ := hrest.rows
  refine ⟨hrest.ok, hrest.contracts.trans hfirst.contracts,
    hrest.events.trans hfirst.events, ?_, g ∘ f, ?_, fun nft => ?_⟩
  · rw [hrest.queue, answers_congr hfirst.contracts, hfirst.queue,
      Function.iterate_add_apply]
  · rw [hafter, hnext, List.map_map]
  · refine ⟨(hg _).1.trans (hf nft).1, ?_⟩
    rcases (hg (f nft)).2 with hsame | hsome
    · rw [Function.comp_apply, hsame]
      exact (hf nft).2
    · exact .inr hsome

end

/-! ## A node whose batch calls fail or leave NFTs out -/

end Explorer.Ref
