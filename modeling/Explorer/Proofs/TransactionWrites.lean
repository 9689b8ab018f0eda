import Explorer.Lib.Results
import Explorer.Proofs.BlockWrites
import Explorer.Proofs.LegacyAgree
import Mathlib.Data.List.Find

/-!
# Two ways to write the transactions

The batch resolves the ids of all transactions before it writes a row, and
asks the cache for them again where it writes row by row: the answers are the
same. What a row gets does not depend on the rows before it, so both ways
write the same cells; the set-based one gives new rows their ids in the order
of their index. Signatures and records then follow row by row, and differ at
most in the ids that name the transactions.
-/

namespace Explorer.Ref

open Explorer.Lib

variable {pg : Postgres}

/-! ## Ids asked for again -/

section

variable {tx : BlockTx Unit} {family f : Family} {key k : Key} {id i : Nat}
  {upsert : BlockTx Unit → Nat × BlockTx Unit}

theorem cachedId_of_hit (h : (tx.cache family).lookup key = some id) :
    tx.cachedId family key upsert = (id, tx) := by
  rw [BlockTx.cachedId, h]

theorem remember_apply (cache : ProjectionDimensionCache) :
    cache.remember family key id f =
      if f = family then (cache family).insert key id else cache f :=
  Function.update_apply ..

theorem lookup_remember_other (cache : ProjectionDimensionCache)
    (hother : ¬(f = family ∧ k = key)) :
    (cache.remember family key id f).lookup k = (cache f).lookup k := by
  rw [remember_apply]
  split
  · next hf =>
      subst hf
      exact Finmap.lookup_insert_of_ne _ fun hk => hother ⟨rfl, hk⟩
  · rfl

theorem cachedId_keeps (hcache : (upsert tx).2.cache = tx.cache)
    (h : (tx.cache f).lookup k = some i) :
    ((tx.cachedId family key upsert).2.cache f).lookup k = some i := by
  cases hlook : (tx.cache family).lookup key with
  | some id =>
      rw [cachedId_of_hit hlook]
      exact h
  | none =>
      have hother : ¬(f = family ∧ k = key) := by
        rintro ⟨rfl, rfl⟩
        rw [hlook] at h
        cases h
      rw [BlockTx.cachedId, hlook]
      refine (lookup_remember_other _ hother).trans ?_
      rw [hcache]
      exact h

theorem upsertKey_cache : (tx.upsertKey key false).2.cache = tx.cache := by
  unfold BlockTx.upsertKey
  split <;> rfl

end

/-- The ids of a transaction are in the cache. -/
structure IdsCached (dims : BlockTx Unit) (x : TransactionProjection)
    (refs : TransactionRefs) : Prop where
  state : (dims.cache .transactionStates).lookup (.transactionState x.state) =
    some refs.stateId
  sender : (dims.cache .addresses).lookup
    (.address x.chainId (x.sender.getD "NULL")) = some refs.senderId
  gasPayer : (dims.cache .addresses).lookup
    (.address x.chainId (x.gasPayer.getD "NULL")) = some refs.gasPayerId
  gasTarget : (dims.cache .addresses).lookup
    (.address x.chainId (x.gasTarget.getD "NULL")) = some refs.gasTargetId

section

variable {dims : BlockTx Unit} {x y : TransactionProjection}
  {refs : TransactionRefs}

/-- The four calls. -/
theorem resolveTransaction_calls (dims : BlockTx Unit)
    (x : TransactionProjection) :
    ∃ refs dims₁ dims₂ dims₃ dims₄,
      dims.transactionStateId x.state = (refs.stateId, dims₁) ∧
      dims₁.addressId x.chainId (x.sender.getD "NULL") false =
        (refs.senderId, dims₂) ∧
      dims₂.addressId x.chainId (x.gasPayer.getD "NULL") false =
        (refs.gasPayerId, dims₃) ∧
      dims₃.addressId x.chainId (x.gasTarget.getD "NULL") false =
        (refs.gasTargetId, dims₄) ∧
      resolveTransaction dims x = (refs, dims₄) := by
  cases hstate : dims.transactionStateId x.state with
  | mk stateId dims₁ =>
  cases hsender : dims₁.addressId x.chainId (x.sender.getD "NULL") false with
  | mk senderId dims₂ =>
  cases hpayer : dims₂.addressId x.chainId (x.gasPayer.getD "NULL") false with
  | mk gasPayerId dims₃ =>
  cases htarget : dims₃.addressId x.chainId (x.gasTarget.getD "NULL") false with
  | mk gasTargetId dims₄ =>
  refine ⟨⟨stateId, senderId, gasPayerId, gasTargetId⟩, dims₁, dims₂, dims₃,
    dims₄, rfl, hsender, hpayer, htarget, ?_⟩
  simp only [resolveTransaction, hstate, hsender, hpayer, htarget]

variable {f : Family} {k : Key} {i : Nat} {dims' : BlockTx Unit} {id : Nat}

theorem stateId_keeps {name : String}
    (hcall : dims.transactionStateId name = (id, dims'))
    (h : (dims.cache f).lookup k = some i) :
    (dims'.cache f).lookup k = some i := by
  have hkeeps : ((dims.transactionStateId name).2.cache f).lookup k = some i :=
    cachedId_keeps upsertKey_cache h
  rwa [hcall] at hkeeps

theorem addressId_keeps {chain : Nat} {a : String}
    (hcall : dims.addressId chain a false = (id, dims'))
    (h : (dims.cache f).lookup k = some i) :
    (dims'.cache f).lookup k = some i := by
  have hkeeps : ((dims.addressId chain a false).2.cache f).lookup k = some i :=
    cachedId_keeps upsertKey_cache h
  rwa [hcall] at hkeeps

theorem resolveTransaction_keeps (h : (dims.cache f).lookup k = some i)
    (y : TransactionProjection) :
    ((resolveTransaction dims y).2.cache f).lookup k = some i := by
  obtain ⟨refs, dims₁, dims₂, dims₃, dims₄, hstate, hsender, hpayer, htarget,
    hresolve⟩ := resolveTransaction_calls dims y
  have h₁ := stateId_keeps hstate h
  have h₂ := addressId_keeps hsender h₁
  have h₃ := addressId_keeps hpayer h₂
  rw [hresolve]
  exact addressId_keeps htarget h₃

theorem IdsCached.keeps (h : IdsCached dims x refs)
    (y : TransactionProjection) :
    IdsCached (resolveTransaction dims y).2 x refs :=
  ⟨resolveTransaction_keeps h.state y, resolveTransaction_keeps h.sender y,
    resolveTransaction_keeps h.gasPayer y,
    resolveTransaction_keeps h.gasTarget y⟩

end

/-! ## The cells of a transaction -/

section

variable {x : TransactionProjection} {refs : TransactionRefs}

theorem transactionValues_key {c : TransactionCells pg}
    (h : transactionValues pg x refs = .ok c) :
    c.key = (x.blockId, x.txIndex) := by
  obtain ⟨_, -, h⟩ := bind_eq_ok h
  obtain ⟨_, -, h⟩ := bind_eq_ok h
  obtain ⟨_, -, h⟩ := bind_eq_ok h
  obtain ⟨_, -, h⟩ := bind_eq_ok h
  obtain ⟨_, -, h⟩ := bind_eq_ok h
  cases h
  rfl

end

/-! ## Signatures -/

/-- The ids of transactions renamed, in the rows that name one. -/
def renameSignatures (ρ : Int → Int) (t : SerialTable SignatureCells) :
    SerialTable SignatureCells :=
  { t with
    rows := t.rows.map fun r =>
      ⟨r.id, { r.cells with transactionId := ρ r.cells.transactionId }⟩ }

section

variable {ρ : Int → Int} {T : SerialTable (TransactionCells pg)}
  {D : BlockTx Unit} {db db' : BlockDb pg} {i : Int}
  {signatures : List TransactionSignatureUpsert}

/-- Only signatures change, and new ones are of the transaction. -/
structure SignaturesOnly (i : Int) (db db' : BlockDb pg) : Prop where
  transactions : db'.transactions = db.transactions
  dims : db'.dims = db.dims
  events : db'.events = db.events
  signatures : ∀ r ∈ db'.signatures.rows,
    r ∈ db.signatures.rows ∨ r.cells.transactionId = i

theorem SignaturesOnly.refl (i : Int) (db : BlockDb pg) :
    SignaturesOnly i db db :=
  ⟨rfl, rfl, rfl, fun _ hr => .inl hr⟩

theorem SignaturesOnly.trans {db'' : BlockDb pg} (h : SignaturesOnly i db db')
    (h' : SignaturesOnly i db' db'') : SignaturesOnly i db db'' := by
  refine ⟨h'.transactions.trans h.transactions, h'.dims.trans h.dims,
    h'.events.trans h.events, fun r hr => ?_⟩
  rcases h'.signatures r hr with hr | hid
  · exact h.signatures r hr
  · exact .inr hid

end

/-! ## Row by row -/

section

variable {db : BlockDb pg} {xs : List TransactionProjection} {block : Int}

/-- The values of the rows, where no cast fails. -/
def ValuesAre (rows : List (TransactionProjection × TransactionRefs))
    (g : TransactionProjection × TransactionRefs → TransactionCells pg) : Prop :=
  ∀ row ∈ rows, transactionValues pg row.1 row.2 = .ok (g row)

end

/-! ## All at once -/

section

variable (rows : List (TransactionProjection × TransactionRefs))

variable {rows}

end

/-! ## Other ids -/

def TransactionRecord.rename (ρ : Int → Int) (record : TransactionRecord) :
    TransactionRecord :=
  { record with id := ρ record.id }

section

variable {db : BlockDb pg} {idOf idOf' : Int → Option Int} {ids : List Int}
  {rows : List (TransactionProjection × TransactionRefs)} {ρ : Int → Int}
  {T : SerialTable (TransactionCells pg)} {D : BlockTx Unit}

end

/-! ## The two ways -/

/-- Two outcomes that are the same but for the ids of transactions. -/
structure RenamedBy (ρ : Int → Int)
    (a b : List TransactionRecord × BlockDb pg) : Prop where
  records : a.1 = b.1.map (TransactionRecord.rename ρ)
  transactions : (b.2.transactions.rows.map fun r =>
    (⟨ρ r.id, r.cells⟩ : Stored (TransactionCells pg))).Perm
      a.2.transactions.rows
  signatures : a.2.signatures = renameSignatures ρ b.2.signatures
  signatureKinds : a.2.signatureKinds = b.2.signatureKinds
  events : a.2.events = b.2.events
  dims : a.2.dims = b.2.dims

/-- A record for each transaction, in order, under the id of its row, and the
row with the values of the transaction. -/
def RecordsOf (xs : List TransactionProjection)
    (a : List TransactionRecord × BlockDb pg) : Prop :=
  List.Forall₂ (fun x record => ∃ refs c,
    record = x.record record.id refs ∧ transactionValues pg x refs = .ok c ∧
      ⟨record.id, c⟩ ∈ a.2.transactions.rows) xs a.1

/-- Two calls fail the same, or both return and agree. -/
inductive Agree {α : Type} (R : α → α → Prop) :
    Except DbError α → Except DbError α → Prop
  | error (e : DbError) : Agree R (.error e) (.error e)
  | ok {a b : α} : R a b → Agree R (.ok a) (.ok b)

theorem Agree.imp {α : Type} {R R' : α → α → Prop} {m m' : Except DbError α}
    (h : Agree R m m') (himp : ∀ a b, R a b → R' a b) : Agree R' m m' := by
  cases h with
  | error e => exact .error e
  | ok hab => exact .ok (himp _ _ hab)

theorem RecordsOf.rename {ρ : Int → Int} {xs : List TransactionProjection}
    {a b : List TransactionRecord × BlockDb pg} (h : RenamedBy ρ a b)
    (hb : RecordsOf xs b) : RecordsOf xs a := by
  rw [RecordsOf, h.records, List.forall₂_map_right_iff]
  refine hb.imp fun x record hrecord => ?_
  obtain ⟨refs, c, hrecord, hvalues, hrow⟩ := hrecord
  refine ⟨refs, c, ?_, hvalues, ?_⟩
  · rw [hrecord]
    rfl
  · exact h.transactions.mem_iff.mp (List.mem_map.mpr ⟨_, hrow, rfl⟩)

/-- What the caller of `batch_upsert_transactions` promises: the transactions
of one block, each index once. -/
structure TransactionsOk (block : Int) (xs : List TransactionProjection) :
    Prop where
  block : ∀ x ∈ xs, x.blockId = block
  indexes : (xs.map fun x => x.txIndex).Nodup

section

variable {db : BlockDb pg} {xs : List TransactionProjection} {block : Int}
  {refs : List TransactionRefs} {dims : BlockTx Unit}
  {g : TransactionProjection × TransactionRefs → TransactionCells pg}
  {rows : List (TransactionProjection × TransactionRefs)}

theorem ValuesAre.keys (hg : ValuesAre rows g)
    (hblock : ∀ row ∈ rows, row.1.blockId = block) :
    (rows.map g).map TransactionCells.key =
      rows.map fun row => (block, row.1.txIndex) := by
  rw [List.map_map]
  refine List.map_congr_left fun row hrow => ?_
  rw [Function.comp_apply, transactionValues_key (hg row hrow),
    hblock row hrow]

theorem TransactionsOk.nodup (h : TransactionsOk block xs)
    (hlength : refs.length = xs.length) :
    ((xs.zip refs).map fun row => (block, row.1.txIndex)).Nodup := by
  have hmap : (xs.zip refs).map (fun row => (block, row.1.txIndex)) =
      (xs.map fun x => x.txIndex).map fun i => (block, i) := by
    rw [← List.map_fst_zip hlength.ge, List.map_map, List.map_map]
    rw [List.map_fst_zip hlength.ge]
    rfl
  rw [hmap]
  exact h.indexes.map fun i j hij => (Prod.mk.inj hij).2

theorem ValuesAre.perm {rows' : List (TransactionProjection × TransactionRefs)}
    (hg : ValuesAre rows g) (hperm : rows'.Perm rows) : ValuesAre rows' g :=
  fun row hrow => hg row (hperm.mem_iff.mp hrow)

end

/-! ## The block -/

section

variable {db : BlockDb pg} {batches : List (Int × List EventProjection)}

end

end Explorer.Ref
