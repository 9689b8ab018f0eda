import Explorer.Lib.Steps
import Explorer.Lib.Tables
import Explorer.Ref.Dimensions

/-!
# The dimension cache is transparent

`PlainTx` is a block write without surrogate ids: its dimension rows are their
contents, its rows refer to keys, and there is nothing for a cache to hold, so
`Script.plain` has none. `BlockTx.plain` forgets the ids and the cache of a
transaction, and every call of a write commutes with it, whatever is in the
cache, as long as `TxOk` holds: an entry names a row under that key and id,
and asking for the contract behind it again would fill no column. Two runs of
one write that differ in the cache only have the same image, so they leave the
same contents.

Between writes the entries name committed rows. The cache of a block that
commits is right about its view, which is then the store; that of any other
block is gone, and the holder has kept nothing of it. `lost` stands for ids
that a transaction drew and took away with it: sequences never go back, so no
row gets one again.
-/

namespace Explorer.Ref

open Explorer.Lib

variable {δ : Type}

/-! ## Writes without ids -/

def Contents.has (c : Contents δ) (key : Key) : Bool :=
  c.dims.any fun d => d.key == key

def Contents.add (c : Contents δ) (d : DimensionContent) : Contents δ :=
  { c with dims := c.dims ++ [d] }

def Contents.fill (c : Contents δ) (chain : Nat) (hash : String) :
    Contents δ :=
  { c with
    dims := c.dims.map fun d =>
      if d.key == .contract chain hash then d.fill hash else d }

/-- A block write that has neither ids nor a cache. -/
@[ext]
structure PlainTx (δ : Type) where
  base : Contents δ
  view : Contents δ
  resolved : List (Option Key)

def PlainTx.insert (t : PlainTx δ) (c : DimensionContent) : PlainTx δ :=
  { t with view := t.view.add c }

def PlainTx.elsewhere (t : PlainTx δ) (c : DimensionContent) : PlainTx δ :=
  if t.view.has c.key then t
  else { t with base := t.base.add c, view := t.view.add c }

def PlainTx.upsertKey (t : PlainTx δ) (key : Key) (race : Bool) :
    PlainTx δ :=
  if t.view.has key then t
  else if race then t.elsewhere { key := key }
  else t.insert { key := key }

def PlainTx.fillContract (t : PlainTx δ) (chain : Nat) (hash : String) :
    PlainTx δ :=
  { t with view := t.view.fill chain hash }

def PlainTx.upsertContract (t : PlainTx δ) (chain : Nat) (hash : String)
    (race : Option (Option String × Option String)) : PlainTx δ :=
  if t.view.has (.contract chain hash) then t.fillContract chain hash
  else
    match race with
    | none => t.insert ⟨.contract chain hash, some hash, some hash⟩
    | some (name, symbol) =>
        (t.elsewhere ⟨.contract chain hash, name, symbol⟩).fillContract
          chain hash

def DimensionCall.key : DimensionCall → Key
  | .headerAddress chain a _ | .address chain a _ => .address chain a
  | .transactionState name => .transactionState name
  | .eventKind name _ => .eventKind name
  | .contract chain hash _ => .contract chain hash

def PlainTx.call (t : PlainTx δ) : DimensionCall → PlainTx δ
  | .headerAddress chain address race | .address chain address race =>
      t.upsertKey (.address chain address) race
  | .transactionState name => t.upsertKey (.transactionState name) false
  | .eventKind name race => t.upsertKey (.eventKind name) race
  | .contract chain hash race => t.upsertContract chain hash race

def PlainTx.resolve (t : PlainTx δ) (call : DimensionCall) : PlainTx δ :=
  let t' := t.call call
  { t' with resolved := t'.resolved ++ [some call.key] }

def PlainTx.prefetchAddresses (t : PlainTx δ) (chain : Nat)
    (addresses : List String) : PlainTx δ :=
  addresses.foldl (fun t a => t.upsertKey (.address chain a) false) t

def PlainTx.execute (t : PlainTx δ) (statement : Statement δ) : PlainTx δ :=
  { t with
    view :=
      { t.view with
        rows := (statement t.view).map fun x =>
          (x.1, x.2.filterMap
            (Slot.get (t.view.rows.map Prod.snd)
              (t.view.dims.map fun d => some d.key) t.resolved)) } }

def Script.plain : Script δ → PlainTx δ → Option (PlainTx δ)
  | .done, t => some t
  | .fail, _ => none
  | .resolve call next, t => next.plain (t.resolve call)
  | .prefetch chain addresses next, t =>
      next.plain (t.prefetchAddresses chain addresses)
  | .addressRow chain address next, t =>
      next.plain (t.upsertKey (.address chain address) false)
  | .contractRow chain hash next, t =>
      next.plain (t.upsertContract chain hash none)
  | .execute statement next, t => next.plain (t.execute statement)
  | .select next, t => (next t.view).plain t
  | .elsewhere content next, t => next.plain (t.elsewhere content)

/-! ## Names -/

/-- What a key and its id are to the rows that refer to them. -/
def refOf (x : Key × Nat) : Dimension × Nat := (x.1.dimension, x.2)

/-- The keys of the dimension rows, with their ids. -/
def Store.names (s : Store δ) : List (Key × Nat) :=
  s.dims.map fun r => (r.key, r.id)

/-- Rows are unique under their key and under their id, and ids come from the
sequences; those in `lost` have been drawn and are on no row. -/
structure NamesOk (lost : Set (Dimension × Nat)) (sequences : Dimension → Nat)
    (names : List (Key × Nat)) : Prop where
  keys : (names.map Prod.fst).Nodup
  ids : (names.map refOf).Nodup
  drawn : ∀ x ∈ names, x.2 < sequences x.1.dimension
  gone : ∀ x ∈ names, refOf x ∉ lost
  burnt : ∀ x ∈ lost, x.2 < sequences x.1

section

variable {lost : Set (Dimension × Nat)} {sequences : Dimension → Nat}
  {names : List (Key × Nat)}

theorem NamesOk.mono (h : NamesOk lost sequences names)
    {later : Dimension → Nat} (hle : ∀ d, sequences d ≤ later d) :
    NamesOk lost later names where
  keys := h.keys
  ids := h.ids
  drawn := fun x hx => (h.drawn x hx).trans_le (hle _)
  gone := h.gone
  burnt := fun x hx => (h.burnt x hx).trans_le (hle _)

/-- A row under a new key takes the next id. -/
theorem NamesOk.add (h : NamesOk lost sequences names) {key : Key}
    (hkey : key ∉ names.map Prod.fst) :
    NamesOk lost
      (Function.update sequences key.dimension (sequences key.dimension + 1))
      (names ++ [(key, sequences key.dimension)]) := by
  have hle : ∀ d, sequences d ≤ Function.update sequences key.dimension
      (sequences key.dimension + 1) d := by
    intro d
    by_cases hd : d = key.dimension
    · subst hd
      rw [Function.update_self]
      omega
    · rw [Function.update_of_ne hd]
  have hnew : (key.dimension, sequences key.dimension) ∉ names.map refOf := by
    intro hmem
    obtain ⟨x, hx, he⟩ := List.mem_map.mp hmem
    have hlt := h.drawn x hx
    obtain ⟨hd, hid⟩ := Prod.mk.inj he
    rw [hd, hid] at hlt
    exact Nat.lt_irrefl _ hlt
  have hold := h.mono hle
  constructor
  · rw [List.map_append]
    exact h.keys.append (List.nodup_singleton _)
      (by simpa [List.disjoint_singleton] using hkey)
  · rw [List.map_append]
    exact h.ids.append (List.nodup_singleton _)
      (by simpa [List.disjoint_singleton, refOf] using hnew)
  · intro x hx
    rcases List.mem_append.mp hx with hx | hx
    · exact hold.drawn x hx
    · cases List.mem_singleton.mp hx
      rw [Function.update_self]
      exact Nat.lt_succ_self _
  · intro x hx hlost
    rcases List.mem_append.mp hx with hx | hx
    · exact h.gone x hx hlost
    · cases List.mem_singleton.mp hx
      exact Nat.lt_irrefl _ (h.burnt _ hlost)
  · exact hold.burnt

end

/-- A store whose rows refer to dimension rows that are there. -/
structure StoreOk (lost : Set (Dimension × Nat)) (sequences : Dimension → Nat)
    (s : Store δ) : Prop where
  names : NamesOk lost sequences s.names
  refs : ∀ row ∈ s.rows, ∀ x ∈ row.refs, x ∈ s.names.map refOf

/-- Asking for the contract again would fill no column. -/
def Contents.Settled (c : Contents δ) (key : Key) : Prop :=
  ∀ d ∈ c.dims, d.key = key → ∀ chain hash, key = .contract chain hash →
    d.fill hash = d

/-- What statements on the dimensions do to a store. -/
structure Store.Grows (s s' : Store δ) : Prop where
  names : ∀ x ∈ s.names, x ∈ s'.names
  settled : ∀ key ∈ s.names.map Prod.fst, s.contents.Settled key →
    s'.contents.Settled key

section

variable {lost : Set (Dimension × Nat)} {sequences : Dimension → Nat}
  {s s' : Store δ} {key : Key} {id : Nat}

theorem Store.find_eq_none :
    s.find key = none ↔ key ∉ s.names.map Prod.fst := by
  simp only [Store.find, Store.names, List.find?_eq_none, beq_iff_eq,
    List.map_map, List.mem_map, not_exists, not_and, Function.comp_apply]

theorem Store.mem_names_of_find {r : DimensionRow} (h : s.find key = some r) :
    (key, r.id) ∈ s.names := by
  have hkey : r.key = key := by simpa using List.find?_some h
  rw [← hkey]
  exact List.mem_map_of_mem (List.mem_of_find?_eq_some h)

theorem Store.contents_has : s.contents.has key = (s.find key).isSome := by
  rw [Bool.eq_iff_iff, Store.find, List.find?_isSome, Contents.has,
    Store.contents, List.any_map, List.any_eq_true]
  rfl

theorem mem_keys_of_mem (h : (key, id) ∈ s.names) :
    key ∈ s.names.map Prod.fst :=
  List.mem_map_of_mem h

theorem NamesOk.keyOf (h : NamesOk lost sequences s.names)
    {x : Key × Nat} (hx : x ∈ s.names) :
    Ref.keyOf s.dims (refOf x) = some x.1 := by
  obtain ⟨r, hr, rfl⟩ := List.mem_map.mp hx
  unfold Ref.keyOf
  cases hf : s.dims.find? fun r' =>
      r'.key.dimension == (refOf (r.key, r.id)).1 &&
        r'.id == (refOf (r.key, r.id)).2 with
  | none =>
      have hnone := List.find?_eq_none.mp hf r hr
      simp [refOf] at hnone
  | some r' =>
      have hmem := List.mem_of_find?_eq_some hf
      have hfound := List.find?_some hf
      rw [Bool.and_eq_true, beq_iff_eq, beq_iff_eq] at hfound
      have hsame : (r'.key, r'.id) = (r.key, r.id) :=
        List.inj_on_of_nodup_map h.ids (List.mem_map_of_mem hmem) hx
          (Prod.ext hfound.1 hfound.2)
      exact congrArg some (Prod.mk.inj hsame).1

/-- An id keeps its meaning. -/
theorem keyOf_of_grows (h : NamesOk lost sequences s.names)
    {later : Dimension → Nat} (h' : NamesOk lost later s'.names)
    (hnames : ∀ x ∈ s.names, x ∈ s'.names) {x : Dimension × Nat}
    (hx : x ∈ s.names.map refOf) : keyOf s'.dims x = keyOf s.dims x := by
  obtain ⟨y, hy, rfl⟩ := List.mem_map.mp hx
  rw [h.keyOf hy, h'.keyOf (hnames y hy)]

theorem map_keyOf_of_grows (h : NamesOk lost sequences s.names)
    {later : Dimension → Nat} (h' : NamesOk lost later s'.names)
    (hnames : ∀ x ∈ s.names, x ∈ s'.names) {xs : List (Dimension × Nat)}
    (hxs : ∀ x ∈ xs, x ∈ s.names.map refOf) :
    xs.map (keyOf s'.dims) = xs.map (keyOf s.dims) :=
  List.map_congr_left fun x hx => keyOf_of_grows h h' hnames (hxs x hx)

theorem StoreOk.view_of_grows (h : StoreOk lost sequences s)
    {later : Dimension → Nat} (h' : NamesOk lost later s'.names)
    (hnames : ∀ x ∈ s.names, x ∈ s'.names) (hrows : s'.rows = s.rows) :
    s'.view = s.view := by
  unfold Store.view
  rw [hrows]
  refine List.map_congr_left fun row hrow => ?_
  rw [map_keyOf_of_grows h.names h' hnames (h.refs row hrow)]

theorem StoreOk.of_grows (h : StoreOk lost sequences s)
    {later : Dimension → Nat} (h' : NamesOk lost later s'.names)
    (hnames : ∀ x ∈ s.names, x ∈ s'.names) (hrows : s'.rows = s.rows) :
    StoreOk lost later s' := by
  refine ⟨h', fun row hrow x hx => ?_⟩
  rw [hrows] at hrow
  obtain ⟨y, hy, rfl⟩ := List.mem_map.mp (h.refs row hrow x hx)
  exact List.mem_map_of_mem (hnames y hy)

theorem StoreOk.mono (h : StoreOk lost sequences s)
    {later : Dimension → Nat} (hle : ∀ d, sequences d ≤ later d) :
    StoreOk lost later s :=
  ⟨h.names.mono hle, h.refs⟩

/-! A new row. -/

variable {c : DimensionContent}

theorem Store.names_add (r : DimensionRow) :
    (s.add r).names = s.names ++ [(r.key, r.id)] := by
  rw [Store.names, Store.add, List.map_append]
  rfl

theorem Store.names_subset_add (r : DimensionRow) :
    ∀ x ∈ s.names, x ∈ (s.add r).names := by
  intro x hx
  rw [Store.names_add]
  exact List.mem_append_left _ hx

theorem StoreOk.add (h : StoreOk lost sequences s)
    (hkey : c.key ∉ s.names.map Prod.fst) :
    StoreOk lost
      (Function.update sequences c.key.dimension
        (sequences c.key.dimension + 1))
      (s.add { c with id := sequences c.key.dimension }) := by
  refine h.of_grows ?_ (Store.names_subset_add _) rfl
  rw [Store.names_add]
  exact h.names.add hkey

theorem StoreOk.contents_add (h : StoreOk lost sequences s)
    (hkey : c.key ∉ s.names.map Prod.fst) :
    (s.add { c with id := sequences c.key.dimension }).contents =
      s.contents.add c := by
  have hview := h.view_of_grows (h.add hkey).names
    (Store.names_subset_add _) rfl
  rw [Store.contents, hview, Store.add, List.map_append]
  rfl

theorem Store.grows_add {r : DimensionRow}
    (hkey : r.key ∉ s.names.map Prod.fst) : s.Grows (s.add r) := by
  refine ⟨Store.names_subset_add r, fun key hmem hset d hd => ?_⟩
  rw [Store.contents, Store.add, List.map_append] at hd
  rcases List.mem_append.mp hd with hd | hd
  · exact hset d hd
  · rw [List.mem_singleton.mp hd]
    intro he
    exact absurd (he ▸ hmem) hkey

/-! The columns of a contract. -/

theorem DimensionContent.fill_fill (v : String) (d : DimensionContent) :
    (d.fill v).fill v = d.fill v := by
  cases hname : isBlankColumn d.name <;>
    cases hsymbol : isBlankColumn d.symbol <;>
      simp [DimensionContent.fill, hname, hsymbol]

/-- The view of `fillContract`. -/
def Store.fill (s : Store δ) (chain : Nat) (hash : String) : Store δ :=
  { s with
    dims := s.dims.map fun r =>
      if r.key == .contract chain hash then
        { r.toDimensionContent.fill hash with id := r.id }
      else r }

variable {chain : Nat} {hash : String}

theorem Store.names_fill : (s.fill chain hash).names = s.names := by
  rw [Store.names, Store.fill, List.map_map, Store.names]
  refine List.map_congr_left fun r _ => ?_
  rw [Function.comp_apply]
  split <;> rfl

theorem StoreOk.fill (h : StoreOk lost sequences s) :
    StoreOk lost sequences (s.fill chain hash) := by
  refine h.of_grows ?_ ?_ rfl
  · rw [Store.names_fill]
    exact h.names
  · intro x hx
    rwa [Store.names_fill]

theorem Store.dims_fill : (s.fill chain hash).contents.dims =
    (s.contents.fill chain hash).dims := by
  simp only [Store.contents, Store.fill, Contents.fill, List.map_map]
  refine List.map_congr_left fun r _ => ?_
  simp only [Function.comp_apply]
  split <;> rfl

theorem StoreOk.contents_fill (h : StoreOk lost sequences s) :
    (s.fill chain hash).contents = s.contents.fill chain hash := by
  have hview : (s.fill chain hash).view = s.view := by
    refine h.view_of_grows h.fill.names ?_ rfl
    intro x hx
    rwa [Store.names_fill]
  have hdims : (s.fill chain hash).contents.dims =
      (s.contents.fill chain hash).dims := Store.dims_fill
  rw [Store.contents] at hdims ⊢
  rw [hview]
  exact congrArg (fun dims => (⟨dims, s.view⟩ : Contents δ)) hdims

theorem Contents.settled_fill (c : Contents δ) :
    (c.fill chain hash).Settled (.contract chain hash) := by
  intro d hd hkey chain' hash' he
  cases he
  obtain ⟨d₀, -, rfl⟩ := List.mem_map.mp hd
  split
  · exact DimensionContent.fill_fill hash d₀
  · next hne =>
      rw [if_neg hne] at hkey
      exact absurd (beq_iff_eq.mpr hkey) hne

theorem Contents.Settled.fill {c : Contents δ} (h : c.Settled key) :
    (c.fill chain hash).Settled key := by
  by_cases hkey : key = .contract chain hash
  · subst hkey
    exact c.settled_fill
  · intro d hd hd₁
    obtain ⟨d₀, hd₀, rfl⟩ := List.mem_map.mp hd
    by_cases heq : d₀.key = .contract chain hash
    · rw [if_pos (beq_iff_eq.mpr heq)] at hd₁
      exact absurd (hd₁.symm.trans heq) hkey
    · have hne : ¬(d₀.key == .contract chain hash) = true :=
        fun e => heq (beq_iff_eq.mp e)
      rw [if_neg hne] at hd₁ ⊢
      exact h d₀ hd₀ hd₁

/-- A settled contract keeps its columns. -/
theorem Contents.fill_of_settled {c : Contents δ}
    (h : c.Settled (.contract chain hash)) : c.fill chain hash = c := by
  have hdims : (c.fill chain hash).dims = c.dims.map id := by
    refine List.map_congr_left fun d hd => ?_
    split
    · next hkey => exact h d hd (beq_iff_eq.mp hkey) chain hash rfl
    · rfl
  rw [List.map_id] at hdims
  exact congrArg (fun dims => (⟨dims, c.rows⟩ : Contents δ)) hdims

theorem Store.grows_fill : s.Grows (s.fill chain hash) := by
  refine ⟨fun x hx => by rwa [Store.names_fill], fun key _ hset => ?_⟩
  unfold Contents.Settled
  rw [Store.dims_fill]
  exact hset.fill

/-- What an entry of the cache says about a store. -/
def Store.Knows (s : Store δ) (key : Key) (id : Nat) : Prop :=
  (key, id) ∈ s.names ∧ s.contents.Settled key

theorem Store.Knows.grows (h : s.Knows key id) (hgrows : s.Grows s') :
    s'.Knows key id :=
  ⟨hgrows.names _ h.1, hgrows.settled _ (mem_keys_of_mem h.1) h.2⟩

/-- Only contracts have columns to fill. -/
theorem Contents.settled_of_ne {c : Contents δ}
    (h : ∀ chain hash, key ≠ .contract chain hash) : c.Settled key :=
  fun _ _ _ chain hash he => absurd he (h chain hash)

end

/-! ## Calls commute with forgetting the ids -/

/-- What holds of a block write at any point. -/
structure TxOk (lost : Set (Dimension × Nat)) (tx : BlockTx δ) : Prop where
  base : StoreOk lost tx.sequences tx.base
  view : StoreOk lost tx.sequences tx.view
  keys : ∀ key ∈ tx.base.names.map Prod.fst, key ∈ tx.view.names.map Prod.fst
  cache : ∀ f key id, (tx.cache f).lookup key = some id →
    tx.view.Knows key id
  resolved : ∀ x ∈ tx.resolved, x ∈ tx.view.names.map refOf

def BlockTx.plain (tx : BlockTx δ) : PlainTx δ where
  base := tx.base.contents
  view := tx.view.contents
  resolved := tx.resolved.map (keyOf tx.view.dims)

/-- The write stands where the write without ids does. -/
structure Sim (lost : Set (Dimension × Nat)) (tx : BlockTx δ)
    (t : PlainTx δ) : Prop where
  ok : TxOk lost tx
  plain : tx.plain = t

/-- The same for a call that answers an id for a key. -/
structure Answers (lost : Set (Dimension × Nat)) (key : Key)
    (res : Nat × BlockTx δ) (t : PlainTx δ) : Prop where
  sim : Sim lost res.2 t
  knows : res.2.view.Knows key res.1

section

variable {lost : Set (Dimension × Nat)} {tx tx' : BlockTx δ} {t t' : PlainTx δ}

/-- A call that adds to the dimensions or fills them. -/
theorem TxOk.change (h : TxOk lost tx)
    (hbase : StoreOk lost tx'.sequences tx'.base)
    (hview : StoreOk lost tx'.sequences tx'.view)
    (hkeys : ∀ key ∈ tx'.base.names.map Prod.fst,
      key ∈ tx'.view.names.map Prod.fst)
    (hgrows : tx.view.Grows tx'.view) (hcache : tx'.cache = tx.cache)
    (hresolved : tx'.resolved = tx.resolved) : TxOk lost tx' := by
  refine ⟨hbase, hview, hkeys, fun f key id hlook => ?_, fun x hx => ?_⟩
  · rw [hcache] at hlook
    exact (h.cache f key id hlook).grows hgrows
  · rw [hresolved] at hx
    obtain ⟨y, hy, rfl⟩ := List.mem_map.mp (h.resolved x hx)
    exact List.mem_map_of_mem (hgrows.names y hy)

theorem TxOk.map_keyOf (h : TxOk lost tx) (h' : TxOk lost tx')
    (hgrows : tx.view.Grows tx'.view) :
    tx.resolved.map (keyOf tx'.view.dims) =
      tx.resolved.map (keyOf tx.view.dims) :=
  map_keyOf_of_grows h.view.names h'.view.names hgrows.names h.resolved

theorem TxOk.key_notMem (h : TxOk lost tx) {key : Key}
    (hnone : tx.view.find key = none) :
    key ∉ tx.view.names.map Prod.fst ∧ key ∉ tx.base.names.map Prod.fst :=
  ⟨Store.find_eq_none.mp hnone,
    fun hbase => Store.find_eq_none.mp hnone (h.keys key hbase)⟩

theorem Sim.has (h : Sim lost tx t) (key : Key) :
    t.view.has key = (tx.view.find key).isSome := by
  rw [← h.plain]
  exact Store.contents_has

theorem Sim.has_of_find (h : Sim lost tx t) {key : Key} {r : DimensionRow}
    (hfind : tx.view.find key = some r) : t.view.has key = true := by
  rw [h.has, hfind]
  rfl

theorem Sim.not_has_of_find (h : Sim lost tx t) {key : Key}
    (hfind : tx.view.find key = none) : ¬t.view.has key = true := by
  rw [h.has, hfind]
  exact Bool.false_ne_true

theorem Sim.settled (h : Sim lost tx t) {key : Key} :
    tx.view.contents.Settled key ↔ t.view.Settled key := by
  rw [← h.plain]
  rfl

theorem BlockTx.le_burn (tx : BlockTx δ) (d e : Dimension) :
    tx.sequences e ≤ (tx.burn d).sequences e := by
  simp only [BlockTx.burn]
  by_cases he : e = d
  · subst he
    rw [Function.update_self]
    omega
  · rw [Function.update_of_ne he]

theorem Sim.burn (h : Sim lost tx t) (d : Dimension) :
    Sim lost (tx.burn d) t :=
  ⟨⟨h.ok.base.mono (tx.le_burn d), h.ok.view.mono (tx.le_burn d), h.ok.keys,
    h.ok.cache, h.ok.resolved⟩, h.plain⟩

variable {c : DimensionContent}

theorem mem_names_add (s : Store δ) (id : Nat) :
    (c.key, id) ∈ (s.add { c with id := id }).names := by
  rw [Store.names_add]
  exact List.mem_append_right _ (List.mem_singleton.mpr rfl)

theorem Sim.insert (h : Sim lost tx t) (hnone : tx.view.find c.key = none) :
    Sim lost (tx.insert c).2 (t.insert c) := by
  obtain ⟨hview, -⟩ := h.ok.key_notMem hnone
  have hgrows : tx.view.Grows (tx.insert c).2.view := Store.grows_add hview
  have hok : TxOk lost (tx.insert c).2 := by
    refine h.ok.change (h.ok.base.mono (tx.le_burn _)) (h.ok.view.add hview)
      ?_ hgrows rfl rfl
    intro key hkey
    obtain ⟨x, hx, rfl⟩ := List.mem_map.mp (h.ok.keys key hkey)
    exact List.mem_map_of_mem (hgrows.names x hx)
  refine ⟨hok, ?_⟩
  rw [← h.plain]
  exact PlainTx.ext rfl (h.ok.view.contents_add hview)
    (h.ok.map_keyOf hok hgrows)

theorem BlockTx.elsewhere_of_none (hnone : tx.view.find c.key = none) :
    tx.elsewhere c =
      { tx.burn c.key.dimension with
        base := tx.base.add { c with id := tx.sequences c.key.dimension }
        view := tx.view.add
          { c with id := tx.sequences c.key.dimension } } := by
  unfold BlockTx.elsewhere
  rw [hnone]

theorem Sim.elsewhere (h : Sim lost tx t) (c : DimensionContent) :
    Sim lost (tx.elsewhere c) (t.elsewhere c) := by
  cases hfind : tx.view.find c.key with
  | some r =>
      unfold BlockTx.elsewhere PlainTx.elsewhere
      rw [hfind, if_pos (h.has_of_find hfind)]
      exact h
  | none =>
      obtain ⟨hview, hbase⟩ := h.ok.key_notMem hfind
      unfold PlainTx.elsewhere
      rw [BlockTx.elsewhere_of_none hfind, if_neg (h.not_has_of_find hfind)]
      have hgrows := Store.grows_add (s := tx.view)
        (r := { c with id := tx.sequences c.key.dimension }) hview
      refine ⟨h.ok.change (h.ok.base.add hbase) (h.ok.view.add hview) ?_ hgrows
        rfl rfl, ?_⟩
      · intro key hkey
        rw [Store.names_add, List.map_append] at hkey ⊢
        rcases List.mem_append.mp hkey with hkey | hkey
        · exact List.mem_append_left _ (h.ok.keys key hkey)
        · exact List.mem_append_right _ hkey
      · rw [← h.plain]
        exact PlainTx.ext (h.ok.base.contents_add hbase)
          (h.ok.view.contents_add hview)
          (map_keyOf_of_grows h.ok.view.names (h.ok.view.add hview).names
            hgrows.names h.ok.resolved)

theorem Sim.fillContract (h : Sim lost tx t) (chain : Nat) (hash : String) :
    Sim lost (tx.fillContract chain hash) (t.fillContract chain hash) := by
  have hok : TxOk lost (tx.fillContract chain hash) := by
    refine h.ok.change h.ok.base h.ok.view.fill ?_ Store.grows_fill rfl rfl
    intro key hkey
    have hnames : (tx.view.fill chain hash).names = tx.view.names :=
      Store.names_fill
    rw [show (tx.fillContract chain hash).view = tx.view.fill chain hash
      from rfl, hnames]
    exact h.ok.keys key hkey
  refine ⟨hok, ?_⟩
  rw [← h.plain]
  exact PlainTx.ext rfl h.ok.view.contents_fill
    (h.ok.map_keyOf hok Store.grows_fill)

/-! The upserts. -/

variable {key : Key}

theorem Sim.upsertKey (h : Sim lost tx t)
    (hkey : ∀ chain hash, key ≠ .contract chain hash) (race : Bool) :
    Answers lost key (tx.upsertKey key race) (t.upsertKey key race) := by
  have hhas := h.has key
  unfold BlockTx.upsertKey PlainTx.upsertKey
  rw [hhas]
  cases hfind : tx.view.find key with
  | some r =>
      exact ⟨h, Store.mem_names_of_find hfind, Contents.settled_of_ne hkey⟩
  | none =>
      cases race with
      | false =>
          exact ⟨h.insert hfind, mem_names_add _ _,
            Contents.settled_of_ne hkey⟩
      | true =>
          refine ⟨(h.elsewhere _).burn _, ?_, Contents.settled_of_ne hkey⟩
          simp only [BlockTx.burn,
            BlockTx.elsewhere_of_none (c := { key := key }) hfind]
          exact mem_names_add _ _

theorem Contents.settled_add {c : Contents δ} {chain : Nat} {hash : String}
    (hhas : ¬c.has (.contract chain hash) = true) :
    (c.add ⟨.contract chain hash, some hash, some hash⟩).Settled
      (.contract chain hash) := by
  intro d hd hkey chain' hash' he
  cases he
  rcases List.mem_append.mp hd with hd | hd
  · refine absurd ?_ hhas
    exact List.any_eq_true.mpr ⟨d, hd, beq_iff_eq.mpr hkey⟩
  · rw [List.mem_singleton.mp hd]
    simp [DimensionContent.fill]

theorem Sim.insertContract (h : Sim lost tx t) (chain : Nat) (hash : String)
    (race : Option (Option String × Option String)) :
    Answers lost (.contract chain hash) (tx.insertContract chain hash race)
      (t.upsertContract chain hash race) := by
  unfold BlockTx.insertContract PlainTx.upsertContract
  cases hfind : tx.view.find (.contract chain hash) with
  | some r =>
      rw [if_pos (h.has_of_find hfind)]
      have hsim := h.fillContract chain hash
      refine ⟨hsim.burn _, ?_, ?_⟩
      · exact Store.grows_fill.names _ (Store.mem_names_of_find hfind)
      · exact hsim.settled.mpr t.view.settled_fill
  | none =>
      have hnot := h.not_has_of_find hfind
      rw [if_neg hnot]
      cases race with
      | none =>
          have hsim := h.insert
            (c := ⟨.contract chain hash, some hash, some hash⟩) hfind
          refine ⟨hsim, mem_names_add _ _, ?_⟩
          exact hsim.settled.mpr (Contents.settled_add hnot)
      | some pair =>
          obtain ⟨name, symbol⟩ := pair
          have helse := h.elsewhere ⟨.contract chain hash, name, symbol⟩
          have hsim := helse.fillContract chain hash
          refine ⟨hsim.burn _, ?_, ?_⟩
          · refine Store.grows_fill.names _ ?_
            rw [BlockTx.elsewhere_of_none
              (c := ⟨.contract chain hash, name, symbol⟩) hfind]
            exact mem_names_add _ _
          · exact hsim.settled.mpr (Contents.settled_fill _)

/-- The shortcut of `upsert_contract_id` is a fill that changes nothing. -/
theorem TxOk.settled_of_find (h : TxOk lost tx) {chain : Nat} {hash : String}
    {r : DimensionRow} (hfind : tx.view.find (.contract chain hash) = some r)
    (hname : isBlankColumn r.name = false)
    (hsymbol : isBlankColumn r.symbol = false) :
    tx.view.contents.Settled (.contract chain hash) := by
  intro d hd hkey chain' hash' he
  cases he
  obtain ⟨r', hr', rfl⟩ := List.mem_map.mp hd
  have hfound : r.key = .contract chain hash := by
    simpa using List.find?_some hfind
  have hkeys : (tx.view.dims.map fun r => r.key).Nodup := by
    have := h.view.names.keys
    rwa [Store.names, List.map_map] at this
  have hsame : r' = r :=
    List.inj_on_of_nodup_map hkeys hr' (List.mem_of_find?_eq_some hfind)
      (hkey.trans hfound.symm)
  subst hsame
  simp [DimensionContent.fill, hname, hsymbol]

theorem PlainTx.upsertContract_of_settled {chain : Nat} {hash : String}
    (hhas : t.view.has (.contract chain hash) = true)
    (hset : t.view.Settled (.contract chain hash))
    (race : Option (Option String × Option String)) :
    t.upsertContract chain hash race = t := by
  unfold PlainTx.upsertContract PlainTx.fillContract
  rw [if_pos hhas, Contents.fill_of_settled hset]

theorem Sim.upsertContractId (h : Sim lost tx t) (chain : Nat)
    (hash : String) (race : Option (Option String × Option String)) :
    Answers lost (.contract chain hash) (tx.upsertContractId chain hash race)
      (t.upsertContract chain hash race) := by
  unfold BlockTx.upsertContractId
  cases hfind : tx.view.find (.contract chain hash) with
  | none => exact h.insertContract chain hash race
  | some r =>
      show Answers _ _ (if _ then _ else _) _
      split
      · next hfull =>
          rw [Bool.and_eq_true, Bool.not_eq_true', Bool.not_eq_true'] at hfull
          have hset := h.ok.settled_of_find hfind hfull.1 hfull.2
          rw [PlainTx.upsertContract_of_settled (h.has_of_find hfind)
            (h.settled.mp hset)]
          exact ⟨h, Store.mem_names_of_find hfind, hset⟩
      · exact h.insertContract chain hash race

/-! Through the cache. -/

theorem ProjectionDimensionCache.lookup_remember
    {cache : ProjectionDimensionCache} {family f : Family} {k : Key}
    {id i : Nat} (h : (cache.remember family key id f).lookup k = some i) :
    (cache f).lookup k = some i ∨ k = key ∧ i = id := by
  have heq : cache.remember family key id f =
      if f = family then (cache family).insert key id else cache f :=
    Function.update_apply ..
  rw [heq] at h
  split at h
  · next hf =>
      by_cases hk : k = key
      · rw [hk, Finmap.lookup_insert] at h
        cases h
        exact .inr ⟨hk, rfl⟩
      · rw [Finmap.lookup_insert_of_ne _ hk] at h
        exact .inl (hf ▸ h)
  · exact .inl h

theorem Sim.remember (h : Sim lost tx t) (family : Family) {id : Nat}
    (hknows : tx.view.Knows key id) :
    Sim lost { tx with cache := tx.cache.remember family key id } t := by
  refine ⟨⟨h.ok.base, h.ok.view, h.ok.keys, fun f k i hlook => ?_,
    h.ok.resolved⟩, h.plain⟩
  rcases ProjectionDimensionCache.lookup_remember hlook with hold | ⟨rfl, rfl⟩
  · exact h.ok.cache f k i hold
  · exact hknows

theorem Store.Knows.has {s : Store δ} {id : Nat} (h : s.Knows key id) :
    s.contents.has key = true := by
  rw [Store.contents_has, Option.isSome_iff_ne_none]
  intro hnone
  exact Store.find_eq_none.mp hnone (mem_keys_of_mem h.1)

/-- A hit answers what the upsert would, and the upsert would change
nothing. -/
theorem Sim.cachedId (h : Sim lost tx t) (family : Family)
    (upsert : BlockTx δ → Nat × BlockTx δ)
    (hupsert : Answers lost key (upsert tx) t')
    (hhit : t.view.has key = true → t.view.Settled key → t' = t) :
    Answers lost key (tx.cachedId family key upsert) t' := by
  unfold BlockTx.cachedId
  cases hlook : (tx.cache family).lookup key with
  | some id =>
      have hknows := h.ok.cache family key id hlook
      have hhas : t.view.has key = true := by
        rw [h.has, ← Store.contents_has]
        exact hknows.has
      rw [hhit hhas (h.settled.mp hknows.2)]
      exact ⟨h, hknows⟩
  | none => exact ⟨hupsert.sim.remember family hupsert.knows, hupsert.knows⟩

theorem PlainTx.upsertKey_of_has (hhas : t.view.has key = true)
    (race : Bool) : t.upsertKey key race = t := by
  unfold PlainTx.upsertKey
  rw [if_pos hhas]

theorem Sim.cachedKey (h : Sim lost tx t) (family : Family) (key : Key)
    (hkey : ∀ chain hash, key ≠ .contract chain hash) (race : Bool) :
    Answers lost key
      (tx.cachedId family key fun tx => tx.upsertKey key race)
      (t.upsertKey key race) :=
  h.cachedId family _ (h.upsertKey hkey race)
    fun hhas _ => PlainTx.upsertKey_of_has hhas race

theorem Sim.call (h : Sim lost tx t) (call : DimensionCall) :
    Answers lost call.key (tx.call call) (t.call call) := by
  cases call with
  | headerAddress chain a race =>
      exact h.cachedKey .headerAddresses (.address chain a) (by simp) race
  | address chain a race =>
      exact h.cachedKey .addresses (.address chain a) (by simp) race
  | transactionState name =>
      exact h.cachedKey .transactionStates (.transactionState name) (by simp)
        false
  | eventKind name race =>
      exact h.cachedKey .eventKinds (.eventKind name) (by simp) race
  | contract chain hash race =>
      exact h.cachedId .contracts
        (fun tx => tx.upsertContractId chain hash race)
        (h.upsertContractId chain hash race)
        fun hhas hset => PlainTx.upsertContract_of_settled hhas hset race

theorem DimensionCall.key_dimension (call : DimensionCall) :
    call.key.dimension = call.dimension := by
  cases call <;> rfl

/-- The answer joins what statements may use. -/
theorem Answers.push {res : Nat × BlockTx δ} (h : Answers lost key res t) :
    Sim lost
      { res.2 with
        resolved := res.2.resolved ++ [(key.dimension, res.1)] }
      { t with resolved := t.resolved ++ [some key] } := by
  obtain ⟨⟨hok, hplain⟩, hknows⟩ := h
  refine ⟨⟨hok.base, hok.view, hok.keys, hok.cache, fun x hx => ?_⟩, ?_⟩
  · rcases List.mem_append.mp hx with hx | hx
    · exact hok.resolved x hx
    · rw [List.mem_singleton.mp hx]
      exact List.mem_map_of_mem hknows.1
  · have hkey : keyOf res.2.view.dims (key.dimension, res.1) = some key :=
      hok.view.names.keyOf hknows.1
    rw [← hplain, ← hkey]
    exact PlainTx.ext rfl rfl List.map_append

theorem Sim.resolve (h : Sim lost tx t) (call : DimensionCall) :
    Sim lost (tx.resolve call) (t.resolve call) := by
  have hpush := (h.call call).push
  rw [call.key_dimension] at hpush
  exact hpush

/-! Prefetching. -/

theorem Sim.insertAddress (h : Sim lost tx t) (chain : Nat) (a : String) :
    Sim lost (tx.insertAddress chain a)
      (t.upsertKey (.address chain a) false) := by
  unfold BlockTx.insertAddress PlainTx.upsertKey
  cases hfind : tx.view.find (.address chain a) with
  | some r =>
      rw [if_pos (h.has_of_find hfind)]
      exact h.burn _
  | none =>
      rw [if_neg (h.not_has_of_find hfind)]
      exact h.insert hfind

theorem Sim.loadAddress (h : Sim lost tx t) (chain : Nat) (a : String) :
    Sim lost (tx.loadAddress chain a) t := by
  unfold BlockTx.loadAddress
  cases hfind : tx.view.find (.address chain a) with
  | some r =>
      exact h.remember .addresses
        ⟨Store.mem_names_of_find hfind, Contents.settled_of_ne (by simp)⟩
  | none => exact h

theorem Sim.foldl {α : Type} {f : BlockTx δ → α → BlockTx δ}
    {g : PlainTx δ → α → PlainTx δ}
    (hstep : ∀ tx t a, Sim lost tx t → Sim lost (f tx a) (g t a))
    (as : List α) (h : Sim lost tx t) :
    Sim lost (as.foldl f tx) (as.foldl g t) := by
  induction as generalizing tx t with
  | nil => exact h
  | cons a as ih => exact ih (hstep tx t a h)

theorem PlainTx.has_upsertKey (hhas : t.view.has key = true) (k : Key) :
    (t.upsertKey k false).view.has key = true := by
  unfold PlainTx.upsertKey
  split
  · exact hhas
  · rw [if_neg Bool.false_ne_true, PlainTx.insert, Contents.has, Contents.add,
      List.any_append, Bool.or_eq_true]
    exact .inl hhas

/-- Addresses that are there need no insert. -/
theorem PlainTx.prefetchAddresses_filter {chain : Nat}
    {missing : String → Bool} (addresses : List String)
    (hhas : ∀ a, missing a = false →
      t.view.has (.address chain a) = true) :
    t.prefetchAddresses chain (addresses.filter missing) =
      t.prefetchAddresses chain addresses := by
  induction addresses generalizing t with
  | nil => rfl
  | cons a addresses ih =>
      have htail := ih (t := t.upsertKey (.address chain a) false)
        fun b hb => PlainTx.has_upsertKey (hhas b hb) _
      unfold PlainTx.prefetchAddresses at htail ⊢
      cases ha : missing a with
      | true =>
          rw [List.filter_cons_of_pos ha]
          exact htail
      | false =>
          have hne : ¬missing a = true := by
            rw [ha]
            exact Bool.false_ne_true
          rw [List.filter_cons_of_neg hne]
          rw [List.foldl_cons, PlainTx.upsertKey_of_has (hhas a ha)] at *
          exact htail

theorem Sim.prefetchAddresses (h : Sim lost tx t) (chain : Nat)
    (addresses : List String) :
    Sim lost (tx.prefetchAddresses chain addresses)
      (t.prefetchAddresses chain addresses) := by
  let missing := fun a =>
    ((tx.cache .addresses).lookup (.address chain a)).isNone
  have hcached : ∀ a, missing a = false →
      t.view.has (.address chain a) = true := by
    intro a ha
    obtain ⟨id, hid⟩ := Option.isSome_iff_exists.mp
      (Option.isNone_eq_false_iff.mp ha)
    rw [h.has, ← Store.contents_has]
    exact (h.ok.cache _ _ _ hid).has
  rw [← PlainTx.prefetchAddresses_filter addresses hcached]
  have hinserted := h.foldl (fun _ _ a h => h.insertAddress chain a)
    (addresses.filter missing)
  have hloaded := hinserted.foldl (g := fun t _ => t)
    (fun _ _ a h => h.loadAddress chain a) (addresses.filter missing)
  rw [List.foldl_fixed] at hloaded
  exact hloaded

/-! Statements. -/

/-- A slot names the same column of rows seen through `f`. -/
theorem Slot.get_map {α β : Type} (f : α → β) (rows : List (List α))
    (dims resolved : List α) (slot : Slot) :
    slot.get (rows.map (List.map f)) (dims.map f) (resolved.map f) =
      (slot.get rows dims resolved).map f := by
  cases slot with
  | column i j =>
      rw [Slot.get, Slot.get, List.getElem?_map]
      cases rows[i]? with
      | none => rfl
      | some columns => exact List.getElem?_map
  | dimension i => exact List.getElem?_map
  | resolved i => exact List.getElem?_map

/-- Every id that a statement copies was there. -/
theorem Slot.get_mem {α : Type} {rows : List (List α)} {dims resolved : List α}
    {slot : Slot} {x : α} (h : slot.get rows dims resolved = some x) :
    (∃ columns ∈ rows, x ∈ columns) ∨ x ∈ dims ∨ x ∈ resolved := by
  cases slot with
  | column i j =>
      obtain ⟨columns, hrow, hcol⟩ := Option.bind_eq_some_iff.mp h
      exact .inl ⟨columns, List.mem_of_getElem? hrow,
        List.mem_of_getElem? hcol⟩
  | dimension i => exact .inr (.inl (List.mem_of_getElem? h))
  | resolved i => exact .inr (.inr (List.mem_of_getElem? h))

theorem Store.map_ref (s : Store δ) :
    s.dims.map DimensionRow.ref = s.names.map refOf := by
  rw [Store.names, List.map_map]
  rfl

/-- The id of a dimension row stands for its key. -/
theorem StoreOk.map_keyOf_ref {sequences : Dimension → Nat} {s : Store δ}
    (h : StoreOk lost sequences s) :
    (s.dims.map DimensionRow.ref).map (keyOf s.dims) =
      s.contents.dims.map fun d => some d.key := by
  rw [Store.contents, List.map_map, List.map_map]
  refine List.map_congr_left fun r hr => ?_
  exact h.names.keyOf (x := (r.key, r.id)) (List.mem_map_of_mem hr)

theorem Sim.execute (h : Sim lost tx t) (statement : Statement δ) :
    Sim lost (tx.execute statement) (t.execute statement) := by
  have hview : StoreOk lost tx.sequences (tx.execute statement).view := by
    refine ⟨h.ok.view.names, fun row hrow x hx => ?_⟩
    obtain ⟨y, -, rfl⟩ := List.mem_map.mp hrow
    obtain ⟨slot, -, hslot⟩ := List.mem_filterMap.mp hx
    rcases Slot.get_mem hslot with ⟨columns, hmem, hcol⟩ | hdim | hres
    · obtain ⟨row, hold, rfl⟩ := List.mem_map.mp hmem
      exact h.ok.view.refs row hold x hcol
    · rw [Store.map_ref] at hdim
      exact hdim
    · exact h.ok.resolved x hres
  refine ⟨⟨h.ok.base, hview, h.ok.keys, h.ok.cache, h.ok.resolved⟩, ?_⟩
  rw [← h.plain]
  have hcolumns : tx.view.view.map Prod.snd =
      (tx.view.rows.map ContentRow.refs).map
        (List.map (keyOf tx.view.dims)) := by
    rw [Store.view, List.map_map, List.map_map]
    rfl
  have hrows : (tx.execute statement).view.view =
      (tx.plain.execute statement).view.rows := by
    rw [Store.view, BlockTx.execute, List.map_map]
    refine List.map_congr_left fun x _ => ?_
    rw [Function.comp_apply, List.map_filterMap]
    refine Prod.ext rfl (List.filterMap_congr fun slot _ => ?_)
    rw [← Slot.get_map, ← hcolumns, h.ok.view.map_keyOf_ref]
    rfl
  exact PlainTx.ext rfl
    (congrArg (fun rows => (⟨tx.view.contents.dims, rows⟩ : Contents δ)) hrows)
    rfl

/-! ## A whole write -/

theorem Script.run_sim (script : Script δ) (h : Sim lost tx t) :
    Option.Rel (Sim lost) (script.run tx) (script.plain t) := by
  induction script generalizing tx t with
  | done => exact .some h
  | fail => exact .none
  | resolve call next ih => exact ih (h.resolve call)
  | prefetch chain addresses next ih =>
      exact ih (h.prefetchAddresses chain addresses)
  | addressRow chain a next ih => exact ih (h.insertAddress chain a)
  | contractRow chain hash next ih =>
      exact ih (h.insertContract chain hash none).sim
  | execute statement next ih => exact ih (h.execute statement)
  | select next ih =>
      have hview : tx.view.contents = t.view := congrArg PlainTx.view h.plain
      rw [Script.run, Script.plain, hview]
      exact ih _ h
  | elsewhere content next ih => exact ih (h.elsewhere content)

/-- A write cut off after `n` calls is a write of those calls. -/
def Script.truncate : Nat → Script δ → Script δ
  | 0, _ => .done
  | _ + 1, .done => .done
  | _ + 1, .fail => .done
  | n + 1, .resolve call next => .resolve call (next.truncate n)
  | n + 1, .prefetch chain addresses next =>
      .prefetch chain addresses (next.truncate n)
  | n + 1, .addressRow chain a next => .addressRow chain a (next.truncate n)
  | n + 1, .contractRow chain hash next =>
      .contractRow chain hash (next.truncate n)
  | n + 1, .execute statement next => .execute statement (next.truncate n)
  | n + 1, .select next => .select fun found => (next found).truncate n
  | n + 1, .elsewhere content next => .elsewhere content (next.truncate n)

theorem Script.run_truncate (script : Script δ) (n : Nat) (tx : BlockTx δ) :
    (script.truncate n).run tx = some (script.runFor n tx) := by
  induction script generalizing n tx with
  | done => cases n <;> rfl
  | fail => cases n <;> rfl
  | select next ih =>
      cases n with
      | zero => rfl
      | succ n => exact ih _ n tx
  | resolve call next ih
  | prefetch chain addresses next ih
  | addressRow chain a next ih
  | contractRow chain hash next ih
  | execute statement next ih
  | elsewhere content next ih =>
      cases n with
      | zero => rfl
      | succ n => exact ih n _

theorem Script.runFor_sim (script : Script δ) (n : Nat)
    (h : Sim lost tx t) :
    ∃ t', (script.truncate n).plain t = some t' ∧
      Sim lost (script.runFor n tx) t' := by
  have hrel := (script.truncate n).run_sim h
  rw [script.run_truncate n tx] at hrel
  cases hplain : (script.truncate n).plain t with
  | none =>
      rw [hplain] at hrel
      cases hrel
  | some t' =>
      rw [hplain] at hrel
      cases hrel with
      | some hsim => exact ⟨t', rfl, hsim⟩

end

/-! ## One write after another -/

/-- What holds between writes. -/
structure ProjectorOk (lost : Set (Dimension × Nat)) (p : Projector δ) :
    Prop where
  store : StoreOk lost p.sequences p.store
  held : ∀ f key id, (p.holder f).lookup key = some id →
    f.crossBlock = true ∧ p.store.Knows key id

def Projector.plain (p : Projector δ) : PlainTx δ where
  base := p.store.contents
  view := p.store.contents
  resolved := []

section

variable {lost : Set (Dimension × Nat)} {p p' : Projector δ}

theorem Projector.sim_open (hstore : StoreOk lost p.sequences p.store)
    {cache : ProjectionDimensionCache}
    (hcache : ∀ f key id, (cache f).lookup key = some id →
      p.store.Knows key id) :
    Sim lost (p.open cache) p.plain :=
  ⟨⟨hstore, hstore, fun _ hkey => hkey, hcache,
    fun _ hx => absurd hx List.not_mem_nil⟩, rfl⟩

theorem Projector.sim_open_new (hstore : StoreOk lost p.sequences p.store) :
    Sim lost (p.open ProjectionDimensionCache.new) p.plain := by
  refine Projector.sim_open hstore fun f key id hlook => ?_
  cases hlook

theorem ProjectorOk.sim_open_held (h : ProjectorOk lost p) :
    Sim lost (p.open p.holder.takeForBlock.1) p.plain := by
  refine Projector.sim_open h.store fun f key id hlook => ?_
  have htaken : p.holder.takeForBlock.1 f =
      if f.crossBlock then p.holder f else ∅ := rfl
  rw [htaken] at hlook
  split at hlook
  · exact (h.held f key id hlook).2
  · cases hlook

/-- While a block is written, and after one that did not commit, the holder
has nothing. -/
theorem ProjectorOk.lookup_left (h : ProjectorOk lost p) (f : Family)
    (key : Key) : (p.holder.takeForBlock.2 f).lookup key = none := by
  have hleft : p.holder.takeForBlock.2 f =
      if f.crossBlock then ∅ else p.holder f := rfl
  rw [hleft]
  split
  · rfl
  · next hcross =>
      cases hlook : (p.holder f).lookup key with
      | none => rfl
      | some id => exact absurd (h.held f key id hlook).1 hcross

/-- The holder takes from a block that committed what the block knows. -/
theorem ProjectorOk.lookup_restored (h : ProjectorOk lost p)
    {cache : ProjectionDimensionCache} {f : Family} {key : Key} {id : Nat}
    (hlook : (p.holder.takeForBlock.2.restoreAfterCommit cache f).lookup key =
      some id) :
    f.crossBlock = true ∧ (cache f).lookup key = some id := by
  have hrestored : p.holder.takeForBlock.2.restoreAfterCommit cache f =
      if f.crossBlock then cache f else p.holder.takeForBlock.2 f := rfl
  rw [hrestored] at hlook
  split at hlook
  · next hcross => exact ⟨hcross, hlook⟩
  · rw [h.lookup_left] at hlook
    cases hlook

theorem BlockTx.grows_elsewhere (tx : BlockTx δ) (c : DimensionContent) :
    tx.view.Grows (tx.elsewhere c).view := by
  cases hfind : tx.view.find c.key with
  | some r =>
      unfold BlockTx.elsewhere
      rw [hfind]
      exact ⟨fun _ hx => hx, fun _ _ hset => hset⟩
  | none =>
      rw [BlockTx.elsewhere_of_none hfind]
      exact Store.grows_add (Store.find_eq_none.mp hfind)

theorem projectorStep_write (script : Script δ) (acknowledged : Bool) :
    projectorStep p (.write script acknowledged) =
      (script.run (p.open p.holder.takeForBlock.1)).map fun tx =>
        { holder :=
            if acknowledged then
              p.holder.takeForBlock.2.restoreAfterCommit tx.cache
            else p.holder.takeForBlock.2
          store := tx.view
          sequences := tx.sequences } :=
  rfl

theorem projectorStep_abandon (script : Script δ) (n : Nat)
    (drawn : Dimension → Nat) :
    projectorStep p (.abandon script n drawn) =
      some
        { holder := p.holder.takeForBlock.2
          store := (script.runFor n (p.open p.holder.takeForBlock.1)).base
          sequences := fun d =>
            (script.runFor n (p.open p.holder.takeForBlock.1)).sequences d +
              drawn d } :=
  rfl

theorem ProjectorOk.run_ok (h : ProjectorOk lost p) {script : Script δ}
    {tx : BlockTx δ}
    (hrun : script.run (p.open p.holder.takeForBlock.1) = some tx) :
    TxOk lost tx := by
  have hrel := script.run_sim h.sim_open_held
  rw [hrun] at hrel
  generalize script.plain p.plain = t at hrel
  cases hrel with
  | some hsim => exact hsim.ok

theorem ProjectorOk.runFor_ok (h : ProjectorOk lost p) (script : Script δ)
    (n : Nat) :
    TxOk lost (script.runFor n (p.open p.holder.takeForBlock.1)) := by
  obtain ⟨t, -, hsim⟩ := script.runFor_sim n h.sim_open_held
  exact hsim.ok

/-- Commit and rollback, answered or not. -/
theorem ProjectorOk.step (h : ProjectorOk lost p) {a : ProjectorAct δ}
    (hstep : ProjectorStep p a p') : ProjectorOk lost p' := by
  unfold ProjectorStep at hstep
  cases a with
  | write script acknowledged =>
      rw [projectorStep_write] at hstep
      obtain ⟨tx, hrun, rfl⟩ := Option.map_eq_some_iff.mp hstep
      have hok := h.run_ok hrun
      refine ⟨hok.view, fun f key id hlook => ?_⟩
      cases acknowledged with
      | true =>
          obtain ⟨hcross, hcached⟩ := h.lookup_restored hlook
          exact ⟨hcross, hok.cache f key id hcached⟩
      | false => exact absurd (hlook.symm.trans (h.lookup_left f key)) (by simp)
  | abandon script n drawn =>
      rw [projectorStep_abandon] at hstep
      cases hstep
      have hok := h.runFor_ok script n
      refine ⟨hok.base.mono fun d => Nat.le_add_right _ _, ?_⟩
      intro f key id hlook
      exact absurd (hlook.symm.trans (h.lookup_left f key)) (by simp)
  | elsewhere content =>
      cases hstep
      have hsim := (Projector.sim_open_new h.store).elsewhere content
      refine ⟨hsim.ok.view, fun f key id hlook => ?_⟩
      obtain ⟨hcross, hknows⟩ := h.held f key id hlook
      exact ⟨hcross, hknows.grows
        ((p.open ProjectionDimensionCache.new).grows_elsewhere content)⟩

theorem ProjectorOk.steps (h : ProjectorOk lost p)
    {acts : List (ProjectorAct δ)} (hrun : Steps ProjectorStep p acts p') :
    ProjectorOk lost p' :=
  hrun.invariant (fun _ _ _ h hstep => h.step hstep) h

/-! Two caches, one write. -/

theorem ProjectorOk.run_contents (h : ProjectorOk lost p)
    (script : Script δ) :
    (script.run (p.open p.holder.takeForBlock.1)).map
        (fun tx => tx.view.contents) =
      (script.run (p.open ProjectionDimensionCache.new)).map
        fun tx => tx.view.contents := by
  have hheld := script.run_sim h.sim_open_held
  have hnew := script.run_sim (Projector.sim_open_new h.store)
  generalize script.run (p.open p.holder.takeForBlock.1) = a at hheld ⊢
  generalize script.run (p.open ProjectionDimensionCache.new) = b at hnew ⊢
  generalize script.plain p.plain = t at hheld hnew
  cases hheld with
  | none =>
      cases hnew
      rfl
  | some hsim =>
      cases hnew with
      | some hsim' =>
          exact congrArg (fun t => some t.view)
            (hsim.plain.trans hsim'.plain.symm)

theorem ProjectorOk.runFor_contents (h : ProjectorOk lost p)
    (script : Script δ) (n : Nat) :
    (script.runFor n (p.open p.holder.takeForBlock.1)).base.contents =
      (script.runFor n
        (p.open ProjectionDimensionCache.new)).base.contents := by
  obtain ⟨t, ht, hsim⟩ := script.runFor_sim n h.sim_open_held
  obtain ⟨t', ht', hsim'⟩ :=
    script.runFor_sim n (Projector.sim_open_new h.store)
  cases ht.symm.trans ht'
  exact congrArg PlainTx.base (hsim.plain.trans hsim'.plain.symm)

end

/-- The ids that a write takes away with it when it is rolled back. -/
def BlockTx.minted (tx : BlockTx δ) : Set (Dimension × Nat) :=
  { x | x ∈ tx.view.names.map refOf ∧ x ∉ tx.base.names.map refOf }

/-- An id that a write has resolved, or that one of its rows holds. -/
def BlockTx.Uses (tx : BlockTx δ) (x : Dimension × Nat) : Prop :=
  x ∈ tx.resolved ∨ ∃ row ∈ tx.view.rows, x ∈ row.refs

theorem TxOk.not_uses {lost : Set (Dimension × Nat)} {tx : BlockTx δ}
    (h : TxOk lost tx) {x : Dimension × Nat} (hx : x ∈ lost) :
    ¬tx.Uses x := by
  have hgone : x ∉ tx.view.names.map refOf := by
    intro hmem
    obtain ⟨y, hy, rfl⟩ := List.mem_map.mp hmem
    exact h.view.names.gone y hy hx
  rintro (hres | ⟨row, hrow, href⟩)
  · exact hgone (h.resolved x hres)
  · exact hgone (h.view.refs row hrow x href)

/-- A rollback leaves the ids of its rows behind for good. -/
theorem ProjectorOk.abandoned {p p' : Projector δ}
    (h : ProjectorOk ∅ p) {script : Script δ} {n : Nat}
    {drawn : Dimension → Nat}
    (hstep : ProjectorStep p (.abandon script n drawn) p') :
    ProjectorOk
      (script.runFor n (p.open p.holder.takeForBlock.1)).minted p' := by
  have hok := h.runFor_ok script n
  have hok' := h.step hstep
  have hstore : p'.store =
      (script.runFor n (p.open p.holder.takeForBlock.1)).base := by
    cases hstep
    rfl
  have hle : ∀ d,
      (script.runFor n (p.open p.holder.takeForBlock.1)).sequences d ≤
        p'.sequences d := by
    cases hstep
    exact fun d => Nat.le_add_right _ _
  refine ⟨⟨⟨hok'.store.names.keys, hok'.store.names.ids,
    hok'.store.names.drawn, ?_, ?_⟩, hok'.store.refs⟩, hok'.held⟩
  · intro x hx hminted
    rw [hstore] at hx
    exact hminted.2 (List.mem_map_of_mem hx)
  · intro x hminted
    obtain ⟨y, hy, rfl⟩ := List.mem_map.mp hminted.1
    exact (hok.view.names.drawn y hy).trans_le (hle _)

/-- What the cache may not change. -/
structure Transparent (p : Projector δ) : Prop where
  /-- An entry names a committed row. -/
  held : ∀ f key id, (p.holder f).lookup key = some id →
    ∃ r ∈ p.store.dims, r.key = key ∧ r.id = id
  /-- The next write fails or commits as it would without the cache. -/
  commits : ∀ script : Script δ,
    (script.run (p.open p.holder.takeForBlock.1)).map
        (fun tx => tx.view.contents) =
      (script.run (p.open ProjectionDimensionCache.new)).map
        fun tx => tx.view.contents
  /-- So does what is there when it is given up. -/
  abandons : ∀ (script : Script δ) n,
    (script.runFor n (p.open p.holder.takeForBlock.1)).base.contents =
      (script.runFor n (p.open ProjectionDimensionCache.new)).base.contents
  /-- No row refers to a dimension row that is not there. -/
  refs : ∀ row ∈ p.store.rows, ∀ x ∈ row.refs,
    ∃ r ∈ p.store.dims, r.key.dimension = x.1 ∧ r.id = x.2
  /-- No later write uses an id of a transaction that was rolled back. -/
  minted : ∀ script n drawn p' acts q,
    ProjectorStep p (.abandon script n drawn) p' →
    Steps ProjectorStep p' acts q →
    ∀ x ∈ (script.runFor n (p.open p.holder.takeForBlock.1)).minted,
      ∀ (later : Script δ) m,
        ¬(later.runFor m (q.open q.holder.takeForBlock.1)).Uses x

theorem dimension_cache_transparent {p₀ p : Projector δ}
    {acts : List (ProjectorAct δ)}
    (hstore : StoreOk ∅ p₀.sequences p₀.store)
    (hholder : p₀.holder = ProjectionDimensionCache.new)
    (hrun : Steps ProjectorStep p₀ acts p) : Transparent p := by
  have hstart : ProjectorOk ∅ p₀ := by
    refine ⟨hstore, fun f key id hlook => ?_⟩
    rw [hholder] at hlook
    cases hlook
  have hok := hstart.steps hrun
  constructor
  · intro f key id hlook
    obtain ⟨r, hr, he⟩ := List.mem_map.mp (hok.held f key id hlook).2.1
    obtain ⟨hkey, hid⟩ := Prod.mk.inj he
    exact ⟨r, hr, hkey, hid⟩
  · exact hok.run_contents
  · exact hok.runFor_contents
  · intro row hrow x hx
    obtain ⟨y, hy, rfl⟩ := List.mem_map.mp (hok.store.refs row hrow x hx)
    obtain ⟨r, hr, rfl⟩ := List.mem_map.mp hy
    exact ⟨r, hr, rfl, rfl⟩
  · intro script n drawn p' acts q habandon hlater x hx later m
    have hq := (hok.abandoned habandon).steps hlater
    exact (hq.runFor_ok later m).not_uses hx

/-- A block with a producer and no transactions. -/
def producedBlock (hash : String) : DecodedBlock where
  header :=
    { hash := hash
      protocol := none
      chainAddress := none
      validatorAddress := none
      producerAddress := some "P2K"
      timestampUnixSeconds := 0
      reward := none }
  transactions := []

/-- `project_decoded_block` of such a block, over rows that are hashes. -/
def projectHeader (hash : String) : Script String :=
  projectScript 1 (producedBlock hash)
    (fun found => found.rows.mapIdx (fun i x => (x.1, [.column i 0])) ++
      [(hash, [.resolved 2])])
    (fun found => found.rows.mapIdx fun i x => (x.1, [.column i 0]))
    (fun found => found.rows.mapIdx fun i x => (x.1, [.column i 0]))

def emptyProjector : Projector String where
  holder := .new
  store := { dims := [], rows := [] }
  sequences := fun _ => 1

/-- A write given up after two calls and two that commit, the second with what
the first left in the cache. -/
def retryActs : List (ProjectorAct String) :=
  [.abandon (projectHeader "A1") 2 fun _ => 0,
    .write (projectHeader "A1") true, .write (projectHeader "A2") true]

/-- Id `1` went with the rollback, so the producer has `3`. -/
theorem dimension_cache_transparent_of_retry :
    ∃ p, Steps ProjectorStep emptyProjector retryActs p ∧
      (p.holder .headerAddresses).lookup (.address 1 "P2K") = some 3 ∧
      Transparent p := by
  have hend : (runSteps projectorStep emptyProjector retryActs).map
      (fun p => (p.holder .headerAddresses).lookup (.address 1 "P2K")) =
        some (some 3) := by decide
  obtain ⟨p, hp, hheld⟩ := Option.map_eq_some_iff.mp hend
  have hrun : Steps ProjectorStep emptyProjector retryActs p :=
    steps_of_runSteps hp
  have hstore : StoreOk ∅ emptyProjector.sequences emptyProjector.store := by
    refine ⟨⟨List.nodup_nil, List.nodup_nil, ?_, ?_, ?_⟩, ?_⟩ <;>
      intro x hx <;> cases hx
  exact ⟨p, hrun, hheld, dimension_cache_transparent hstore rfl hrun⟩

end Explorer.Ref
