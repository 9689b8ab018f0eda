import Explorer.Lib.Results
import Explorer.Proofs.ResolutionCalls
import Explorer.Ref.BlockList

/-!
# Which block lists honour their filters

The pages are slices of one list, so what a list honours is decided by its
`WHERE` clause. Every clause but one is its criterion. The clause of `q` is
skipped when there is no height, and then the hash is skipped with it: a `q`
that is a number and short is honoured, and any other only where the blocks
that meet the rest happen to meet it.
-/

namespace Explorer.Ref

open Explorer.Lib

/-! ## Criteria -/

section

variable (toUppercase : String → String)

/-- What the parameters other than `q` ask of a block. -/
structure BlockListQuery.MeetsRest (query : BlockListQuery)
    (block : BlockCells) : Prop where
  id : ∀ id, (emptyToNone query.id).map (normalizeBlockId toUppercase) =
    some id → block.hash = some id ∨ parseI64 id = some block.height
  hash : ∀ hash, emptyToNone query.hash = some hash →
    block.hash = some (toUppercase hash)
  height : ∀ text height, emptyToNone query.height = some text →
    parseI64 text = some height → block.height = height
  dateLess : ∀ text date, emptyToNone query.dateLess = some text →
    parseI64 text = some date → block.timestampUnixSeconds ≤ date
  dateGreater : ∀ text date, emptyToNone query.dateGreater = some text →
    parseI64 text = some date → date ≤ block.timestampUnixSeconds

/-- What `q` asks: a number asks for the height, a text of 64 characters for
the hash, and what is neither is met by no block. -/
structure BlockListQuery.MeetsQ (query : BlockListQuery) (block : BlockCells) :
    Prop where
  number : ∀ q height, emptyToNone query.q = some q →
    parseI64 q = some height → block.height = height
  hash : ∀ q, emptyToNone query.q = some q → 64 ≤ q.length →
    block.hash = some (toUppercase q)
  either : ∀ q, emptyToNone query.q = some q →
    parseI64 q ≠ none ∨ 64 ≤ q.length

/-- The block is one of the chain that is asked for. -/
def BlockListQuery.OfChain (db : BlockListDb) (defaultChain : String)
    (query : BlockListQuery) (block : BlockCells) : Prop :=
  resolveChainIdByName db.chains (queryChain query.chain defaultChain) =
    .ok block.chainId

/-- The chain is known, and the order, the direction, the height and the dates
can be read. A request that is not readable is refused. -/
structure BlockListQuery.Readable (db : BlockListDb) (defaultChain : String)
    (query : BlockListQuery) : Prop where
  chain : ∃ chainId, resolveChainIdByName db.chains
    (queryChain query.chain defaultChain) = .ok chainId
  orderBy : ∃ orderBy, parseBlockOrderBy (emptyToNone query.orderBy) =
    .ok orderBy
  orderDirection : ∃ direction, parseSortDirection query.orderDirection =
    .ok direction
  height : ∃ height, parseOptionalI64 (emptyToNone query.height) "height" =
    .ok height
  dateLess : ∃ date, parseOptionalI64 (emptyToNone query.dateLess)
    "date_less" = .ok date
  dateGreater : ∃ date, parseOptionalI64 (emptyToNone query.dateGreater)
    "date_greater" = .ok date

/-- A request for a page of the list. -/
def blockPages (textLe : String → String → Bool) (db : BlockListDb)
    (defaultChain : String) (query : BlockListQuery) (limit : Option Int)
    (cursor : Option String) :
    Except ApiError (List BlockListRow × Option String) :=
  blocks toUppercase textLe db defaultChain
    { query with limit := limit, cursor := cursor }

/-- Every block of a page meets the criteria, and the pages have every block
that does. -/
structure HonoursFilters (textLe : String → String → Bool) (db : BlockListDb)
    (defaultChain : String) (query : BlockListQuery) : Prop where
  sound : ∀ {limit cursor rows next},
    blockPages toUppercase textLe db defaultChain query limit cursor =
      .ok (rows, next) →
    ∀ row ∈ rows, ∃ block ∈ db.blocks, db.row block = row ∧
      query.OfChain db defaultChain block ∧
      query.MeetsRest toUppercase block ∧ query.MeetsQ toUppercase block
  complete : ∀ {limits pages},
    Walk (blockPages toUppercase textLe db defaultChain query) none limits
      pages true →
    ∀ block ∈ db.blocks, query.OfChain db defaultChain block →
      query.MeetsRest toUppercase block → query.MeetsQ toUppercase block →
      db.row block ∈ pages.flatten
  ends : ∀ {limit answer},
    blockPages toUppercase textLe db defaultChain query limit none =
      .ok answer →
    ∀ limits : Nat → Option Int, ∃ k pages,
      Walk (blockPages toUppercase textLe db defaultChain query) none
        ((List.range k).map limits) pages true

/-- A short number fits. A long one fits when height and hash agree on the
blocks that meet the rest; what is no number fits when it is as long as a hash
and they all have that hash. -/
def BlockListQuery.QFits (db : BlockListDb) (defaultChain : String)
    (query : BlockListQuery) : Prop :=
  ∀ q, emptyToNone query.q = some q →
    match parseI64 q with
    | some height => q.length < 64 ∨ ∀ block ∈ db.blocks,
        query.OfChain db defaultChain block →
        query.MeetsRest toUppercase block →
        (block.height = height ↔ block.hash = some (toUppercase q))
    | none => ∀ block ∈ db.blocks, query.OfChain db defaultChain block →
        query.MeetsRest toUppercase block →
        64 ≤ q.length ∧ block.hash = some (toUppercase q)

end

/-! ## A request that is answered -/

/-- The parameters of a request, read. -/
structure ParsedBlockQuery (db : BlockListDb) (defaultChain : String)
    (query : BlockListQuery) where
  chainId : Int32
  orderBy : BlockOrderBy
  direction : SortDirection
  height : Option Int64
  dateLess : Option Int64
  dateGreater : Option Int64
  chain_ok : resolveChainIdByName db.chains
    (queryChain query.chain defaultChain) = .ok chainId
  orderBy_ok : parseBlockOrderBy (emptyToNone query.orderBy) = .ok orderBy
  direction_ok : parseSortDirection query.orderDirection = .ok direction
  height_ok : parseOptionalI64 (emptyToNone query.height) "height" = .ok height
  dateLess_ok : parseOptionalI64 (emptyToNone query.dateLess) "date_less" =
    .ok dateLess
  dateGreater_ok : parseOptionalI64 (emptyToNone query.dateGreater)
    "date_greater" = .ok dateGreater

section

variable {toUppercase : String → String} {textLe : String → String → Bool}
  {db : BlockListDb} {defaultChain : String} {query : BlockListQuery}

theorem BlockListQuery.Readable.parsed (h : query.Readable db defaultChain) :
    Nonempty (ParsedBlockQuery db defaultChain query) := by
  obtain ⟨⟨chainId, hchain⟩, ⟨orderBy, horderBy⟩, ⟨direction, hdirection⟩,
    ⟨height, hheight⟩, ⟨dateLess, hdateLess⟩,
    ⟨dateGreater, hdateGreater⟩⟩ := h
  exact ⟨⟨chainId, orderBy, direction, height, dateLess, dateGreater, hchain,
    horderBy, hdirection, hheight, hdateLess, hdateGreater⟩⟩

theorem ParsedBlockQuery.readable
    (p : ParsedBlockQuery db defaultChain query) :
    query.Readable db defaultChain :=
  ⟨⟨_, p.chain_ok⟩, ⟨_, p.orderBy_ok⟩, ⟨_, p.direction_ok⟩, ⟨_, p.height_ok⟩,
    ⟨_, p.dateLess_ok⟩, ⟨_, p.dateGreater_ok⟩⟩

/-- The filter of the request. -/
def ParsedBlockQuery.filter (toUppercase : String → String)
    (p : ParsedBlockQuery db defaultChain query) : BlockFilter where
  chainId := p.chainId
  id := (emptyToNone query.id).map (normalizeBlockId toUppercase)
  idHeight := ((emptyToNone query.id).map
    (normalizeBlockId toUppercase)).bind parseI64
  hash := (emptyToNone query.hash).map toUppercase
  height := p.height
  qHeight := qHeight (emptyToNone query.q)
  qHash := qHash toUppercase (emptyToNone query.q)
  dateLess := p.dateLess
  dateGreater := p.dateGreater

/-- The rows the pages are slices of. -/
def ParsedBlockQuery.rows (toUppercase : String → String)
    (textLe : String → String → Bool)
    (p : ParsedBlockQuery db defaultChain query) : List BlockListRow :=
  selectBlocks textLe db (p.filter toUppercase) p.orderBy p.direction

/-- A row more than the page has is fetched, and dropped again. -/
theorem trimOffsetRows_offsetPage (rows : List α) (limit offset : Nat) :
    trimOffsetRows (offsetPage rows (limit + 1) offset) limit offset =
      (offsetPage rows limit offset,
        (nextOffset rows limit offset).map fun n : Nat => encodeOffset n) := by
  have htake : (offsetPage rows (limit + 1) offset).take limit =
      offsetPage rows limit offset := by
    rw [offsetPage, List.take_take, Nat.min_eq_left (Nat.le_succ limit),
      offsetPage]
  rw [trimOffsetRows, htake]
  split
  · next h =>
      obtain ⟨next, hnext, hstart⟩ := length_lt_offsetPage_succ.mp h
      obtain ⟨hlen, -⟩ := nextOffset_some hnext
      rw [hnext, Option.map_some, hlen]
      rfl
  · next h =>
      have hnone : nextOffset rows limit offset = none := by
        cases hnext : nextOffset rows limit offset with
        | none => rfl
        | some next =>
            obtain ⟨hlen, hlt⟩ := nextOffset_some hnext
            refine absurd (length_lt_offsetPage_succ.mpr ⟨next, hnext, ?_⟩) h
            rw [offsetPage, List.length_take, List.length_drop] at hlen
            omega
      rw [hnone, ← htake, List.take_of_length_le (not_lt.mp h)]
      rfl

theorem blockPages_parsed (p : ParsedBlockQuery db defaultChain query)
    {limit : Option Int} {cursor : Option String} {offset : Nat}
    (hcursor : parseOptionalOffset cursor = .ok (offset : Int)) :
    blockPages toUppercase textLe db defaultChain query limit cursor =
      .ok (offsetPage (p.rows toUppercase textLe) (clampLimit limit) offset,
        (nextOffset (p.rows toUppercase textLe) (clampLimit limit)
          offset).map fun n : Nat => encodeOffset n) := by
  rw [blockPages, blocks, ← trimOffsetRows_offsetPage]
  simp only [hcursor, p.chain_ok, p.orderBy_ok, p.direction_ok, p.height_ok,
    p.dateLess_ok, p.dateGreater_ok]
  rfl

theorem parseOptionalOffset_nonneg {cursor : Option String} {offset : Int}
    (h : parseOptionalOffset cursor = .ok offset) : 0 ≤ offset := by
  cases cursor with
  | none =>
      cases h
      exact le_refl _
  | some text =>
      rw [parseOptionalOffset, parseOffset] at h
      cases hstrip : stripStart "offset:".toList text.toList with
      | none =>
          rw [hstrip] at h
          cases h
      | some payload =>
          cases hparse : parseSigned 64 payload with
          | error e =>
              simp only [hstrip, hparse] at h
              cases h
          | ok n =>
              simp only [hstrip, hparse] at h
              by_cases hneg : n < 0
              · rw [if_pos hneg] at h
                cases h
              · rw [if_neg hneg] at h
                cases h
                exact not_lt.mp hneg

/-- An answer comes from parameters and a cursor that could be read. -/
theorem blockPages_ok {limit : Option Int} {cursor : Option String}
    {answer : List BlockListRow × Option String}
    (h : blockPages toUppercase textLe db defaultChain query limit cursor =
      .ok answer) :
    ∃ (_ : ParsedBlockQuery db defaultChain query) (offset : Nat),
      parseOptionalOffset cursor = .ok (offset : Int) := by
  rw [blockPages, blocks] at h
  obtain ⟨offset, hoffset, h⟩ := bind_eq_ok h
  obtain ⟨chainId, hchain, h⟩ := bind_eq_ok h
  obtain ⟨orderBy, horderBy, h⟩ := bind_eq_ok h
  obtain ⟨direction, hdirection, h⟩ := bind_eq_ok h
  obtain ⟨height, hheight, h⟩ := bind_eq_ok h
  obtain ⟨dateLess, hdateLess, h⟩ := bind_eq_ok h
  obtain ⟨dateGreater, hdateGreater, -⟩ := bind_eq_ok h
  refine ⟨⟨chainId, orderBy, direction, height, dateLess, dateGreater, hchain,
    horderBy, hdirection, hheight, hdateLess, hdateGreater⟩, offset.toNat, ?_⟩
  rw [Int.toNat_of_nonneg (parseOptionalOffset_nonneg hoffset)]
  exact hoffset

/-- Ids of 32 bits that are distinct are few. -/
theorem length_lt_of_ids {α : Type} {id : α → Int32} {l : List α}
    (h : (l.map id).Nodup) : l.length < 2 ^ 63 := by
  have hfin : (l.map fun a => (id a).toBitVec.toFin).Nodup := by
    have hinj : Function.Injective fun i : Int32 => i.toBitVec.toFin := by
      intro i j hij
      exact Int32.toBitVec_inj.mp (BitVec.toFin_inj.mp hij)
    have hmap := h.map hinj
    rw [List.map_map] at hmap
    exact hmap
  have hle := hfin.length_le_card
  rw [List.length_map, Fintype.card_fin] at hle
  omega

theorem servesOffsets (p : ParsedBlockQuery db defaultChain query) :
    ServesOffsets (p.rows toUppercase textLe) clampLimit
      (fun cursor offset => parseOptionalOffset cursor = .ok (offset : Int))
      (fun n : Nat => encodeOffset n)
      (blockPages toUppercase textLe db defaultChain query) where
  answers := fun hcursor => blockPages_parsed p hcursor
  readsBack := by
    intro offset hlt
    refine parseOptionalOffset_encode (hlt.trans_le ?_)
    rw [ParsedBlockQuery.rows, selectBlocks, List.length_map,
      (SortDirection.orderBy_perm _ _ _ _).length_eq]
    exact (List.length_filter_le _ _).trans (length_lt_of_ids db.blockIds).le

/-! ## The clause of each parameter -/

/-- A parameter that was read is absent or its text is a number. -/
theorem parseOptionalI64_ok {value : Option String} {field : String}
    {n : Option Int64} (h : parseOptionalI64 value field = .ok n) :
    n = value.bind parseI64 ∧ n.isSome = value.isSome := by
  cases value with
  | none =>
      cases h
      exact ⟨rfl, rfl⟩
  | some text =>
      rw [parseOptionalI64] at h
      rw [Option.bind_some, parseI64]
      cases hparse : parseSigned 64 text.toList with
      | error e =>
          rw [hparse] at h
          cases h
      | ok n =>
          rw [hparse] at h
          cases h
          exact ⟨rfl, rfl⟩

theorem qHeight_eq (q : Option String) : qHeight q = q.bind parseI64 := by
  cases q with
  | none => rfl
  | some text =>
      rw [qHeight, parseOptionalI64, Option.bind_some, parseI64]
      cases parseSigned 64 text.toList <;> rfl

/-- What the clause of `q` lets through. -/
def qLetsThrough (toUppercase : String → String) (query : BlockListQuery)
    (block : BlockCells) : Prop :=
  ∀ q height, emptyToNone query.q = some q → parseI64 q = some height →
    block.height = height ∨
      (64 ≤ byteLen q.toList ∧ block.hash = some (toUppercase q))

/-- A clause that compares a column with an optional number. -/
theorem all_parsed_iff {param : Option String} {field : String}
    {n : Option Int64} (h : parseOptionalI64 (emptyToNone param) field = .ok n)
    {P : Int64 → Bool} {Q : Int64 → Prop} (hP : ∀ m, P m = true ↔ Q m) :
    n.all P = true ↔ ∀ text m, emptyToNone param = some text →
      parseI64 text = some m → Q m := by
  obtain ⟨rfl, -⟩ := parseOptionalI64_ok h
  rw [Option.all_eq_true]
  constructor
  · intro hall text m htext hm
    refine (hP m).mp (hall m ?_)
    rw [htext]
    exact hm
  · intro hall m hm
    obtain ⟨text, htext, hm⟩ := Option.bind_eq_some_iff.mp hm
    exact (hP m).mpr (hall text m htext hm)

theorem any_qHash_iff {q : String} {block : BlockCells} :
    ((qHash toUppercase (some q)).any fun hash => block.hash == some hash) =
        true ↔
      64 ≤ byteLen q.toList ∧ block.hash = some (toUppercase q) := by
  rw [qHash, Option.filter_some]
  by_cases hlong : 64 ≤ byteLen q.toList
  · rw [if_pos (decide_eq_true hlong), Option.map_some, Option.any_some,
      beq_iff_eq, and_iff_right hlong]
  · rw [if_neg (by simpa using hlong)]
    refine iff_of_false (fun h => ?_) fun h => hlong h.1
    cases h

theorem all_qHeight_iff {block : BlockCells} :
    ((qHeight (emptyToNone query.q)).all fun height =>
        block.height == height ||
          (qHash toUppercase (emptyToNone query.q)).any fun hash =>
            block.hash == some hash) = true ↔
      qLetsThrough toUppercase query block := by
  rw [qHeight_eq, Option.all_eq_true]
  constructor
  · intro hall q height hq hparse
    have hclause := hall height (by rw [hq]; exact hparse)
    rw [Bool.or_eq_true, beq_iff_eq, hq, any_qHash_iff] at hclause
    exact hclause
  · intro hall height hheight
    obtain ⟨q, hq, hparse⟩ := Option.bind_eq_some_iff.mp hheight
    rw [Bool.or_eq_true, beq_iff_eq, hq, any_qHash_iff]
    exact hall q height hq hparse

/-- The clause of `id`, which is looked up as a hash and as a height. -/
theorem all_id_iff {id : Option String} {block : BlockCells} :
    (id.all fun text => block.hash == some text ||
        (id.bind parseI64).any fun height => block.height == height) = true ↔
      ∀ text, id = some text →
        block.hash = some text ∨ parseI64 text = some block.height := by
  cases id with
  | none => exact iff_of_true rfl (fun text h => by cases h)
  | some text =>
      rw [Option.all_some, Bool.or_eq_true, beq_iff_eq, Option.bind_some,
        Option.any_eq_true]
      constructor
      · rintro (hhash | ⟨height, hparse, hheight⟩) _ h
        · cases h
          exact .inl hhash
        · cases h
          exact .inr (hparse.trans (congrArg some (beq_iff_eq.mp hheight).symm))
      · intro h
        refine (h text rfl).imp_right fun hparse => ?_
        exact ⟨block.height, hparse, beq_self_eq_true _⟩

theorem all_hash_iff {hash : Option String} {block : BlockCells} :
    ((hash.map toUppercase).all fun text => block.hash == some text) = true ↔
      ∀ text, hash = some text → block.hash = some (toUppercase text) := by
  cases hash <;> simp

/-- The `WHERE` clause, parameter by parameter. -/
theorem selects_iff (p : ParsedBlockQuery db defaultChain query)
    (block : BlockCells) :
    (p.filter toUppercase).selects block = true ↔
      query.OfChain db defaultChain block ∧
      query.MeetsRest toUppercase block ∧
      qLetsThrough toUppercase query block := by
  have hheight := all_parsed_iff p.height_ok
    (fun m => beq_iff_eq (a := block.height) (b := m))
  have hless := all_parsed_iff p.dateLess_ok
    (fun m => decide_eq_true_iff (p := block.timestampUnixSeconds ≤ m))
  have hgreater := all_parsed_iff p.dateGreater_ok
    (fun m => decide_eq_true_iff (p := m ≤ block.timestampUnixSeconds))
  have hchain : block.chainId = p.chainId ↔
      query.OfChain db defaultChain block := by
    rw [BlockListQuery.OfChain, p.chain_ok, Except.ok.injEq]
    exact eq_comm
  simp only [BlockFilter.selects, ParsedBlockQuery.filter, Bool.and_eq_true,
    hheight, hless, hgreater, all_qHeight_iff, all_id_iff, all_hash_iff,
    beq_iff_eq, hchain]
  constructor
  · rintro ⟨⟨⟨⟨⟨⟨hof, hid⟩, hhash⟩, hheight⟩, hq⟩, hless⟩, hgreater⟩
    exact ⟨hof, ⟨hid, hhash, hheight, hless, hgreater⟩, hq⟩
  · rintro ⟨hof, hrest, hq⟩
    exact ⟨⟨⟨⟨⟨⟨hof, hrest.id⟩, hrest.hash⟩, hrest.height⟩, hq⟩,
      hrest.dateLess⟩, hrest.dateGreater⟩

theorem mem_rows (p : ParsedBlockQuery db defaultChain query)
    {row : BlockListRow} :
    row ∈ p.rows toUppercase textLe ↔ ∃ block ∈ db.blocks,
      db.row block = row ∧ query.OfChain db defaultChain block ∧
        query.MeetsRest toUppercase block ∧
        qLetsThrough toUppercase query block := by
  rw [ParsedBlockQuery.rows, selectBlocks, List.mem_map]
  constructor
  · rintro ⟨block, hblock, rfl⟩
    rw [(SortDirection.orderBy_perm _ _ _ _).mem_iff, List.mem_filter,
      selects_iff] at hblock
    exact ⟨block, hblock.1, rfl, hblock.2⟩
  · rintro ⟨block, hblock, rfl, hclauses⟩
    refine ⟨block, ?_, rfl⟩
    rw [(SortDirection.orderBy_perm _ _ _ _).mem_iff, List.mem_filter,
      selects_iff]
    exact ⟨hblock, hclauses⟩

/-! ## What the clause of `q` misses -/

theorem utf8Size_of_isDigit {c : Char} (h : c.isDigit = true) :
    c.utf8Size = 1 := by
  rw [Char.utf8Size_eq_one_iff]
  rw [Char.isDigit, Bool.and_eq_true, decide_eq_true_iff,
    decide_eq_true_iff] at h
  exact UInt32.le_trans h.2 (by decide)

theorem utf8Size_of_parseDigits {max n m : Nat} {overflow : String}
    {cs : List Char} (h : parseDigits max overflow n cs = .ok m) :
    ∀ c ∈ cs, c.utf8Size = 1 := by
  induction cs generalizing n with
  | nil => exact fun c hc => absurd hc List.not_mem_nil
  | cons d cs ih =>
      rw [parseDigits] at h
      split at h
      · next hdigit =>
          dsimp only at h
          split at h
          · exact List.forall_mem_cons.mpr ⟨utf8Size_of_isDigit hdigit, ih h⟩
          · cases h
      · cases h

/-- A number is written in single bytes. -/
theorem utf8Size_of_parseSigned {bits : Nat} {cs : List Char} {n : Int}
    (h : parseSigned bits cs = .ok n) : ∀ c ∈ cs, c.utf8Size = 1 := by
  have hmap : ∀ {r : Except String Nat} {f : Int → Int} {n : Int},
      (do let m ← r; pure (m : Int) : Except String Int).map f = .ok n →
        ∃ m, r = .ok m := by
    intro r f n hr
    cases r with
    | error e => cases hr
    | ok m => exact ⟨m, rfl⟩
  unfold parseSigned at h
  split at h
  · cases h
  · cases h
  · cases h
  · obtain ⟨m, hm⟩ := hmap h
    exact List.forall_mem_cons.mpr ⟨by decide, utf8Size_of_parseDigits hm⟩
  · obtain ⟨m, hm⟩ := hmap h
    exact List.forall_mem_cons.mpr ⟨by decide, utf8Size_of_parseDigits hm⟩
  · obtain ⟨m, hm⟩ := hmap h
    exact utf8Size_of_parseDigits hm

theorem byteLen_of_parseI64 {text : String} {n : Int64}
    (h : parseI64 text = some n) : byteLen text.toList = text.length := by
  have hbytes : ∀ c ∈ text.toList, c.utf8Size = 1 := by
    rw [parseI64] at h
    cases hparse : parseSigned 64 text.toList with
    | error e =>
        rw [hparse] at h
        cases h
    | ok m => exact utf8Size_of_parseSigned hparse
  rw [byteLen, List.map_congr_left hbytes, List.map_const', List.sum_replicate,
    String.length_toList, smul_eq_mul, mul_one]

theorem BlockListQuery.MeetsQ.letsThrough {block : BlockCells}
    (h : query.MeetsQ toUppercase block) :
    qLetsThrough toUppercase query block :=
  fun q height hq hparse => .inl (h.number q height hq hparse)

/-- The clause of `q` is its criterion exactly where `q` fits. -/
theorem qFits_iff : query.QFits toUppercase db defaultChain ↔
    ∀ block ∈ db.blocks, query.OfChain db defaultChain block →
      query.MeetsRest toUppercase block →
      qLetsThrough toUppercase query block →
      query.MeetsQ toUppercase block := by
  cases hq : emptyToNone query.q with
  | none =>
      refine iff_of_true (fun q h => ?_) fun block _ _ _ _ =>
        ⟨fun q _ h => ?_, fun q h => ?_, fun q h => ?_⟩
      all_goals
        rw [hq] at h
        cases h
  | some q =>
      cases hparse : parseI64 q with
      | none =>
          constructor
          · intro hfits block hblock hof hrest _
            have hall := hfits q hq
            rw [hparse] at hall
            obtain ⟨hlong, hhash⟩ := hall block hblock hof hrest
            refine ⟨fun q' height h h' => ?_, fun q' h _ => ?_, fun q' h => ?_⟩
            all_goals
              rw [hq] at h
              cases h
            · rw [hparse] at h'
              cases h'
            · exact hhash
            · exact .inr hlong
          · intro hmeets q' h
            rw [hq] at h
            cases h
            rw [hparse]
            intro block hblock hof hrest
            have hmeet := hmeets block hblock hof hrest fun q' height h h' => by
              rw [hq] at h
              cases h
              rw [hparse] at h'
              cases h'
            have hlong := (hmeet.either q hq).resolve_left (not_not.mpr hparse)
            exact ⟨hlong, hmeet.hash q hq hlong⟩
      | some height =>
          have hbytes := byteLen_of_parseI64 hparse
          constructor
          · intro hfits block hblock hof hrest hthrough
            have hall := hfits q hq
            rw [hparse] at hall
            have hlets := hthrough q height hq hparse
            rw [hbytes] at hlets
            have hboth : block.height = height ∧ (64 ≤ q.length →
                block.hash = some (toUppercase q)) := by
              rcases hall with hshort | hagree
              · have hheight := hlets.resolve_right fun h => by omega
                exact ⟨hheight, fun h => absurd hshort (not_lt.mpr h)⟩
              · have hagree := hagree block hblock hof hrest
                have hheight := hlets.elim id fun h => hagree.mpr h.2
                exact ⟨hheight, fun _ => hagree.mp hheight⟩
            refine ⟨fun q' height' h h' => ?_, fun q' h hlong => ?_,
              fun q' h => ?_⟩
            all_goals
              rw [hq] at h
              cases h
            · rw [hparse] at h'
              cases h'
              exact hboth.1
            · exact hboth.2 hlong
            · exact .inl (by rw [hparse]; exact Option.some_ne_none _)
          · intro hmeets q' h
            rw [hq] at h
            cases h
            rw [hparse]
            by_cases hshort : q.length < 64
            · exact .inl hshort
            · refine .inr fun block hblock hof hrest => ?_
              have hmeet : block.height = height ∨
                  (64 ≤ byteLen q.toList ∧
                    block.hash = some (toUppercase q)) →
                  query.MeetsQ toUppercase block := by
                intro hlets
                refine hmeets block hblock hof hrest fun q' height' h h' => ?_
                rw [hq] at h
                cases h
                rw [hparse] at h'
                cases h'
                exact hlets
              constructor
              · intro hheight
                exact (hmeet (.inl hheight)).hash q hq (not_lt.mp hshort)
              · intro hhash
                refine (hmeet (.inr ⟨?_, hhash⟩)).number q height hq hparse
                rw [hbytes]
                exact not_lt.mp hshort

/-! ## The list -/

/-- The pages of an answered request reach every row of its list. -/
theorem walk_blockPages (p : ParsedBlockQuery db defaultChain query)
    {limits : List (Option Int)} {pages : List (List BlockListRow)}
    (hwalk : Walk (blockPages toUppercase textLe db defaultChain query) none
      limits pages true) :
    pages.flatten = p.rows toUppercase textLe :=
  ((servesOffsets p).walk offset_start hwalk).2 rfl

theorem honoursFilters_of_meets
    (hmeets : ∀ block ∈ db.blocks, query.OfChain db defaultChain block →
      query.MeetsRest toUppercase block →
      qLetsThrough toUppercase query block →
      query.MeetsQ toUppercase block) :
    HonoursFilters toUppercase textLe db defaultChain query where
  sound := by
    intro limit cursor rows next hanswer row hrow
    obtain ⟨p, offset, hcursor⟩ := blockPages_ok hanswer
    rw [blockPages_parsed p hcursor] at hanswer
    obtain ⟨rfl, -⟩ := Prod.mk.inj (Except.ok.inj hanswer)
    have hmem := List.mem_of_mem_drop (List.mem_of_mem_take hrow)
    obtain ⟨block, hblock, hrow, hof, hrest, hq⟩ := (mem_rows p).mp hmem
    exact ⟨block, hblock, hrow, hof, hrest, hmeets block hblock hof hrest hq⟩
  complete := by
    intro limits pages hwalk block hblock hof hrest hq
    have hanswer : ∃ limit answer, blockPages toUppercase textLe db
        defaultChain query limit none = .ok answer := by
      cases hwalk with
      | last hreq => exact ⟨_, _, hreq⟩
      | next hreq _ => exact ⟨_, _, hreq⟩
    obtain ⟨limit, answer, hanswer⟩ := hanswer
    obtain ⟨p, -, -⟩ := blockPages_ok hanswer
    rw [walk_blockPages p hwalk]
    exact (mem_rows p).mpr ⟨block, hblock, rfl, hof, hrest, hq.letsThrough⟩
  ends := by
    intro limit answer hanswer limits
    obtain ⟨p, -, -⟩ := blockPages_ok hanswer
    exact (servesOffsets p).walk_ends offset_start limits
      fun i => clampLimit_pos (limits i)

/-- The block list honours its filters exactly when the request is refused or
its `q` fits. -/
theorem block_list_honours_iff (toUppercase : String → String)
    (textLe : String → String → Bool) (db : BlockListDb) (defaultChain : String)
    (query : BlockListQuery) :
    HonoursFilters toUppercase textLe db defaultChain query ↔
      (query.Readable db defaultChain →
        query.QFits toUppercase db defaultChain) := by
  constructor
  · intro hhonours hreadable
    obtain ⟨p⟩ := hreadable.parsed
    rw [qFits_iff]
    intro block hblock hof hrest hthrough
    -- the row of the block is on one of the pages, and sound
    have hanswer : blockPages toUppercase textLe db defaultChain query none
        none = _ := blockPages_parsed p offset_start
    obtain ⟨k, pages, hwalk⟩ := hhonours.ends hanswer fun _ => none
    have hrow : db.row block ∈ pages.flatten := by
      rw [walk_blockPages p hwalk]
      exact (mem_rows p).mpr ⟨block, hblock, rfl, hof, hrest, hthrough⟩
    obtain ⟨page, hpage, hrow⟩ := List.mem_flatten.mp hrow
    obtain ⟨limit', cursor, next, hpage⟩ := hwalk.answered hpage
    obtain ⟨block', hblock', hsame, -, -, hq⟩ := hhonours.sound hpage _ hrow
    have hid : block'.id = block.id := congrArg BlockListRow.id hsame
    rw [← List.inj_on_of_nodup_map db.blockIds hblock' hblock hid]
    exact hq
  · intro hfits
    by_cases hreadable : query.Readable db defaultChain
    · exact honoursFilters_of_meets (qFits_iff.mp (hfits hreadable))
    · -- the parameters are refused, whatever the cursor
      have hnone : ∀ limit cursor answer, blockPages toUppercase textLe db
          defaultChain query limit cursor ≠ .ok answer := by
        intro limit cursor answer hanswer
        obtain ⟨p, -, -⟩ := blockPages_ok hanswer
        exact hreadable p.readable
      refine ⟨fun h => absurd h (hnone _ _ _), fun h => ?_,
        fun h => absurd h (hnone _ _ _)⟩
      cases h with
      | last hreq => exact absurd hreq (hnone _ _ _)
      | next hreq _ => exact absurd hreq (hnone _ _ _)

end

/-- A chain of one block. -/
def oneBlock : BlockListDb where
  chains := [⟨1, some "main"⟩]
  blocks := [⟨1, 7, 1700000000, 1,
    some (String.ofList (List.replicate 64 'A')), 19, 1, 1, none, none⟩]
  addresses := []
  transactionBlocks := []
  blockIds := List.nodup_singleton _

/-- `to_uppercase`, of ASCII text. -/
def upperAscii (text : String) : String :=
  String.ofList (text.toList.map Char.toUpper)

/-- A request for a hash that no block has. -/
def unknownHashQuery : BlockListQuery :=
  { q := some (String.ofList (List.replicate 64 'F')) }

/-- Asked for a hash that no block has, the list shows the block. -/
theorem block_list_drops_hash :
    blockPages upperAscii (fun a b => decide (a ≤ b)) oneBlock "main"
        unknownHashQuery none none =
      .ok (oneBlock.blocks.map oneBlock.row, none) ∧
    ¬HonoursFilters upperAscii (fun a b => decide (a ≤ b)) oneBlock "main"
      unknownHashQuery := by
  have hanswer : blockPages upperAscii (fun a b => decide (a ≤ b))
      oneBlock "main" unknownHashQuery none none =
        .ok (oneBlock.blocks.map oneBlock.row, none) := rfl
  refine ⟨hanswer, fun hhonours => ?_⟩
  obtain ⟨block, hblock, -, -, -, hq⟩ :=
    hhonours.sound hanswer _ (List.mem_singleton_self _)
  have hhash := hq.hash _ rfl (by decide +kernel)
  rw [List.mem_singleton.mp hblock] at hhash
  exact absurd hhash (by decide +kernel)

end Explorer.Ref
