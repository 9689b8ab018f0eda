import Explorer.Lib.Keyset
import Explorer.Lib.Tables
import Explorer.Ref.Pages
import Mathlib.Data.Prod.Lex
import Mathlib.Order.Lattice

/-!
# The lists page without gaps and repeats

The seek predicate, the order of the query and the cursor that
`trim_page_rows` writes all compare the sort column first and the id second.
`SeekKey` is that order, and with it a request is a page of `Lib/Keyset.lean`:
what a walk visits follows from there. What is left for each list is that its
rows have distinct ids and that a row stays when rows are added.

The timeline of an address by date takes its page from the links and joins the
transactions afterwards. The join keeps the columns of the cursor, so it
commutes with the seek, the order and the limit.
-/

namespace Explorer.Ref

open Explorer.Lib

/-! ## Cursors as text -/

theorem splitOnce_append {sep : Char} {front rest : List Char}
    (h : sep ∉ front) :
    splitOnce sep (front ++ sep :: rest) = some (front, rest) := by
  induction front with
  | nil => simp [splitOnce]
  | cons c cs ih =>
      rw [List.mem_cons, not_or] at h
      rw [List.cons_append, splitOnce, if_neg (Ne.symm h.1), ih h.2]
      rfl

/-- The digits read so far never come down again. -/
theorem le_ofDigitChars {cs : List Char} {n : Nat} :
    n ≤ Nat.ofDigitChars 10 cs n := by
  induction cs generalizing n with
  | nil => exact Nat.le_refl n
  | cons c cs ih =>
      rw [Nat.ofDigitChars_cons]
      exact le_trans (by omega) ih

/-- Digits that stay in range are read. -/
theorem parseDigits_eq {max : Nat} {overflow : String} {cs : List Char}
    {n : Nat} (hdigits : ∀ c ∈ cs, c.isDigit = true)
    (hmax : Nat.ofDigitChars 10 cs n ≤ max) :
    parseDigits max overflow n cs = .ok (Nat.ofDigitChars 10 cs n) := by
  induction cs generalizing n with
  | nil => rfl
  | cons c cs ih =>
      rw [Nat.ofDigitChars_cons] at hmax ⊢
      have hstep : 10 * n + (c.toNat - '0'.toNat) ≤ max :=
        le_trans le_ofDigitChars hmax
      rw [parseDigits, if_pos (hdigits c List.mem_cons_self), if_pos hstep]
      exact ih (fun d hd => hdigits d (List.mem_cons_of_mem _ hd)) hmax

/-- The decimals of a number are digits, and there is one. -/
theorem decimals_spec (n : Nat) :
    (∀ c ∈ n.repr.toList, c.isDigit = true) ∧ n.repr.toList ≠ [] ∧
      Nat.ofDigitChars 10 n.repr.toList 0 = n := by
  rw [Nat.toList_repr]
  refine ⟨?_, Nat.toDigits_ne_nil, Nat.ofDigitChars_ten_toDigits⟩
  intro c hc
  exact Nat.isDigit_of_mem_toDigits (by decide) (by decide) hc

theorem parseSigned_neg {bits : Nat} {cs : List Char} (h : cs ≠ []) :
    parseSigned bits ('-' :: cs) =
      (parseDigits (2 ^ (bits - 1)) "number too small to fit in target type"
        0 cs).map fun n => -(n : Int) := by
  cases cs with
  | nil => exact absurd rfl h
  | cons c cs => rfl

theorem parseSigned_digits {bits : Nat} {cs : List Char} (h : cs ≠ [])
    (hdigits : ∀ c ∈ cs, c.isDigit = true) :
    parseSigned bits cs =
      (parseDigits (2 ^ (bits - 1) - 1)
        "number too large to fit in target type" 0 cs).map
          fun n => (n : Int) := by
  rw [parseSigned.eq_def]
  split
  · exact absurd rfl h
  · exact absurd (hdigits _ List.mem_cons_self) (by decide)
  · exact absurd (hdigits _ List.mem_cons_self) (by decide)
  · exact absurd (hdigits _ List.mem_cons_self) (by decide)
  · exact absurd (hdigits _ List.mem_cons_self) (by decide)
  · rfl

theorem toList_toString_int (i : Int) :
    (toString i).toList =
      if i < 0 then '-' :: i.natAbs.repr.toList else i.natAbs.repr.toList := by
  rw [Int.toString_eq_repr, Int.repr.eq_def]
  cases i with
  | ofNat n => rfl
  | negSucc n =>
      rw [if_pos (Int.negSucc_lt_zero n), String.toList_append]
      rfl

/-- A signed integer is read back from its decimals. -/
theorem parseSigned_toString {bits : Nat} {i : Int}
    (hlow : -2 ^ (bits - 1) ≤ i) (hhigh : i < 2 ^ (bits - 1)) :
    parseSigned bits (toString i).toList = .ok i := by
  obtain ⟨hdigits, hne, hread⟩ := decimals_spec i.natAbs
  have hcast : ((2 ^ (bits - 1) : Nat) : Int) = 2 ^ (bits - 1) := by simp
  rw [toList_toString_int]
  by_cases hneg : i < 0
  · have habs : i.natAbs ≤ 2 ^ (bits - 1) := by omega
    rw [if_pos hneg, parseSigned_neg hne,
      parseDigits_eq hdigits (hread.trans_le habs), hread]
    have hback : -(i.natAbs : Int) = i := by omega
    exact congrArg Except.ok hback
  · have habs : i.natAbs ≤ 2 ^ (bits - 1) - 1 := by omega
    rw [if_neg hneg, parseSigned_digits hne hdigits,
      parseDigits_eq hdigits (hread.trans_le habs), hread]
    exact congrArg Except.ok (Int.natAbs_of_nonneg (by omega))

theorem colon_notMem_toString (i : Int) : ':' ∉ (toString i).toList := by
  obtain ⟨hdigits, -, -⟩ := decimals_spec i.natAbs
  have hrepr : ':' ∉ i.natAbs.repr.toList :=
    fun hmem => absurd (hdigits _ hmem) (by decide)
  rw [toList_toString_int]
  split
  · rw [List.mem_cons, not_or]
    exact ⟨by decide, hrepr⟩
  · exact hrepr

theorem colon_notMem_text (kind : CursorKind) : ':' ∉ kind.text.toList := by
  cases kind <;> decide

theorem CursorKind.text_injective {k k' : CursorKind}
    (h : k.text.toList = k'.text.toList) : k = k' := by
  revert h
  cases k <;> cases k' <;> decide

theorem toList_encode (c : PageCursor) (kind : CursorKind) :
    (c.encode kind).toList = kind.text.toList ++ ':' ::
      ((toString c.sortValue.toInt).toList ++ ':' ::
        (toString c.id.toInt).toList) := by
  simp only [PageCursor.encode, String.toList_append, List.append_assoc]
  rfl

theorem parseSigned_int64 (v : Int64) :
    parseSigned 64 (toString v.toInt).toList = .ok v.toInt :=
  parseSigned_toString v.le_toInt v.toInt_lt

theorem parseSigned_int32 (v : Int32) :
    parseSigned 32 (toString v.toInt).toList = .ok v.toInt :=
  parseSigned_toString v.le_toInt v.toInt_lt

/-- A cursor is read back by its own kind and by no other. -/
theorem parse_encode (c : PageCursor) (kind expectedKind : CursorKind) :
    PageCursor.parse (c.encode kind) expectedKind =
      if kind = expectedKind then .ok c
      else .error ("cursor kind must be '" ++ expectedKind.text ++ "'") := by
  rw [PageCursor.parse, toList_encode,
    splitOnce_append (colon_notMem_text kind)]
  by_cases hkind : kind = expectedKind
  · subst hkind
    simp only [ne_eq, not_true_eq_false, if_false, if_true,
      splitOnce_append (colon_notMem_toString _), parseSigned_int64,
      parseSigned_int32, Int64.ofInt_toInt, Int32.ofInt_toInt]
  · have htext : kind.text.toList ≠ expectedKind.text.toList :=
      fun h => hkind (CursorKind.text_injective h)
    simp only [htext, ne_eq, not_false_eq_true, if_true, hkind, if_false]

theorem parseOptional_encode (c : Option PageCursor) (kind : CursorKind) :
    PageCursor.parseOptional (c.map fun c => c.encode kind) kind = .ok c := by
  cases c with
  | none => rfl
  | some c => rw [Option.map_some, PageCursor.parseOptional, parse_encode,
      if_pos rfl]

/-! ## The order of a list -/

/-- Where a row stands in its list: a cursor, compared in the direction of the
list. -/
structure SeekKey (dir : SortDirection) where
  cursor : PageCursor

/-- The key as a pair of integers that goes up. -/
def SeekKey.rank {dir : SortDirection} (k : SeekKey dir) : ℤ ×ₗ ℤ :=
  match dir with
  | .asc => toLex (k.cursor.sortValue.toInt, k.cursor.id.toInt)
  | .desc => toLex (-k.cursor.sortValue.toInt, -k.cursor.id.toInt)

theorem SeekKey.rank_injective (dir : SortDirection) :
    Function.Injective fun k : SeekKey dir => k.rank := by
  rintro ⟨⟨v, i⟩⟩ ⟨⟨w, j⟩⟩ h
  have hkey : v.toInt = w.toInt ∧ i.toInt = j.toInt := by
    cases dir with
    | asc => exact Prod.mk.inj (toLex.injective h)
    | desc =>
        obtain ⟨hv, hi⟩ := Prod.mk.inj (toLex.injective h)
        exact ⟨Int.neg_inj.mp hv, Int.neg_inj.mp hi⟩
  rw [Int64.toInt_inj.mp hkey.1, Int32.toInt_inj.mp hkey.2]

instance (dir : SortDirection) : LinearOrder (SeekKey dir) :=
  LinearOrder.lift' _ (SeekKey.rank_injective dir)

variable {α ο : Type}

/-- The key of a row. -/
def SortDirection.key (dir : SortDirection) (r : PageRow α) : SeekKey dir :=
  ⟨⟨r.cursorSortValue, r.cursorId⟩⟩

theorem SeekKey.lt_iff {dir : SortDirection} {c d : PageCursor} :
    (⟨c⟩ : SeekKey dir) < ⟨d⟩ ↔
      dir.cursorOperator d.sortValue c.sortValue = true ∨
        d.sortValue = c.sortValue ∧ dir.cursorOperator d.id c.id = true := by
  cases dir with
  | asc =>
      refine Prod.Lex.toLex_lt_toLex.trans ?_
      simp only [SortDirection.cursorOperator, decide_eq_true_eq,
        Int64.lt_iff_toInt_lt, Int32.lt_iff_toInt_lt, ← Int64.toInt_inj]
      omega
  | desc =>
      refine Prod.Lex.toLex_lt_toLex.trans ?_
      simp only [SortDirection.cursorOperator, decide_eq_true_eq,
        Int64.lt_iff_toInt_lt, Int32.lt_iff_toInt_lt, ← Int64.toInt_inj]
      omega

/-- The query seeks past its cursor. -/
theorem seeks_pageAt (orderBy : ο) (dir : SortDirection) (limit : Nat)
    (cursor : Option PageCursor) (r : PageRow α) :
    (pageAt orderBy dir limit cursor).seeks r =
      isAfter dir.key (cursor.map SeekKey.mk) r := by
  cases cursor with
  | none => rfl
  | some c =>
      rw [Bool.eq_iff_iff, Option.map_some, isAfter_some, SortDirection.key,
        SeekKey.lt_iff]
      simp [Page.seeks, pageAt]

theorem orders_iff {dir : SortDirection} {a b : PageRow α} :
    dir.orders a b = true ↔ dir.key a ≤ dir.key b := by
  rw [← not_lt, SortDirection.key, SortDirection.key, SeekKey.lt_iff]
  cases dir <;>
    simp only [SortDirection.orders, SortDirection.cursorOperator,
      Bool.or_eq_true, Bool.and_eq_true, Bool.not_eq_true',
      decide_eq_true_eq, decide_eq_false_iff_not, beq_iff_eq,
      Int64.lt_iff_toInt_lt, Int32.lt_iff_toInt_lt, ← Int64.toInt_inj] <;>
    omega

theorem insertionSort_congr {r s : α → α → Prop} [DecidableRel r]
    [DecidableRel s] (h : ∀ a b, r a b ↔ s a b) (l : List α) :
    l.insertionSort r = l.insertionSort s := by
  obtain rfl : r = s := by
    funext a b
    exact propext (h a b)
  congr!

theorem sort_eq (dir : SortDirection) (rows : List (PageRow α)) :
    dir.sort rows = rows.insertionSort fun a b => dir.key a ≤ dir.key b :=
  insertionSort_congr (fun _ _ => orders_iff) rows

theorem select_pageAt (orderBy : ο) (dir : SortDirection) (limit : Nat)
    (cursor : Option PageCursor) (rows : List (PageRow α)) :
    (pageAt orderBy dir limit cursor).select rows =
      (remaining dir.key (cursor.map SeekKey.mk) rows).take (limit + 1) := by
  have hseeks := funext fun r : PageRow α =>
    seeks_pageAt orderBy dir limit cursor r
  rw [Page.select, hseeks, sort_eq, remaining]
  rfl

/-- A trimmed list query is a page of its rows. -/
theorem trimPageRows_select (orderBy : ο) (dir : SortDirection) (limit : Nat)
    (cursor : Option PageCursor) (rows : List (PageRow α))
    (kind : CursorKind) :
    trimPageRows ((pageAt orderBy dir limit cursor).select rows) limit kind =
      ((keysetPage dir.key rows limit (cursor.map SeekKey.mk)).1,
        (keysetPage dir.key rows limit (cursor.map SeekKey.mk)).2.map
          fun k => k.cursor.encode kind) := by
  rw [select_pageAt, trimPageRows, keysetPage]
  split
  · simp only [Option.map_map]
    rfl
  · next hshort =>
      rw [List.take_of_length_le (not_lt.mp hshort)]
      rfl

/-! ## Walks through a list -/

/-- `a` comes before `b` in a list that goes in this direction: by the sort
column, and by the id where that is equal. -/
def SortDirection.precedes : SortDirection → PageRow α → PageRow α → Prop
  | .asc, a, b => a.cursorSortValue < b.cursorSortValue ∨
      a.cursorSortValue = b.cursorSortValue ∧ a.cursorId < b.cursorId
  | .desc, a, b => b.cursorSortValue < a.cursorSortValue ∨
      a.cursorSortValue = b.cursorSortValue ∧ b.cursorId < a.cursorId

theorem precedes_iff {dir : SortDirection} {a b : PageRow α} :
    dir.precedes a b ↔ dir.key a < dir.key b := by
  rw [SortDirection.key, SortDirection.key, SeekKey.lt_iff]
  cases dir <;>
    simp only [SortDirection.precedes, SortDirection.cursorOperator,
      decide_eq_true_eq, eq_comm (a := a.cursorSortValue)]

/-- Rows were added, and none went or changed. -/
structure ListDb.Grows (db db' : ListDb) : Prop where
  transactions : db.transactions ⊆ db'.transactions
  addressTransactions : db.addressTransactions ⊆ db'.addressTransactions
  events : db.events ⊆ db'.events

/-- A request of a walk: the database it finds and the limit it asks for. -/
structure PageRequest where
  db : ListDb
  limit : Option Int

/-- The databases of a walk only grow. -/
def Growing (ss : List PageRequest) : Prop :=
  ss.Pairwise fun s s' => s.db.Grows s'.db

/-- What following the cursors of a list from its first page gives. -/
structure Paginates [DecidableEq α]
    (request : PageRequest → Option String →
      Except String (List (PageRow α) × Option String))
    (dir : SortDirection) (matching : ListDb → List (PageRow α)) : Prop where
  /-- The rows come in order, -/
  ordered : ∀ {ss pages ended}, Walk request none ss pages ended →
    Growing ss → pages.flatten.Pairwise dir.precedes
  /-- none of them twice, -/
  once : ∀ {ss pages ended}, Walk request none ss pages ended →
    Growing ss → (pages.flatten.map fun r => r.cursorId).Nodup
  /-- all of them match, -/
  sound : ∀ {ss pages ended}, Walk request none ss pages ended →
    ∀ r ∈ pages.flatten, ∃ s ∈ ss, r ∈ matching s.db
  /-- and a page has at most the rows it was asked for. -/
  sizes : ∀ {ss pages ended}, Walk request none ss pages ended →
    List.Forall₂ (fun s page => page.length ≤ clampLimit s.limit) ss pages
  /-- Every cursor is accepted by the next request. -/
  continues : ∀ {ss pages}, Walk request none ss pages false → ∀ s,
    ∃ page ended, Walk request none (ss ++ [s]) (pages ++ [page]) ended
  /-- At the end nothing that was there from the start is left out. -/
  complete : ∀ {s ss pages}, Walk request none (s :: ss) pages true →
    Growing (s :: ss) → ∀ r ∈ matching s.db, pages.flatten.count r = 1
  /-- Over a fixed database the end is reached, -/
  ends : ∀ (db : ListDb) (limits : Nat → Option Int), ∃ n pages,
    Walk request none ((List.range n).map fun i => ⟨db, limits i⟩) pages true
  /-- when every row has been there and not before. -/
  last : ∀ {db ss pages ended}, Walk request none ss pages ended → ss ≠ [] →
    (∀ s ∈ ss, s.db = db) →
    (ended = true ↔ ∀ r ∈ matching db, r ∈ pages.flatten)

theorem clampLimit_pos (limit : Option Int) : 0 < clampLimit limit := by
  rw [clampLimit]
  omega

section

variable {request : PageRequest → Option String →
    Except String (List (PageRow α) × Option String)}
  {dir : SortDirection} {kind : CursorKind}
  {matching : ListDb → List (PageRow α)} {ss : List PageRequest}
  {pages : List (List (PageRow α))} {ended : Bool}

/-- The request answers pages of the matching rows. -/
def AnswersPages (request : PageRequest → Option String →
      Except String (List (PageRow α) × Option String))
    (dir : SortDirection) (kind : CursorKind)
    (matching : ListDb → List (PageRow α)) : Prop :=
  Serves dir.key (fun s : PageRequest => matching s.db)
    (fun s => clampLimit s.limit) (fun k => k.cursor.encode kind) request

/-- The first request has no cursor. -/
theorem walk_start (dir : SortDirection) (kind : CursorKind)
    (h : Walk request none ss pages ended) :
    Walk request ((none : Option (SeekKey dir)).map
      fun k => k.cursor.encode kind) ss pages ended := h

/-- Rows of different ids have different keys. -/
theorem nodup_key {rows : List (PageRow α)}
    (h : (rows.map fun r => r.cursorId).Nodup) :
    (rows.map dir.key).Nodup := by
  refine List.Nodup.of_map (fun k : SeekKey dir => k.cursor.id) ?_
  rw [List.map_map]
  exact h

/-- A matching row of a growing walk is still there at its last request. -/
theorem Growing.mem_last
    (hmono : ∀ {db db' : ListDb}, db.Grows db' → matching db ⊆ matching db')
    {front : List PageRequest} {s s' : PageRequest} {r : PageRow α}
    (hgrowing : Growing (front ++ [s'])) (hs : s ∈ front ++ [s'])
    (hr : r ∈ matching s.db) : r ∈ matching s'.db := by
  rcases List.mem_append.mp hs with hs | hs
  · exact hmono ((List.pairwise_append.mp hgrowing).2.2 s hs s'
      List.mem_cons_self) hr
  · rw [← List.mem_singleton.mp hs]
    exact hr

theorem Growing.mem_first
    (hmono : ∀ {db db' : ListDb}, db.Grows db' → matching db ⊆ matching db')
    {s s' : PageRequest} {r : PageRow α} (hgrowing : Growing (s :: ss))
    (hs' : s' ∈ s :: ss) (hr : r ∈ matching s.db) : r ∈ matching s'.db := by
  rcases List.mem_cons.mp hs' with rfl | hs'
  · exact hr
  · exact hmono (List.rel_of_pairwise_cons hgrowing hs') hr

/-- Rows in strict order with no two of one id that differ have each id
once. -/
theorem nodup_cursorId {rows visited : List (PageRow α)}
    (hids : (rows.map fun r => r.cursorId).Nodup)
    (hsub : visited ⊆ rows)
    (hsorted : visited.Pairwise fun a b => dir.key a < dir.key b) :
    (visited.map fun r => r.cursorId).Nodup := by
  rw [List.Nodup, List.pairwise_map]
  refine hsorted.imp_of_mem ?_
  intro a b ha hb hlt heq
  have hab := List.inj_on_of_nodup_map hids (hsub ha) (hsub hb) heq
  rw [hab] at hlt
  exact lt_irrefl _ hlt

/-- A request that parses its cursor, lists and trims. -/
theorem answersPages {orderBy : ο}
    {list : ListDb → Page ο → List (PageRow α)}
    (hlist : ∀ db limit cursor,
      list db (pageAt orderBy dir limit cursor) =
        (pageAt orderBy dir limit cursor).select (matching db)) :
    AnswersPages
      (fun s cursor =>
        match PageCursor.parseOptional cursor kind with
        | .error e => .error e
        | .ok c => .ok (trimPageRows
            (list s.db (pageAt orderBy dir (clampLimit s.limit) c))
            (clampLimit s.limit) kind))
      dir kind matching := by
  intro s after
  have hparse := parseOptional_encode (after.map fun k => k.cursor) kind
  have hafter : (after.map fun k => k.cursor).map SeekKey.mk = after := by
    cases after <;> rfl
  rw [Option.map_map] at hparse
  have htrim := trimPageRows_select orderBy dir (clampLimit s.limit)
    (after.map fun k => k.cursor) (matching s.db) kind
  rw [hafter, ← hlist] at htrim
  rw [← htrim]
  simp only [Function.comp_def] at hparse
  simp only [hparse]

theorem paginates [DecidableEq α]
    (hserves : AnswersPages request dir kind matching)
    (hids : ∀ db, ((matching db).map fun r => r.cursorId).Nodup)
    (hmono : ∀ {db db' : ListDb}, db.Grows db' →
      matching db ⊆ matching db') :
    Paginates request dir matching where
  ordered hwalk _ := by
    have hsorted := (walk_start dir kind hwalk).sorted hserves
      fun s _ => nodup_key (hids s.db)
    exact hsorted.imp precedes_iff.mpr
  once {ss pages ended} hwalk hgrowing := by
    have hsorted := (walk_start dir kind hwalk).sorted hserves
      fun s _ => nodup_key (hids s.db)
    have hmem := (walk_start dir kind hwalk).mem hserves
    rcases List.eq_nil_or_concat ss with rfl | ⟨front, s', rfl⟩
    · cases hwalk
      exact List.nodup_nil
    · -- every row visited is in the last database, where ids are unique
      rw [List.concat_eq_append] at hgrowing hmem
      refine nodup_cursorId (hids s'.db) ?_ hsorted
      intro r hr
      obtain ⟨⟨s, hs, hrow⟩, -⟩ := hmem r hr
      exact hgrowing.mem_last hmono hs hrow
  sound hwalk r hr := ((walk_start dir kind hwalk).mem hserves r hr).1
  sizes hwalk := (walk_start dir kind hwalk).sizes hserves
  continues hwalk s := (walk_start dir kind hwalk).extend hserves rfl s
  complete {s ss pages} hwalk hgrowing r hr := by
    have hsorted := (walk_start dir kind hwalk).sorted hserves
      fun s _ => nodup_key (hids s.db)
    have hnodup : pages.flatten.Nodup := by
      refine hsorted.imp ?_
      rintro a b hlt rfl
      exact lt_irrefl _ hlt
    refine List.count_eq_one_of_mem hnodup ?_
    exact (walk_start dir kind hwalk).complete hserves rfl
      (fun s _ => nodup_key (hids s.db)) (fun s _ => clampLimit_pos s.limit)
      (fun s' hs' => hgrowing.mem_first hmono hs' hr) rfl
  ends db limits := by
    let ask : Nat → PageRequest := fun i => ⟨db, limits i⟩
    let n := (remaining dir.key none (matching db)).length + 1
    have hrows : ∀ s ∈ (List.range n).map ask, matching s.db = matching db := by
      intro s hs
      obtain ⟨i, -, rfl⟩ := List.mem_map.mp hs
      rfl
    have hlen : (remaining dir.key none (matching db)).length <
        ((List.range n).map ask).length := by
      rw [List.length_map, List.length_range]
      exact Nat.lt_succ_self _
    obtain ⟨k, pages, hwalk⟩ := walk_ends hserves hrows hlen
    rw [← List.map_take, List.take_range] at hwalk
    exact ⟨min k n, pages, hwalk⟩
  last {db ss pages ended} hwalk hne hdb := by
    have hrows : ∀ s ∈ ss, matching s.db = matching db :=
      fun s hs => by rw [hdb s hs]
    have hiff := (walk_start dir kind hwalk).ended_iff hserves hne
      (nodup_key (hids db)) hrows (fun s _ => clampLimit_pos s.limit)
    rw [hiff]
    exact ⟨fun h r hr => h r hr rfl, fun h r hr _ => h r hr⟩

end

/-! ## Transactions -/

section

variable (ilike : String → String → Bool)

/-- The row of a link in the list of its address, when its transaction passes
the filters. -/
def TransactionQuery.linkRow (query : TransactionQuery) (db : ListDb)
    (link : AddressTransaction) : Option (PageRow ListedTransaction) :=
  ((db.transaction link.transactionId).filter
      (query.filter.selects ilike)).map fun tx =>
    { row := tx
      cursorSortValue := query.orderBy.addressColumn link tx
      cursorId := link.transactionId }

/-- The rows a request for transactions is about. -/
def TransactionQuery.matching (query : TransactionQuery) (db : ListDb) :
    List (PageRow ListedTransaction) :=
  match query.address with
  | none => (db.transactions.filter (query.filter.selects ilike)).map
      fun tx =>
        { row := tx
          cursorSortValue := query.orderBy.column tx
          cursorId := tx.id }
  | some none => []
  | some (some addressId) =>
      (db.addressTransactions.filter fun l => l.addressId == addressId).filterMap
        (query.linkRow ilike db)

theorem ListDb.transaction_eq_some {db : ListDb} {id : Int32}
    {tx : ListedTransaction} :
    db.transaction id = some tx ↔ tx ∈ db.transactions ∧ tx.id = id :=
  find?_key_eq_some db.transactionIds

theorem TransactionQuery.linkRow_some {query : TransactionQuery} {db : ListDb}
    {link : AddressTransaction} {r : PageRow ListedTransaction}
    (h : query.linkRow ilike db link = some r) :
    ∃ tx, db.transaction link.transactionId = some tx ∧
      query.filter.selects ilike tx = true ∧
      r = ⟨tx, query.orderBy.addressColumn link tx, link.transactionId⟩ := by
  obtain ⟨tx, hfilter, rfl⟩ := Option.map_eq_some_iff.mp h
  obtain ⟨htx, hselects⟩ := Option.filter_eq_some_iff.mp hfilter
  exact ⟨tx, htx, hselects, rfl⟩

theorem TransactionQuery.linkRow_grows {query : TransactionQuery}
    {db db' : ListDb} (hgrows : db.Grows db') {link : AddressTransaction}
    {r : PageRow ListedTransaction}
    (h : query.linkRow ilike db link = some r) :
    query.linkRow ilike db' link = some r := by
  obtain ⟨tx, htx, hselects, rfl⟩ := linkRow_some ilike h
  obtain ⟨hmem, hid⟩ := ListDb.transaction_eq_some.mp htx
  have htx' := ListDb.transaction_eq_some.mpr
    ⟨hgrows.transactions hmem, hid⟩
  rw [linkRow, htx', Option.filter_some, if_pos hselects, Option.map_some]

theorem TransactionQuery.matching_grows {query : TransactionQuery}
    {db db' : ListDb} (hgrows : db.Grows db') :
    query.matching ilike db ⊆ query.matching ilike db' := by
  intro r hr
  rw [matching] at hr ⊢
  split at hr
  · obtain ⟨tx, htx, rfl⟩ := List.mem_map.mp hr
    rw [List.mem_filter] at htx
    exact List.mem_map.mpr ⟨tx, List.mem_filter.mpr
      ⟨hgrows.transactions htx.1, htx.2⟩, rfl⟩
  · cases hr
  · obtain ⟨link, hlink, hrow⟩ := List.mem_filterMap.mp hr
    rw [List.mem_filter] at hlink
    exact List.mem_filterMap.mpr ⟨link, List.mem_filter.mpr
      ⟨hgrows.addressTransactions hlink.1, hlink.2⟩,
      linkRow_grows ilike hgrows hrow⟩

/-- An address has one link to a transaction. -/
theorem nodup_linkRows {query : TransactionQuery} {db : ListDb}
    (addressId : Int32) :
    (((db.addressTransactions.filter fun l =>
      l.addressId == addressId).filterMap (query.linkRow ilike db)).map
        fun r => r.cursorId).Nodup := by
  have hlinks : (db.addressTransactions.filter fun l =>
      l.addressId == addressId).Pairwise
        fun l l' => l.transactionId ≠ l'.transactionId := by
    have hkeys := db.addressTransactionKeys
    rw [List.Nodup, List.pairwise_map] at hkeys
    refine (hkeys.filter _).imp_of_mem ?_
    intro l l' hl hl' hne heq
    have haddress := eq_of_beq (List.mem_filter.mp hl).2
    have haddress' := eq_of_beq (List.mem_filter.mp hl').2
    exact hne (Prod.ext (haddress.trans haddress'.symm) heq)
  rw [List.Nodup, List.pairwise_map, List.pairwise_filterMap]
  refine hlinks.imp ?_
  intro l l' hne r hr r' hr'
  obtain ⟨tx, -, -, rfl⟩ := TransactionQuery.linkRow_some ilike hr
  obtain ⟨tx', -, -, rfl⟩ := TransactionQuery.linkRow_some ilike hr'
  exact hne

theorem TransactionQuery.nodup_matching (query : TransactionQuery)
    (db : ListDb) :
    ((query.matching ilike db).map fun r => r.cursorId).Nodup := by
  rw [matching]
  split
  · rw [List.map_map]
    exact List.Nodup.sublist (List.filter_sublist.map _) db.transactionIds
  · exact List.nodup_nil
  · exact nodup_linkRows ilike _

/-- A join that keeps the columns of the cursor commutes with the seek, the
order and the limit of a page. -/
theorem select_map {β : Type} (page : Page ο) (f : PageRow α → PageRow β)
    (hvalue : ∀ r, (f r).cursorSortValue = r.cursorSortValue)
    (hid : ∀ r, (f r).cursorId = r.cursorId) (rows : List (PageRow α)) :
    page.select (rows.map f) = (page.select rows).map f := by
  have hseeks : page.seeks ∘ f = page.seeks := by
    funext r
    simp only [Function.comp_apply, Page.seeks, hvalue, hid]
  have horders : ∀ a b, page.direction.orders (f a) (f b) =
      page.direction.orders a b := by
    intro a b
    simp only [SortDirection.orders, hvalue, hid]
  have hsort : ∀ l : List (PageRow α), page.direction.sort (l.map f) =
      (page.direction.sort l).map f := by
    intro l
    refine (List.map_insertionSort _ _ f l ?_).symm
    intro a _ b _
    rw [horders]
  rw [Page.select, Page.select, List.filter_map, hseeks, hsort,
    List.map_take]

/-- A page is already in the order of its list. -/
theorem sort_select (page : Page ο) (rows : List (PageRow α)) :
    page.direction.sort (page.select rows) = page.select rows := by
  rw [Page.select, sort_eq, sort_eq]
  exact (List.pairwise_insertionSort _ _).take.insertionSort_eq

theorem mem_of_mem_select {page : Page ο} {rows : List (PageRow α)}
    {r : PageRow α} (h : r ∈ page.select rows) : r ∈ rows := by
  rw [Page.select, SortDirection.sort] at h
  exact List.mem_of_mem_filter
    ((List.mem_insertionSort _).mp (List.mem_of_mem_take h))

theorem ListDb.transaction_of_link {db : ListDb} {link : AddressTransaction}
    (h : link ∈ db.addressTransactions) :
    ∃ tx, db.transaction link.transactionId = some tx := by
  obtain ⟨tx, htx, hid⟩ := db.linked link h
  exact ⟨tx, ListDb.transaction_eq_some.mpr ⟨htx, hid⟩⟩

theorem TransactionFilter.selects_of_isEmpty {filter : TransactionFilter}
    (h : filter.isEmpty = true) (tx : ListedTransaction) :
    filter.selects ilike tx = true := by
  simp only [isEmpty, Bool.and_eq_true, Option.isNone_iff_eq_none] at h
  obtain ⟨⟨⟨⟨⟨⟨⟨h1, h2⟩, h3⟩, h4⟩, h5⟩, h6⟩, h7⟩, h8⟩ := h
  simp [selects, transactionQForms, h1, h2, h3, h4, h5, h6, h7, h8]

/-- The transaction a row of the timeline is joined to. -/
def ListDb.joined (db : ListDb) (r : PageRow Int32) :
    PageRow ListedTransaction :=
  { r with row := (db.transaction r.row).getD default }

/-- The links the timeline takes its page from. -/
def ListDb.timelineRows (db : ListDb) (addressId : Int32)
    (orderBy : TransactionOrderBy) : List (PageRow Int32) :=
  let links := db.addressTransactions.filter fun l => l.addressId == addressId
  match orderBy with
  | .date => links.map fun l =>
      ⟨l.transactionId, l.timestampUnixSeconds, l.transactionId⟩
  | .blockHeight => links.filterMap fun l =>
      (db.transaction l.transactionId).map fun tx =>
        ⟨l.transactionId, tx.blockHeight, l.transactionId⟩

theorem mem_timelineRows {db : ListDb} {addressId : Int32}
    {orderBy : TransactionOrderBy} {r : PageRow Int32}
    (h : r ∈ db.timelineRows addressId orderBy) :
    ∃ link ∈ db.addressTransactions, r.row = link.transactionId := by
  cases orderBy with
  | date =>
      obtain ⟨link, hlink, rfl⟩ := List.mem_map.mp h
      exact ⟨link, List.mem_of_mem_filter hlink, rfl⟩
  | blockHeight =>
      obtain ⟨link, hlink, hrow⟩ := List.mem_filterMap.mp h
      obtain ⟨tx, -, rfl⟩ := Option.map_eq_some_iff.mp hrow
      exact ⟨link, List.mem_of_mem_filter hlink, rfl⟩

theorem timelineRows_joined {query : TransactionQuery} (db : ListDb)
    (addressId : Int32) (hfilter : query.filter.isEmpty = true) :
    (db.timelineRows addressId query.orderBy).map db.joined =
      (db.addressTransactions.filter fun l =>
        l.addressId == addressId).filterMap (query.linkRow ilike db) := by
  have hlink : ∀ link ∈ db.addressTransactions, ∃ tx,
      db.transaction link.transactionId = some tx ∧
      query.linkRow ilike db link = some
        ⟨tx, query.orderBy.addressColumn link tx, link.transactionId⟩ := by
    intro link hmem
    obtain ⟨tx, htx⟩ := ListDb.transaction_of_link hmem
    refine ⟨tx, htx, ?_⟩
    rw [TransactionQuery.linkRow, htx, Option.filter_some,
      if_pos (TransactionFilter.selects_of_isEmpty ilike hfilter tx),
      Option.map_some]
  cases horder : query.orderBy with
  | date =>
      simp only [ListDb.timelineRows, List.map_map]
      rw [← List.filterMap_eq_map]
      refine List.filterMap_congr fun link hmem => ?_
      obtain ⟨tx, htx, hrow⟩ := hlink link (List.mem_of_mem_filter hmem)
      rw [hrow, horder]
      simp [ListDb.joined, htx, TransactionOrderBy.addressColumn]
  | blockHeight =>
      simp only [ListDb.timelineRows, List.map_filterMap]
      refine List.filterMap_congr fun link hmem => ?_
      obtain ⟨tx, htx, hrow⟩ := hlink link (List.mem_of_mem_filter hmem)
      rw [hrow, horder]
      simp [ListDb.joined, htx, TransactionOrderBy.addressColumn]

/-- The timeline is the list of the address without filters. -/
theorem timeline_eq {query : TransactionQuery} {db : ListDb}
    {addressId : Int32} {page : Page TransactionOrderBy}
    (hfilter : query.filter.isEmpty = true)
    (horder : page.orderBy = query.orderBy) :
    listTransactionsForAddressTimeline db addressId page =
      page.select ((db.addressTransactions.filter fun l =>
        l.addressId == addressId).filterMap (query.linkRow ilike db)) := by
  have hjoin : ∀ rows : List (PageRow Int32),
      rows ⊆ db.timelineRows addressId query.orderBy →
      (rows.filterMap fun r => (db.transaction r.row).map fun tx =>
        ({ r with row := tx } : PageRow ListedTransaction)) =
        rows.map db.joined := by
    intro rows hrows
    rw [← List.filterMap_eq_map]
    refine List.filterMap_congr fun r hr => ?_
    obtain ⟨link, hlink, hrow⟩ := mem_timelineRows (hrows hr)
    obtain ⟨tx, htx⟩ := ListDb.transaction_of_link hlink
    rw [← hrow] at htx
    simp [ListDb.joined, htx]
  calc listTransactionsForAddressTimeline db addressId page
      = page.direction.sort
          ((page.select (db.timelineRows addressId query.orderBy)).map
            db.joined) := by
        rw [← hjoin _ fun r hr => mem_of_mem_select hr, ← horder]
        rfl
    _ = page.select
          ((db.timelineRows addressId query.orderBy).map db.joined) := by
        rw [← select_map page db.joined (fun _ => rfl) (fun _ => rfl),
          sort_select]
    _ = _ := by rw [timelineRows_joined ilike db addressId hfilter]

theorem TransactionQuery.list_eq (query : TransactionQuery) (db : ListDb)
    (limit : Nat) (cursor : Option PageCursor) :
    query.list ilike db (pageAt query.orderBy query.direction limit cursor) =
      (pageAt query.orderBy query.direction limit cursor).select
        (query.matching ilike db) := by
  rw [list, matching]
  cases query.address with
  | none => rfl
  | some address =>
      cases address with
      | none => rfl
      | some addressId =>
          by_cases hfilter : query.filter.isEmpty = true
          · simp only [hfilter, if_true]
            exact timeline_eq ilike hfilter rfl
          · simp only [hfilter]
            rfl

/-! ## Events -/

/-- The events a request is about. -/
def EventQuery.selects (query : EventQuery) (event : ListedEvent) : Bool :=
  match query.address with
  | none => (query.filter.chainId.all fun id => event.chainId == id) &&
      query.filter.selects ilike event event.texts
  | some none => false
  | some (some addressId) =>
      (event.addressId == addressId ||
        event.targetAddressId == some addressId) &&
      (query.filter.chainId.all fun id => event.chainId == id) &&
        query.filter.selects ilike event (event.targetAddress :: event.texts)

def EventQuery.matching (query : EventQuery) (db : ListDb) :
    List (PageRow ListedEvent) :=
  (db.events.filter (query.selects ilike)).map (listedEventRow query.orderBy)

theorem EventQuery.list_eq (query : EventQuery) (db : ListDb) (limit : Nat)
    (cursor : Option PageCursor) :
    query.list ilike db (pageAt query.orderBy query.direction limit cursor) =
      (pageAt query.orderBy query.direction limit cursor).select
        (query.matching ilike db) := by
  rw [list, matching]
  cases haddress : query.address with
  | none =>
      have hselects : query.selects ilike = fun event =>
          (query.filter.chainId.all fun id => event.chainId == id) &&
            query.filter.selects ilike event event.texts := by
        funext event
        rw [selects, haddress]
      rw [hselects]
      rfl
  | some address =>
      cases address with
      | none =>
          have hselects : query.selects ilike = fun _ => false := by
            funext event
            rw [selects, haddress]
          rw [hselects, List.filter_false]
          rfl
      | some addressId =>
          have hselects : query.selects ilike = fun event =>
              (event.addressId == addressId ||
                event.targetAddressId == some addressId) &&
              (query.filter.chainId.all fun id => event.chainId == id) &&
                query.filter.selects ilike event
                  (event.targetAddress :: event.texts) := by
            funext event
            rw [selects, haddress]
          rw [hselects]
          rfl

theorem EventQuery.matching_grows {query : EventQuery} {db db' : ListDb}
    (hgrows : db.Grows db') :
    query.matching ilike db ⊆ query.matching ilike db' :=
  List.map_subset _ (List.filter_subset _ hgrows.events)

theorem EventQuery.nodup_matching (query : EventQuery) (db : ListDb) :
    ((query.matching ilike db).map fun r => r.cursorId).Nodup := by
  rw [matching, List.map_map]
  exact List.Nodup.sublist (List.filter_sublist.map _) db.eventIds

/-- Following `next_cursor` visits every matching row once and in order, for
each of the lists; a cursor is read back by the list that wrote it. -/
theorem keyset_walks_visit_once :
    (∀ query : TransactionQuery,
      Paginates (fun s => loadTransactions ilike query s.db s.limit)
        query.direction (query.matching ilike)) ∧
    (∀ query : EventQuery,
      Paginates (fun s => loadEvents ilike query s.db s.limit)
        query.direction (query.matching ilike)) ∧
    ∀ (c : PageCursor) (kind expectedKind : CursorKind),
      PageCursor.parse (c.encode kind) expectedKind =
        if kind = expectedKind then .ok c
        else .error ("cursor kind must be '" ++ expectedKind.text ++ "'") := by
  refine ⟨fun query => ?_, fun query => ?_, parse_encode⟩
  · exact paginates (answersPages (query.list_eq ilike))
      (query.nodup_matching ilike) (query.matching_grows ilike)
  · exact paginates (answersPages (query.list_eq ilike))
      (query.nodup_matching ilike) (query.matching_grows ilike)

end

end Explorer.Ref
