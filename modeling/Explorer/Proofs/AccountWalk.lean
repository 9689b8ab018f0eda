import Explorer.Lib.Results
import Explorer.Ref.AccountPages

/-!
# A walk over pages has all of them or fails

Whatever the node answers, a walk that ends well has followed every cursor to
a page without one, and its rows are those of all the pages on the way. A walk
that is cut off, by an error, by a cursor that repeats or by the cap, is an
error: it never passes for a short list.
-/

namespace Explorer.Ref

open Explorer.Lib

section

variable {α : Type}

/-- No page comes after this one. -/
def CursorPage.Last (page : CursorPage α) : Prop :=
  page.cursor = none ∨ page.cursor = some ""

/-- The pages from a cursor to the end: each but the last gives a cursor that
is neither empty nor the one it was asked with, and the next is asked with
it. -/
inductive WalksTo (fetchPage : List String → Except RpcError (CursorPage α)) :
    List String → String → List (CursorPage α) → Prop where
  | last {cursors : List String} {cursor : String} {page : CursorPage α} :
      fetchPage (cursors ++ [cursor]) = .ok page → page.Last →
      WalksTo fetchPage cursors cursor [page]
  | next {cursors : List String} {cursor next : String} {page : CursorPage α}
      {pages : List (CursorPage α)} :
      fetchPage (cursors ++ [cursor]) = .ok page →
      page.cursor = some next → next ≠ "" → next ≠ cursor →
      WalksTo fetchPage (cursors ++ [cursor]) next pages →
      WalksTo fetchPage cursors cursor (page :: pages)

/-- The calls: the first asks with the empty cursor, and each later one with
the cursor of the page before it. -/
structure FollowsCursors
    (fetchPage : List String → Except RpcError (CursorPage α))
    (cursors : List String) : Prop where
  first : cursors[0]? = some ""
  later : ∀ i next, cursors[i + 1]? = some next → ∃ page,
    fetchPage (cursors.take (i + 1)) = .ok page ∧ page.cursor = some next

/-- All the pages, or an error. -/
structure CollectsAll (endpoint address : String)
    (fetchPage : List String → Except RpcError (CursorPage α)) : Prop where
  calls : (collectAccountPages endpoint address fetchPage).cursors.length ≤
    balanceMaxPages
  follows : FollowsCursors fetchPage
    (collectAccountPages endpoint address fetchPage).cursors
  complete : ∀ rows,
    (collectAccountPages endpoint address fetchPage).result = .ok rows ↔
      ∃ pages, WalksTo fetchPage [] "" pages ∧
        pages.length ≤ balanceMaxPages ∧ rows = pages.flatMap CursorPage.rows
  refused : (¬∃ pages, WalksTo fetchPage [] "" pages ∧
      pages.length ≤ balanceMaxPages) →
    ∃ error, (collectAccountPages endpoint address fetchPage).result =
      .error error

variable {fetchPage : List String → Except RpcError (CursorPage α)}

theorem walksTo_ne_nil {cursors : List String} {cursor : String}
    {pages : List (CursorPage α)}
    (h : WalksTo fetchPage cursors cursor pages) : pages ≠ [] := by
  cases h <;> exact List.cons_ne_nil _ _

/-- What the first answer says of the pages. -/
theorem walksTo_of_error {cursors : List String} {cursor : String}
    {pages : List (CursorPage α)} {error : RpcError}
    (hpage : fetchPage (cursors ++ [cursor]) = .error error) :
    ¬WalksTo fetchPage cursors cursor pages := by
  intro h
  cases h with
  | last hok _ =>
      rw [hpage] at hok
      cases hok
  | next hok _ _ _ _ =>
      rw [hpage] at hok
      cases hok

theorem walksTo_of_last {cursors : List String} {cursor : String}
    {page : CursorPage α} {pages : List (CursorPage α)}
    (hpage : fetchPage (cursors ++ [cursor]) = .ok page) (hlast : page.Last) :
    WalksTo fetchPage cursors cursor pages ↔ pages = [page] := by
  constructor
  · intro h
    cases h with
    | last hok _ =>
        rw [hpage] at hok
        cases hok
        rfl
    | next hok hnext hne _ _ =>
        rw [hpage] at hok
        cases hok
        rcases hlast with hnone | hempty
        · rw [hnone] at hnext
          cases hnext
        · rw [hempty] at hnext
          cases hnext
          exact absurd rfl hne
  · intro h
    subst h
    exact .last hpage hlast

theorem walksTo_of_next {cursors : List String} {cursor next : String}
    {page : CursorPage α} {pages : List (CursorPage α)}
    (hpage : fetchPage (cursors ++ [cursor]) = .ok page)
    (hnext : page.cursor = some next) (hne : next ≠ "") :
    WalksTo fetchPage cursors cursor pages ↔ next ≠ cursor ∧
      ∃ rest, pages = page :: rest ∧
        WalksTo fetchPage (cursors ++ [cursor]) next rest := by
  constructor
  · intro h
    cases h with
    | last hok hlast =>
        rw [hpage] at hok
        cases hok
        rcases hlast with hnone | hempty
        · rw [hnone] at hnext
          cases hnext
        · rw [hempty] at hnext
          cases hnext
          exact absurd rfl hne
    | next hok hnext' _ hmoves hrest =>
        rw [hpage] at hok
        cases hok
        rw [hnext] at hnext'
        cases hnext'
        exact ⟨hmoves, _, rfl, hrest⟩
  · rintro ⟨hmoves, rest, rfl, hrest⟩
    exact .next hpage hnext hne hmoves hrest

/-- The walk that ends on a page has this page alone. -/
theorem ok_iff_of_last {cursors : List String} {cursor : String}
    {page : CursorPage α} {left : Nat} {rows all : List α}
    (hpage : fetchPage (cursors ++ [cursor]) = .ok page) (hlast : page.Last) :
    (.ok (rows ++ page.rows) : Except RpcError (List α)) = .ok all ↔
      ∃ pages, WalksTo fetchPage cursors cursor pages ∧
        pages.length ≤ left + 1 ∧
        all = rows ++ pages.flatMap CursorPage.rows := by
  simp only [walksTo_of_last hpage hlast]
  constructor
  · intro h
    cases h
    refine ⟨[page], rfl, Nat.le_add_left 1 left, ?_⟩
    rw [List.flatMap_singleton]
  · rintro ⟨pages, rfl, -, rfl⟩
    rw [List.flatMap_singleton]

/-- The loop ends well exactly where the pages do, within its cap. -/
theorem collectPages_eq_ok_iff (endpoint address : String)
    (fetchPage : List String → Except RpcError (CursorPage α))
    (left pageNumber : Nat) (cursors : List String) (rows : List α)
    (cursor : String) (all : List α) :
    (collectPages endpoint address fetchPage left pageNumber cursors rows
      cursor).result = .ok all ↔
      ∃ pages, WalksTo fetchPage cursors cursor pages ∧ pages.length ≤ left ∧
        all = rows ++ pages.flatMap CursorPage.rows := by
  fun_induction collectPages endpoint address fetchPage left pageNumber
      cursors rows cursor with
  | case1 pageNumber cursors rows cursor =>
      constructor
      · intro h
        cases h
      · rintro ⟨pages, hwalk, hlength, -⟩
        exact absurd (List.length_eq_zero_iff.mp (Nat.le_zero.mp hlength))
          (walksTo_ne_nil hwalk)
  | case2 pageNumber cursors rows cursor left error hpage =>
      constructor
      · intro h
        cases h
      · rintro ⟨pages, hwalk, -, -⟩
        exact absurd hwalk (walksTo_of_error hpage)
  | case3 pageNumber cursors rows cursor left page hpage hnone =>
      exact ok_iff_of_last hpage (.inl hnone)
  | case4 pageNumber cursors rows cursor left page hpage next hnext hempty =>
      rw [String.isEmpty_iff] at hempty
      subst hempty
      exact ok_iff_of_last hpage (.inr hnext)
  | case5 pageNumber cursors rows cursor left page hpage next hnext hempty
      hmoves ih =>
      rw [String.isEmpty_iff] at hempty
      simp only [walksTo_of_next hpage hnext hempty]
      rw [ih]
      constructor
      · rintro ⟨rest, hrest, hlength, rfl⟩
        refine ⟨page :: rest, ⟨hmoves, rest, rfl, hrest⟩,
          Nat.succ_le_succ hlength, ?_⟩
        rw [List.flatMap_cons, List.append_assoc]
      · rintro ⟨pages, ⟨-, rest, rfl, hrest⟩, hlength, rfl⟩
        refine ⟨rest, hrest, Nat.le_of_succ_le_succ hlength, ?_⟩
        rw [List.flatMap_cons, List.append_assoc]
  | case6 pageNumber cursors rows cursor left page hpage next hnext hempty
      hsame =>
      rw [String.isEmpty_iff] at hempty
      constructor
      · intro h
        cases h
      · rintro ⟨pages, hwalk, -, -⟩
        exact absurd ((walksTo_of_next hpage hnext hempty).mp hwalk).1 hsame

/-! ## The calls -/

theorem followsCursors_start :
    FollowsCursors fetchPage [""] where
  first := rfl
  later i next h := by
    rw [List.getElem?_cons_succ, List.getElem?_nil] at h
    cases h

/-- One more call, with the cursor of the last page. -/
theorem FollowsCursors.append {cursors : List String} {next : String}
    {page : CursorPage α} (h : FollowsCursors fetchPage cursors)
    (hpage : fetchPage cursors = .ok page) (hnext : page.cursor = some next) :
    FollowsCursors fetchPage (cursors ++ [next]) where
  first := by
    have hlt : 0 < cursors.length :=
      (List.getElem?_eq_some_iff.mp h.first).1
    rw [List.getElem?_append_left hlt, h.first]
  later i last hlast := by
    rcases Nat.lt_or_ge (i + 1) cursors.length with hlt | hge
    · rw [List.getElem?_append_left hlt] at hlast
      rw [List.take_append_of_le_length (Nat.le_of_lt hlt)]
      exact h.later i last hlast
    · have hlength := (List.getElem?_eq_some_iff.mp hlast).1
      rw [List.length_append, List.length_singleton] at hlength
      have heq : i + 1 = cursors.length := by omega
      rw [heq, List.getElem?_concat_length] at hlast
      cases hlast
      rw [heq, List.take_left]
      exact ⟨page, hpage, hnext⟩

/-- The loop keeps to the cursors. -/
theorem collectPages_follows (endpoint address : String)
    (fetchPage : List String → Except RpcError (CursorPage α))
    (left pageNumber : Nat) (cursors : List String) (rows : List α)
    (cursor : String) (hfollows : FollowsCursors fetchPage (cursors ++ [cursor]))
    (hdone : left = 0 → FollowsCursors fetchPage cursors) :
    FollowsCursors fetchPage (collectPages endpoint address fetchPage left
      pageNumber cursors rows cursor).cursors := by
  fun_induction collectPages endpoint address fetchPage left pageNumber
      cursors rows cursor with
  | case1 pageNumber cursors rows cursor => exact hdone rfl
  | case5 pageNumber cursors rows cursor left page hpage next hnext hempty
      hmoves ih => exact ih (hfollows.append hpage hnext) fun _ => hfollows
  | _ => exact hfollows

/-- The loop calls no more often than it may. -/
theorem collectPages_length_le (endpoint address : String)
    (fetchPage : List String → Except RpcError (CursorPage α))
    (left pageNumber : Nat) (cursors : List String) (rows : List α)
    (cursor : String) :
    (collectPages endpoint address fetchPage left pageNumber cursors rows
      cursor).cursors.length ≤ cursors.length + left := by
  fun_induction collectPages endpoint address fetchPage left pageNumber
      cursors rows cursor with
  | case1 pageNumber cursors rows cursor => exact Nat.le_refl _
  | case5 pageNumber cursors rows cursor left page hpage next hnext hempty
      hmoves ih =>
      rw [List.length_append, List.length_singleton] at ih
      omega
  | _ =>
      rw [List.length_append, List.length_singleton]
      omega

theorem collectAccountPages_eq_ok_iff {endpoint address : String}
    {fetchPage : List String → Except RpcError (CursorPage α)}
    {rows : List α} :
    (collectAccountPages endpoint address fetchPage).result = .ok rows ↔
      ∃ pages, WalksTo fetchPage [] "" pages ∧
        pages.length ≤ balanceMaxPages ∧
        rows = pages.flatMap CursorPage.rows := by
  rw [collectAccountPages, collectPages_eq_ok_iff]
  simp only [List.nil_append]

theorem collectAccountPages_all (endpoint address : String)
    (fetchPage : List String → Except RpcError (CursorPage α)) :
    CollectsAll endpoint address fetchPage where
  calls := by
    have h := collectPages_length_le endpoint address fetchPage
      balanceMaxPages 1 [] [] ""
    rw [List.length_nil, Nat.zero_add] at h
    exact h
  follows := by
    refine collectPages_follows endpoint address fetchPage balanceMaxPages 1
      [] [] "" followsCursors_start fun h => ?_
    cases h
  complete rows := collectAccountPages_eq_ok_iff
  refused := by
    intro hnone
    cases hresult : (collectAccountPages endpoint address fetchPage).result with
    | error error => exact ⟨error, rfl⟩
    | ok rows =>
        obtain ⟨pages, hwalk, hlength, -⟩ :=
          collectAccountPages_eq_ok_iff.mp hresult
        exact absurd ⟨pages, hwalk, hlength⟩ hnone

end

/-! ## The balances of an address -/

/-- The loop over the owned tokens only adds rows. -/
theorem fetchOwnedBalances_prefix {node : AccountNode}
    {chain address : String} {fungibleSymbols : List String}
    {calls : List AccountCall} {balances all : List SdkBalanceResult}
    {tokens : List SdkOwnedToken}
    (h : fetchOwnedBalances node chain address fungibleSymbols calls balances
      tokens = .ok all) : balances <+: all := by
  revert h
  fun_induction fetchOwnedBalances node chain address fungibleSymbols calls
      balances tokens with
  | case1 calls balances =>
      intro h
      cases h
      exact List.prefix_rfl
  | case2 calls balances token tokens hskip ih => exact ih
  | case3 calls balances token tokens hask calls' ih =>
      intro h
      obtain ⟨row, hrow, h⟩ := bind_eq_ok h
      exact (List.prefix_append balances [row]).trans (ih row h)

/-- The pages of the fungible tokens of an address, up to the last. -/
def FungiblePages (node : AccountNode) (address : String)
    (pages : List (CursorPage SdkBalanceResult)) : Prop :=
  WalksTo (fun cursors => node.fungibleTokens (fungibleCalls address cursors))
    [] "" pages

theorem fetchAddressBalances_fungible {node : AccountNode}
    {chain address : String} {balances : List SdkBalanceResult}
    (h : fetchAddressBalances node chain address = .ok balances) :
    ∃ pages, FungiblePages node address pages ∧
      pages.length ≤ balanceMaxPages ∧
      pages.flatMap CursorPage.rows <+: balances := by
  obtain ⟨rows, hfungible, h⟩ := bind_eq_ok h
  obtain ⟨tokens, howned, h⟩ := bind_eq_ok h
  obtain ⟨pages, hwalk, hlength, rfl⟩ :=
    collectAccountPages_eq_ok_iff.mp hfungible
  exact ⟨pages, hwalk, hlength, fetchOwnedBalances_prefix h⟩

/-- A walk has every page up to one without a cursor, or fails, and so no
answer for an address is short of a fungible row. -/
theorem account_pages_complete :
    (∀ {α : Type} (endpoint address : String)
      (fetchPage : List String → Except RpcError (CursorPage α)),
      CollectsAll endpoint address fetchPage) ∧
    ∀ (node : AccountNode) (chain address : String)
      (balances : List SdkBalanceResult),
      fetchAddressBalances node chain address = .ok balances →
      ∃ pages, FungiblePages node address pages ∧
        pages.length ≤ balanceMaxPages ∧
        pages.flatMap CursorPage.rows <+: balances :=
  ⟨collectAccountPages_all, fun _ _ _ _ => fetchAddressBalances_fungible⟩

/-- The cursor of a call. -/
def AccountCall.cursor : AccountCall → String
  | .fungibleTokens _ _ cursor _ => cursor
  | .ownedTokens _ _ cursor _ => cursor
  | .tokenBalance _ _ _ _ => ""

/-- Two pages of fungible tokens, and one of the tokens that are owned. -/
def pagedNode : AccountNode where
  fungibleTokens calls :=
    if (calls.getLast?.map AccountCall.cursor) = some "" then
      .ok ⟨some [⟨"main", "SOUL", "7", 8⟩], some "page-2"⟩
    else .ok ⟨some [⟨"main", "KCAL", "9", 10⟩], some ""⟩
  ownedTokens _ := .ok ⟨some [⟨"SOUL"⟩, ⟨"CROWN"⟩], none⟩
  tokenBalance _ := .ok ⟨"main", "CROWN", "2", 0⟩

theorem account_pages_complete_paged :
    fetchAddressBalances pagedNode "main" "P2K" =
        .ok [⟨"main", "SOUL", "7", 8⟩, ⟨"main", "KCAL", "9", 10⟩,
          ⟨"main", "CROWN", "2", 0⟩] ∧
      ∃ pages, FungiblePages pagedNode "P2K" pages ∧
        pages.length ≤ balanceMaxPages ∧
        pages.flatMap CursorPage.rows <+: [⟨"main", "SOUL", "7", 8⟩,
          ⟨"main", "KCAL", "9", 10⟩, ⟨"main", "CROWN", "2", 0⟩] := by
  have hfetch : fetchAddressBalances pagedNode "main" "P2K" =
      .ok [⟨"main", "SOUL", "7", 8⟩, ⟨"main", "KCAL", "9", 10⟩,
        ⟨"main", "CROWN", "2", 0⟩] := rfl
  exact ⟨hfetch, account_pages_complete.2 pagedNode "main" "P2K" _ hfetch⟩

end Explorer.Ref
