import Explorer.Ref.Failover

/-!
# Balance pages (`crates/ingestion/src/driver.rs`)

An account endpoint hands out its rows in pages, each with the cursor of the
next. `collect_account_pages` walks them to the end, and
`fetch_address_balances` puts an address together from two such walks and a
request for each token that only the second knows.

A node answers a call from all the calls it has had, so an answer is a function
of the calls up to it.
-/

namespace Explorer.Ref

open Explorer.Lib

/-- `SdkCursorPaginatedResult`. -/
structure CursorPage (α : Type) where
  result : Option (List α)
  cursor : Option String

/-- The rows of a page; a page without a result has none. -/
def CursorPage.rows {α : Type} (page : CursorPage α) : List α :=
  page.result.getD []

def balanceMaxPages : Nat := 1000

def balancePageSize : Nat := 100

/-- What a walk came to, and the cursors it asked with. -/
structure PageWalk (α : Type) where
  result : Except RpcError (List α)
  cursors : List String

/-- The loop of `collect_account_pages` with `left` pages to go. `fetchPage`
gets the cursors of all the calls so far. -/
def collectPages {α : Type} (endpoint address : String)
    (fetchPage : List String → Except RpcError (CursorPage α)) :
    (left pageNumber : Nat) → List String → List α → String → PageWalk α
  | 0, _, cursors, _, _ =>
      ⟨.error (.unterminatedPagination endpoint address balanceMaxPages),
        cursors⟩
  | left + 1, pageNumber, cursors, rows, cursor =>
      match fetchPage (cursors ++ [cursor]) with
      | .error error => ⟨.error error, cursors ++ [cursor]⟩
      | .ok page =>
          match page.cursor with
          | none => ⟨.ok (rows ++ page.rows), cursors ++ [cursor]⟩
          | some next =>
              if next.isEmpty then
                ⟨.ok (rows ++ page.rows), cursors ++ [cursor]⟩
              else if next ≠ cursor then
                collectPages endpoint address fetchPage left (pageNumber + 1)
                  (cursors ++ [cursor]) (rows ++ page.rows) next
              else
                ⟨.error (.unterminatedPagination endpoint address pageNumber),
                  cursors ++ [cursor]⟩

/-- `collect_account_pages`. -/
def collectAccountPages {α : Type} (endpoint address : String)
    (fetchPage : List String → Except RpcError (CursorPage α)) : PageWalk α :=
  collectPages endpoint address fetchPage balanceMaxPages 1 [] [] ""

/-! ## The balances of an address -/

structure SdkBalanceResult where
  chain : String
  symbol : String
  amount : String
  decimals : Nat
deriving DecidableEq

structure SdkOwnedToken where
  symbol : String

/-- A request for an address. -/
inductive AccountCall where
  | fungibleTokens (address : String) (pageSize : Nat) (cursor : String)
      (checkAddressReservedByte : Bool)
  | ownedTokens (address : String) (pageSize : Nat) (cursor : String)
      (checkAddressReservedByte : Bool)
  | tokenBalance (address symbol chain : String)
      (checkAddressReservedByte : Bool)

/-- The node: what it answers to the last of the calls. -/
structure AccountNode where
  fungibleTokens : List AccountCall →
    Except RpcError (CursorPage SdkBalanceResult)
  ownedTokens : List AccountCall → Except RpcError (CursorPage SdkOwnedToken)
  tokenBalance : List AccountCall → Except RpcError SdkBalanceResult

def fungibleCalls (address : String) (cursors : List String) :
    List AccountCall :=
  cursors.map fun cursor =>
    .fungibleTokens address balancePageSize cursor false

def ownedCalls (address : String) (cursors : List String) :
    List AccountCall :=
  cursors.map fun cursor => .ownedTokens address balancePageSize cursor false

/-- The loop over the owned tokens, with the calls before it. -/
def fetchOwnedBalances (node : AccountNode) (chain address : String)
    (fungibleSymbols : List String) :
    List AccountCall → List SdkBalanceResult → List SdkOwnedToken →
    Except RpcError (List SdkBalanceResult)
  | _, balances, [] => .ok balances
  | calls, balances, token :: tokens =>
      if token.symbol.isEmpty || fungibleSymbols.contains token.symbol then
        fetchOwnedBalances node chain address fungibleSymbols calls balances
          tokens
      else do
        let calls := calls ++ [.tokenBalance address token.symbol chain false]
        let row ← node.tokenBalance calls
        fetchOwnedBalances node chain address fungibleSymbols calls
          (balances ++ [row]) tokens

/-- The walk over the fungible balances of an address. -/
def fungibleWalk (node : AccountNode) (address : String) :
    PageWalk SdkBalanceResult :=
  collectAccountPages "getAccountFungibleTokens" address fun cursors =>
    node.fungibleTokens (fungibleCalls address cursors)

/-- The walk over the owned tokens, after some calls. -/
def ownedWalk (node : AccountNode) (address : String)
    (calls : List AccountCall) : PageWalk SdkOwnedToken :=
  collectAccountPages "getAccountOwnedTokens" address fun cursors =>
    node.ownedTokens (calls ++ ownedCalls address cursors)

/-- `fetch_address_balances`. -/
def fetchAddressBalances (node : AccountNode) (chain address : String) :
    Except RpcError (List SdkBalanceResult) := do
  let fungible := fungibleWalk node address
  let balances ← fungible.result
  let fungibleSymbols := balances.map SdkBalanceResult.symbol
  let calls := fungibleCalls address fungible.cursors
  let owned := ownedWalk node address calls
  let ownedTokens ← owned.result
  fetchOwnedBalances node chain address fungibleSymbols
    (calls ++ ownedCalls address owned.cursors) balances ownedTokens

end Explorer.Ref
