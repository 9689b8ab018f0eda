import Explorer.Ref.Pages

/-!
# Addresses in the lists (`crates/db/src/reads/addresses.rs`)

`addresses` has a row for a chain and an address, and `address_id_by_address`
takes one of the rows that carry a text, as their address or as their name, by
`ORDER BY (address = $1) DESC LIMIT 1`. The comparison is `NULL` for a row
without an address, and `DESC` puts that first. Rows that compare alike come in
the order in which the plan reads them, so the lookup is over a list of rows
that may be any order of the table.
-/

namespace Explorer.Ref

structure ListedAddress where
  id : Int32
  chainId : Int32
  address : Option String
  addressName : Option String
  deriving DecidableEq

/-- `WHERE address = $1 OR address_name = $1`. -/
def ListedAddress.carries (text : String) (row : ListedAddress) : Bool :=
  row.address == some text || row.addressName == some text

/-- `ORDER BY (address = $1) DESC`: `NULL`, then true, then false. -/
def ListedAddress.rank (text : String) (row : ListedAddress) : Nat :=
  match row.address with
  | none => 0
  | some address => if address = text then 1 else 2

/-- The first of the rows that rank least. -/
def firstRow (text : String) : List ListedAddress → Option ListedAddress
  | [] => none
  | row :: rest =>
      match firstRow text rest with
      | none => some row
      | some best =>
          if row.rank text ≤ best.rank text then some row else some best

def addressIdByAddress (rows : List ListedAddress) (address : String) :
    Option Int32 :=
  (firstRow address (rows.filter fun row => row.carries address)).map
    fun row => row.id

/-- The tables of the lists with the addresses, and with the keys of both:
`(chain_id, address)` is unique where there is an address. -/
structure AddressDb where
  list : ListDb
  addresses : List ListedAddress
  addressIds : (addresses.map fun row => row.id).Nodup
  addressKeys : ∀ row ∈ addresses, ∀ row' ∈ addresses, row.address ≠ none →
    row.chainId = row'.chainId → row.address = row'.address → row = row'
  linkedAddresses : ∀ l ∈ list.addressTransactions,
    ∃ row ∈ addresses, row.id = l.addressId

/-- The request for the transactions of an address, once it is looked up. -/
def addressQuery (rows : List ListedAddress) (address : String)
    (filter : TransactionFilter) (orderBy : TransactionOrderBy)
    (direction : SortDirection) : TransactionQuery where
  address := some (addressIdByAddress rows address)
  filter := filter
  orderBy := orderBy
  direction := direction

end Explorer.Ref
