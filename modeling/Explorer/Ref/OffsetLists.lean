import Explorer.Lib.OffsetPages
import Explorer.Ref.Pages
import Explorer.Ref.Resolution

/-!
# Lists paged by an offset (`crates/http-api/src/support.rs`, `reads/sort.rs`)

The lists that are not keyed by a seek cursor share their order and their
parameters: `ORDER BY column dir, id dir LIMIT n OFFSET o`, where the id makes
the order total, and `NULL` comes after every text. The collation of text and
Rust's `to_uppercase` are parameters, and the unique index on the names of the
chains leaves the ambiguous chain out.
-/

namespace Explorer.Ref

open Explorer.Lib

/-! ## Parameters -/

/-- `empty_to_none`. -/
def emptyToNone (value : Option String) : Option String :=
  value.bind nonEmptyString

/-- `str::to_ascii_lowercase`. -/
def toAsciiLowercase (value : String) : String :=
  String.ofList (value.toList.map Char.toLower)

/-- `SortDirection::from_api_param`. -/
def SortDirection.fromApiParam (value : Option String) : Option SortDirection :=
  match toAsciiLowercase (value.getD "asc") with
  | "asc" => some .asc
  | "desc" => some .desc
  | _ => none

/-- `parse_sort_direction`. -/
def parseSortDirection (value : Option String) :
    Except ApiError SortDirection :=
  match SortDirection.fromApiParam value with
  | some direction => .ok direction
  | none => .error (.badRequest ("unsupported order_direction '" ++
      toAsciiLowercase (value.getD "asc") ++ "'"))

/-- `parse_optional_i64`. -/
def parseOptionalI64 (value : Option String) (field : String) :
    Except ApiError (Option Int64) :=
  match value with
  | none => .ok none
  | some value =>
      match parseSigned 64 value.toList with
      | .ok n => .ok (some (Int64.ofInt n))
      | .error e => .error (.badRequest
          (field ++ " is not a valid integer: " ++ e))

/-- `query_chain`. -/
def queryChain (value : Option String) (defaultChain : String) : String :=
  (emptyToNone value).getD defaultChain

/-- A row of `chains`. -/
structure ChainCells where
  id : Int32
  name : Option String
  deriving DecidableEq

/-- `resolve_chain_id_by_name`. -/
def resolveChainIdByName (chains : List ChainCells) (chain : String) :
    Except ApiError Int32 :=
  match chains.find? fun c => c.name == some chain with
  | some c => .ok c.id
  | none => .error (.notFound ("chain " ++ chain ++ " was not found"))

/-! ## Order and slice -/

variable {α : Type}

/-- The order of a nullable text column. -/
def nullsLast (textLe : String → String → Bool) :
    Option String → Option String → Bool
  | some a, some b => textLe a b
  | none, some _ => false
  | _, none => true

/-- `ORDER BY column, id`, with the order of the column: whether `a` may
stand before `b`. -/
def columnThenId (le : α → α → Bool) (id : α → Int) (a b : α) : Bool :=
  le a b && (!le b a || decide (id a ≤ id b))

/-- `ORDER BY column dir, id dir`. -/
def SortDirection.orderBy (dir : SortDirection) (le : α → α → Bool)
    (id : α → Int) (rows : List α) : List α :=
  match dir with
  | .asc => rows.insertionSort fun a b => columnThenId le id a b = true
  | .desc => rows.insertionSort fun a b => columnThenId le id b a = true

/-- `trim_offset_rows`. -/
def trimOffsetRows (rows : List α) (limit offset : Nat) :
    List α × Option String :=
  if limit < rows.length then
    (rows.take limit, some (encodeOffset (offset + (rows.take limit).length)))
  else (rows, none)

theorem SortDirection.orderBy_perm (dir : SortDirection) (le : α → α → Bool)
    (id : α → Int) (rows : List α) : (dir.orderBy le id rows).Perm rows := by
  cases dir <;> exact List.perm_insertionSort _ _

end Explorer.Ref
