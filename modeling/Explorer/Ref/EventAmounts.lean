import Explorer.Ref.LegacyDecode
import Explorer.Ref.Maintenance
import Mathlib.Data.List.DropRight

/-!
# Amounts in event responses (`crates/http-api/src/support.rs`)

A page of events is rendered in three steps. `collect_event_token_symbols`
gathers the symbols that the page names, in upper case;
`load_event_tokens_by_symbols` asks `tokens` for them and keeps the rows in a
map by upper-case symbol; and the events take their tokens from the map. Of
the fields of an event this has the two that compute with amounts, the token
event and the gas event.

`str::to_uppercase` is a parameter, the Unicode tables being its.
-/

namespace Explorer.Ref

open Explorer.Lib

/-! ## Amounts as text -/

/-- `trim_end_matches('0')`. -/
def trimEndZeros (cs : List Char) : List Char := cs.rdropWhile (· == '0')

/-- `strip_prefix('-')`. -/
def stripMinus : List Char → Option (List Char)
  | '-' :: cs => some cs
  | _ => none

/-- The two branches of `format_token_amount` for the digits. -/
def formatDigits (digits : List Char) (tokenDecimals : Nat) : List Char :=
  if digits.length ≤ tokenDecimals then
    let padded :=
      List.replicate (tokenDecimals - digits.length) '0' ++ digits
    let decimalPart := trimEndZeros padded
    if decimalPart.isEmpty then ['0'] else '0' :: '.' :: decimalPart
  else
    let decimalStart := digits.length - tokenDecimals
    let decimalPart := trimEndZeros (digits.drop decimalStart)
    if decimalPart.isEmpty then digits.take decimalStart
    else digits.take decimalStart ++ '.' :: decimalPart

def formatTokenAmount (amount : String) (tokenDecimals : Nat) : String :=
  let amount := trim amount.toList
  if amount = ['0'] ∨ tokenDecimals = 0 then String.ofList amount
  else
    let negative := stripMinus amount
    let digits := negative.getD amount
    if !digits.all Char.isDigit then String.ofList amount
    else
      let formatted := formatDigits digits tokenDecimals
      if negative.isSome ∧ formatted ≠ ['0'] then
        String.ofList ('-' :: formatted)
      else String.ofList formatted

/-- `value.as_object().cloned().unwrap_or_default()`. -/
def objectFields : Json → Json.Fields
  | .obj fields => fields
  | _ => []

/-- A field as text: `get(key).and_then(json_scalar_to_string)`. -/
def scalarField (key : String) (object : Json.Fields) : Option String :=
  (object.lookup key).bind jsonScalarToString

/-! ## Tokens -/

/-- What the query selects of a row of `tokens`, and the row's chain. -/
structure EventTokenRow where
  chainId : Int32
  symbol : Option String
  fungible : Bool
  transferable : Bool
  divisible : Bool
  fuel : Bool
  stakable : Bool
  fiat : Bool
  swappable : Bool
  burnable : Bool
  mintable : Bool
  decimals : Int32
  maxSupplyRaw : Option String
  deriving DecidableEq

/-- A row of the events query, and the chain that the event is on. -/
structure EventPageRow where
  chainId : Int32
  chainName : String
  address : Option String
  contractSymbol : Option String
  payloadJson : Option Json

def isPositiveRaw (value : Option String) : Bool :=
  value.any fun value =>
    match parseSigned 128 value.toList with
    | .ok n => decide (0 < n)
    | .error _ => false

/-- `list_event_tokens_by_symbols`, up to the order of the rows. -/
def listEventTokensBySymbols (tokens : List EventTokenRow)
    (symbols : List String) : List EventTokenRow :=
  tokens.filter fun row => row.symbol.any fun symbol => symbols.contains symbol

/-- The keys that `collect_event_token_symbols` reads, each in its event. -/
def tokenKeys : List (String × String) :=
  [("token_event", "token"), ("token_create_event", "token"),
    ("token_series_event", "token"), ("infusion_event", "base_token"),
    ("infusion_event", "infused_token"), ("market_event", "base_token"),
    ("market_event", "quote_token")]

/-- `HashMap<String, Value>`. -/
abbrev TokenMap := String → Option Json

section

variable (toUppercase : String → String)

/-- `collect_token_symbol_from_payload_key`. -/
def tokenSymbolFromPayloadKey (payload : Json.Fields)
    (keys : String × String) : Option String :=
  (((payload.lookup keys.1).bind fun value => value.get keys.2).bind
    jsonScalarToString).map toUppercase

def collectEventTokenSymbols (rows : List EventPageRow) : List String :=
  rows.flatMap fun row =>
    (row.contractSymbol.map toUppercase).toList ++
      match row.payloadJson with
      | some (.obj payload) =>
          tokenKeys.filterMap (tokenSymbolFromPayloadKey toUppercase payload)
      | _ => []

def tokenJson (symbol : String) (row : EventTokenRow) : Json :=
  Json.object
    [("symbol", .str symbol), ("fungible", .bool row.fungible),
      ("transferable", .bool row.transferable),
      ("finite", .bool (isPositiveRaw row.maxSupplyRaw)),
      ("divisible", .bool row.divisible), ("fuel", .bool row.fuel),
      ("stakable", .bool row.stakable), ("fiat", .bool row.fiat),
      ("swappable", .bool row.swappable), ("burnable", .bool row.burnable),
      ("mintable", .bool row.mintable),
      ("decimals", .num (toString row.decimals.toInt))]

/-- One round of the loop over the rows. -/
def insertToken (tokens : TokenMap) (row : EventTokenRow) : TokenMap :=
  match row.symbol with
  | none => tokens
  | some symbol => fun key =>
      if key = toUppercase symbol then some (tokenJson symbol row)
      else tokens key

/-- `load_event_tokens_by_symbols`, of the rows that the query gave. -/
def tokensFromRows (rows : List EventTokenRow) : TokenMap :=
  rows.foldl (insertToken toUppercase) fun _ => none

/-- The symbol that a token event goes by. -/
def eventSymbol (object : Json.Fields) (contractSymbol : Option String) :
    Option String :=
  (scalarField "token" object).or contractSymbol

/-- The amount of a token event. -/
def rawAmount (object : Json.Fields) : Option String :=
  (scalarField "value_raw" object).or (scalarField "value" object)

/-- The `decimals` of a token as the `usize` they are used as. -/
def tokenDecimals (token : Json) : Nat :=
  (((token.get "decimals").bind jsonAsI64).getD 0).toNat

def enrichTokenEvent (value : Json) (contractSymbol : Option String)
    (tokens : TokenMap) : Json :=
  let object := objectFields value
  match eventSymbol object contractSymbol with
  | none => .obj object
  | some symbol =>
      match tokens (toUppercase symbol) with
      | none => .obj (Json.setField "token" (.str symbol) object)
      | some token =>
          let object := Json.setField "token" token object
          match rawAmount object with
          | none => .obj object
          | some raw =>
              .obj (Json.setField "value_raw" (.str raw)
                (Json.setField "value"
                  (.str (formatTokenAmount raw (tokenDecimals token))) object))

/-- `rehydrate_event_payload`. -/
def rehydrateEventPayload (payload : Option Json) (chainName : String)
    (address : Option String) : Option Json :=
  payload.map fun
    | .obj object =>
        let object := Json.setField "chain" (.str chainName) object
        match address with
        | none => .obj object
        | some address => .obj (Json.setField "address" (.str address) object)
    | other => other

/-- The `token_event` of `event_from_row`, with event data. -/
def tokenEventOf (tokens : TokenMap) (row : EventPageRow) : Option Json :=
  match rehydrateEventPayload row.payloadJson row.chainName row.address with
  | some (.obj payload) =>
      (payload.lookup "token_event").map fun value =>
        enrichTokenEvent toUppercase value row.contractSymbol tokens
  | _ => none

/-- The token events of a page, the query having given `found`. -/
def tokenEventsOfPage (found : List EventTokenRow) (page : List EventPageRow) :
    List (Option Json) :=
  page.map (tokenEventOf toUppercase (tokensFromRows toUppercase found))

end

/-! ## Gas -/

/-- The value is an `i128`. -/
def FitsI128 (n : Int) : Prop := -2 ^ 127 ≤ n ∧ n < 2 ^ 127

instance (n : Int) : Decidable (FitsI128 n) :=
  inferInstanceAs (Decidable (_ ∧ _))

/-- `price * amount` in `i128`: past the ends it panics in a build with
overflow checks, and wraps in one without. -/
def mulI128 (overflowChecks : Bool) (a b : Int) : Option Int :=
  if FitsI128 (a * b) then some (a * b)
  else if overflowChecks then none
  else some (Int.bmod (a * b) (2 ^ 128))

/-- The text that the fee is formatted from; `none` is the panic. -/
def feeRaw (overflowChecks : Bool) (price : Option String)
    (amountRaw : String) : Option String :=
  match price with
  | none => some amountRaw
  | some price =>
      match parseSigned 128 price.toList, parseSigned 128 amountRaw.toList with
      | .ok price, .ok amount =>
          (mulI128 overflowChecks price amount).map toString
      | _, _ => some amountRaw

def enrichGasEvent (overflowChecks : Bool) (value : Json) : Option Json :=
  let object := objectFields value
  let object :=
    match scalarField "address" object with
    | none => object
    | some address =>
        Json.setField "address" (Json.object [("address", .str address)])
          object
  match scalarField "amount" object with
  | none => some (.obj object)
  | some amountRaw =>
      let object := Json.setField "amount"
        (.str (formatTokenAmount amountRaw 10)) object
      (feeRaw overflowChecks (scalarField "price" object) amountRaw).map
        fun raw =>
          .obj (Json.setField "fee" (.str (formatTokenAmount raw 10)) object)

end Explorer.Ref
