import Explorer.Ref.Failover

/-!
# The metadata of an NFT (`crates/ingestion/src/lib.rs`)

The properties of an NFT are a list of keys and VM values that a contract
wrote. They become one metadata object, in which a key replaces any that
differs only in case, and some of them become text columns as well. What the
node answered is stored whole too; what it is serialised to is a parameter.
-/

namespace Explorer.Ref

open Explorer.Lib

/-! ## The answer of the node -/

inductive SdkVmValue where
  | text (value : String)
  | items (values : List SdkVmValue)
  | fields (values : List (String × SdkVmValue))

def SdkVmValue.asText : SdkVmValue → Option String
  | .text value => some value
  | _ => none

structure SdkTokenPropertyResult where
  key : String
  value : SdkVmValue

structure SdkTokenDataResult where
  id : String
  series : String
  carbonTokenId : String
  carbonSeriesId : String
  carbonNftAddress : String
  mint : String
  creatorAddress : String
  ram : String
  rom : String
  status : String
  properties : List SdkTokenPropertyResult

/-! ## The metadata object -/

/-- `insert_metadata_value`. -/
def insertMetadataValue (metadata : Json.Fields) (key : String) (value : Json) :
    Json.Fields :=
  match nonEmptyString key with
  | none => metadata
  | some key =>
      match metadata.find? fun existing => eqIgnoreAsciiCase existing.1 key with
      | some existing =>
          Json.setField key value (Json.removeField existing.1 metadata)
      | none => Json.setField key value metadata

/-- `insert_metadata_string`. -/
def insertMetadataString (metadata : Json.Fields) (key : String)
    (value : Option String) : Json.Fields :=
  match value.bind nonEmptyString with
  | none => metadata
  | some value => insertMetadataValue metadata key (.str value)

mutual

/-- `vm_value_to_json`. -/
def vmValueToJson : SdkVmValue → Json
  | .text text => .str text
  | .items items => .arr (vmItemsToJson items)
  | .fields fields => .object (vmFieldsToJson fields)

def vmItemsToJson : List SdkVmValue → List Json
  | [] => []
  | item :: items => vmValueToJson item :: vmItemsToJson items

def vmFieldsToJson : List (String × SdkVmValue) → Json.Fields
  | [] => []
  | (name, field) :: fields =>
      (name, vmValueToJson field) :: vmFieldsToJson fields

end

/-- `as_text().is_some_and(str::is_empty)`. -/
def SdkVmValue.isEmptyText (value : SdkVmValue) : Bool :=
  value.asText.any String.isEmpty

/-- `token_properties_to_metadata`. -/
def tokenPropertiesToMetadata (properties : List SdkTokenPropertyResult) :
    Json.Fields :=
  properties.foldl (fun metadata property =>
    if property.value.isEmptyText then metadata
    else insertMetadataValue metadata property.key
      (vmValueToJson property.value)) []

/-! ## The text columns -/

/-- `token_property_value`. -/
def tokenPropertyValue (properties : List SdkTokenPropertyResult)
    (key : String) : Option String :=
  ((properties.find? fun property =>
    eqIgnoreAsciiCase property.key key).bind fun property =>
      property.value.asText).bind nonEmptyString

/-- `str::parse::<u64>().ok()`. -/
def parseU64 (text : String) : Option Nat :=
  match text.toList with
  | [] | ['+'] => none
  | '+' :: cs => (parseDigits (2 ^ 64 - 1) "" 0 cs).toOption
  | cs => (parseDigits (2 ^ 64 - 1) "" 0 cs).toOption

/-- `parse_i64_clamped`. -/
def parseI64Clamped (value : String) : Option Int :=
  ((nonEmptyString value).bind parseU64).map fun n =>
    (min n (2 ^ 63 - 1) : Nat)

/-- `str::contains`, on the characters. -/
def containsChars (pattern cs : List Char) : Bool :=
  cs.tails.any fun rest => pattern.isPrefixOf rest

/-- `normalize_rpc_image_url`. -/
def normalizeRpcImageUrl (url : Option String) : Option String :=
  (url.bind nonEmptyString).map fun trimmed =>
    if ((takeBytes 5 trimmed.toList).any fun start =>
        eqIgnoreAsciiCase (String.ofList start) "data:") ||
        containsChars "://".toList trimmed.toList then trimmed
    else if "//".toList.isPrefixOf trimmed.toList then "https:" ++ trimmed
    else "https://" ++ trimmed

/-! ## `nft_result_to_metadata_upsert` -/

def nftResultToMetadataUpsert (chainApiResponse : Json) (symbol : String)
    (nft : SdkTokenDataResult) : Option NftRpcMetadataUpsert :=
  match nonEmptyString nft.id with
  | none => none
  | some tokenId =>
      let seriesId := nonEmptyString nft.series
      let creatorAddress := nonEmptyString nft.creatorAddress
      let mintNumber := ((nonEmptyString nft.mint).bind parseU64).map fun mint =>
        ((min mint (2 ^ 31 - 1) : Nat) : Int)
      let mintDate := (tokenPropertyValue nft.properties "mint_date").or
        (tokenPropertyValue nft.properties "created")
      let mintDateUnixSeconds := mintDate.bind parseI64Clamped
      let rom := nonEmptyString nft.rom
      let ram := nonEmptyString nft.ram
      let name := tokenPropertyValue nft.properties "name"
      let description := tokenPropertyValue nft.properties "description"
      let image := normalizeRpcImageUrl
        (tokenPropertyValue nft.properties "imageURL")
      let infoUrl := tokenPropertyValue nft.properties "infoURL"
      let metadata := tokenPropertiesToMetadata nft.properties
      let metadata := insertMetadataString metadata "token_id" (some tokenId)
      let metadata := insertMetadataString metadata "creatorAddress"
        creatorAddress
      let metadata := insertMetadataString metadata "series" seriesId
      let metadata := insertMetadataString metadata "rom" rom
      let metadata := insertMetadataString metadata "ram" ram
      let metadata := insertMetadataString metadata "mint"
        (nonEmptyString nft.mint)
      let metadata := insertMetadataString metadata "mint_date" mintDate
      let metadata := insertMetadataString metadata "name" name
      let metadata := insertMetadataString metadata "description" description
      let metadata := insertMetadataString metadata "imageURL" image
      let metadata := insertMetadataString metadata "infoURL" infoUrl
      let metadata := insertMetadataString metadata "status"
        (nonEmptyString nft.status)
      let metadata := insertMetadataString metadata "carbonTokenId"
        (nonEmptyString nft.carbonTokenId)
      let metadata := insertMetadataString metadata "carbonSeriesId"
        (nonEmptyString nft.carbonSeriesId)
      let metadata := insertMetadataString metadata "carbonNftAddress"
        (nonEmptyString nft.carbonNftAddress)
      some
        { symbol, tokenId, seriesId, creatorAddress, mintNumber
          mintDateUnixSeconds, rom, ram, name, description, image, infoUrl
          metadata := .obj metadata
          chainApiResponse }

end Explorer.Ref
