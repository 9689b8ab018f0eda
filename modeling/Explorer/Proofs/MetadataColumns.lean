import Explorer.Lib.FoldedMap
import Explorer.Ref.NftMetadata

/-!
# When the text columns of an NFT agree with its metadata

The metadata object is a list of puts under keys that ignore case: first the
properties, then the fields the conversion writes itself, so each key has its
last value. A text column is read off the first property of its key. When that
is a text with something in it, it is written over what the properties left
and the two agree; else the column stays empty, whatever the last property of
the key left in the object.
-/

namespace Explorer.Ref

open Explorer.Lib

/-! ## What agrees -/

/-- The fields the conversion writes itself. -/
def writtenFields : List String :=
  ["token_id", "creatorAddress", "series", "rom", "ram", "mint", "mint_date",
    "name", "description", "imageURL", "infoURL", "status", "carbonTokenId",
    "carbonSeriesId", "carbonNftAddress"]

/-- The last property of a key that has a value. -/
def lastOccurrence (properties : List SdkTokenPropertyResult) (key : String) :
    Option SdkTokenPropertyResult :=
  properties.reverse.find? fun property => !property.value.isEmptyText &&
    (nonEmptyString property.key).any fun k => eqIgnoreAsciiCase k key

/-- The text under a key, when it is a text with something in it. -/
def textEntry (fields : Json.Fields) (key : String) : Option String :=
  ((fields.find? fun entry => eqIgnoreAsciiCase entry.1 key).bind fun entry =>
    entry.2.asString).filter fun text => !isBlank text

/-- The metadata object has trimmed keys that differ in more than case, every
property that is not overwritten with the value of its last occurrence, and
the texts of the columns. A blank key names no entry. -/
structure MetadataAgrees (properties : List SdkTokenPropertyResult)
    (upsert : NftRpcMetadataUpsert) (fields : Json.Fields) : Prop where
  isObject : upsert.metadata = .obj fields
  trimmed : ∀ entry ∈ fields, nonEmptyString entry.1 = some entry.1
  distinct : fields.Pairwise fun a b => eqIgnoreAsciiCase a.1 b.1 = false
  present : ∀ property ∈ properties, property.value.isEmptyText = false →
    ∀ key, nonEmptyString property.key = some key →
    (∀ field ∈ writtenFields, eqIgnoreAsciiCase key field = false) →
    ∃ last lastKey, lastOccurrence properties key = some last ∧
      nonEmptyString last.key = some lastKey ∧
      (lastKey, vmValueToJson last.value) ∈ fields
  name : upsert.name = textEntry fields "name"
  description : upsert.description = textEntry fields "description"
  infoUrl : upsert.infoUrl = textEntry fields "infoURL"

/-- The first property of the key is a text with something in it, or its last
occurrence is not. -/
def ColumnFits (properties : List SdkTokenPropertyResult) (key : String) :
    Prop :=
  (∃ property text, (properties.find? fun property =>
      eqIgnoreAsciiCase property.key key) = some property ∧
    property.value.asText = some text ∧ isBlank text = false) ∨
  ∀ last text, lastOccurrence properties key = some last →
    last.value.asText = some text → isBlank text = true

/-! ## Text -/

/-- A text with its case folded. -/
def foldKey (text : String) : List Char := text.toList.map Char.toLower

theorem eqIgnoreAsciiCase_iff {a b : String} :
    eqIgnoreAsciiCase a b = true ↔ foldKey a = foldKey b := by
  rw [eqIgnoreAsciiCase, decide_eq_true_iff, foldKey, foldKey]

theorem eqIgnoreAsciiCase_eq (a b : String) :
    eqIgnoreAsciiCase a b = (foldKey a == foldKey b) := by
  rw [Bool.eq_iff_iff, eqIgnoreAsciiCase_iff, beq_iff_eq]

theorem trim_eq (cs : List Char) :
    trim cs = (cs.dropWhile isWhitespace).rdropWhile isWhitespace :=
  rfl

theorem trim_trim (cs : List Char) : trim (trim cs) = trim cs := by
  have hdrop : (trim cs).dropWhile isWhitespace = trim cs := by
    rw [trim_eq]
    generalize hl : cs.dropWhile isWhitespace = l
    have hself : l.dropWhile isWhitespace = l := by
      rw [← hl, List.dropWhile_idempotent]
    obtain ⟨rest, hrest⟩ := List.rdropWhile_prefix isWhitespace l
    cases hfront : l.rdropWhile isWhitespace with
    | nil => rfl
    | cons c front =>
        rw [hfront] at hrest
        rw [← hrest, List.cons_append] at hself
        cases hc : isWhitespace c with
        | false => rw [List.dropWhile_cons_of_neg (by rw [hc]; decide)]
        | true =>
            rw [List.dropWhile_cons_of_pos hc] at hself
            have hlen := congrArg List.length hself
            have hle := (List.dropWhile_suffix isWhitespace
              (l := front ++ rest)).length_le
            rw [List.length_cons] at hlen
            omega
  rw [trim_eq (trim cs), hdrop, trim_eq cs, List.rdropWhile_idempotent]

theorem nonEmptyString_some {text trimmed : String}
    (h : nonEmptyString text = some trimmed) :
    trimmed = String.ofList (trim text.toList) ∧ trimmed.isEmpty = false := by
  rw [nonEmptyString] at h
  split at h
  · cases h
  · next hempty =>
      cases h
      exact ⟨rfl, Bool.eq_false_iff.mpr hempty⟩

/-- What is trimmed stays as it is. -/
theorem nonEmptyString_trimmed {text trimmed : String}
    (h : nonEmptyString text = some trimmed) :
    nonEmptyString trimmed = some trimmed := by
  obtain ⟨heq, hempty⟩ := nonEmptyString_some h
  rw [nonEmptyString]
  have hsame : String.ofList (trim trimmed.toList) = trimmed := by
    rw [heq, String.toList_ofList, trim_trim]
  rw [hsame, hempty]
  rfl

/-- A text is blank when nothing is left of it. -/
theorem nonEmptyString_eq_none {text : String} :
    nonEmptyString text = none ↔ isBlank text = true := by
  have hnil : trim text.toList = [] ↔ isBlank text = true := by
    rw [trim_eq, List.rdropWhile_eq_nil_iff, isBlank, List.all_eq_true]
    constructor
    · intro h c hc
      rw [← List.takeWhile_append_dropWhile (p := isWhitespace)
        (l := text.toList)] at hc
      rcases List.mem_append.mp hc with hc | hc
      · exact List.mem_takeWhile_imp hc
      · exact h c hc
    · intro h c hc
      exact h c ((List.dropWhile_suffix _).subset hc)
  rw [← hnil, nonEmptyString]
  constructor
  · intro h
    split at h
    · next hempty =>
        rw [String.isEmpty_iff] at hempty
        simpa using congrArg String.toList hempty
    · cases h
  · intro h
    rw [h]
    rfl

/-! ## The object is a list of puts -/

/-- A put of `insert_metadata_value`, under a trimmed key. -/
def putMetadata (metadata : Json.Fields) (entry : String × Json) : Json.Fields :=
  insertMetadataValue metadata entry.1 entry.2

theorem insertMetadataValue_eq {metadata : Json.Fields} {key trimmed : String}
    {value : Json} (h : nonEmptyString key = some trimmed) :
    insertMetadataValue metadata key value =
      putMetadata metadata (trimmed, value) := by
  rw [putMetadata, insertMetadataValue, insertMetadataValue, h,
    nonEmptyString_trimmed h]

/-- The key is put in the place of the one that differs only in case. -/
theorem putMetadata_perm {metadata : Json.Fields} {entry : String × Json}
    (hkey : nonEmptyString entry.1 = some entry.1)
    (h : FoldNodup foldKey metadata) :
    (putMetadata metadata entry).Perm (putFolded foldKey metadata entry) := by
  obtain ⟨key, value⟩ := entry
  have hnot : key ∉ (metadata.filter fun x =>
      !(foldKey x.1 == foldKey key)).map Prod.fst := by
    intro hmem
    obtain ⟨x, hx, rfl⟩ := List.mem_map.mp hmem
    simp at hx
  rw [putMetadata, insertMetadataValue, hkey, putFolded]
  dsimp only
  cases hfind : metadata.find? fun x => eqIgnoreAsciiCase x.1 key with
  | none =>
      have hall : (metadata.filter fun x =>
          !(foldKey x.1 == foldKey key)) = metadata := by
        rw [List.filter_eq_self]
        intro x hx
        have hx := List.find?_eq_none.mp hfind x hx
        rw [eqIgnoreAsciiCase_eq] at hx
        rw [Bool.eq_false_iff.mpr hx]
        rfl
      dsimp only
      rw [hall] at hnot ⊢
      exact Json.setField_perm hnot
  | some existing =>
      have hmem := List.mem_of_find?_eq_some hfind
      have hfold : foldKey existing.1 = foldKey key :=
        eqIgnoreAsciiCase_iff.mp (by simpa using List.find?_some hfind)
      have hremove : Json.removeField existing.1 metadata =
          metadata.filter fun x => !(foldKey x.1 == foldKey key) := by
        refine List.filter_congr fun x hx => congrArg (fun b => !b) ?_
        rw [Bool.eq_iff_iff, beq_iff_eq, beq_iff_eq, ← hfold]
        constructor
        · exact congrArg foldKey
        · intro hsame
          exact congrArg Prod.fst (List.inj_on_of_nodup_map h hx hmem hsame)
      dsimp only
      rw [hremove]
      exact Json.setField_perm hnot

/-- What a property puts. -/
def propertyEntry (property : SdkTokenPropertyResult) :
    Option (String × Json) :=
  if property.value.isEmptyText then none
  else (nonEmptyString property.key).map fun key =>
    (key, vmValueToJson property.value)

/-- What a field that is written puts. -/
def writtenEntry (field : String × Option String) : Option (String × Json) :=
  (field.2.bind nonEmptyString).bind fun value =>
    (nonEmptyString field.1).map fun key => (key, .str value)

theorem tokenPropertiesToMetadata_eq
    (properties : List SdkTokenPropertyResult) :
    tokenPropertiesToMetadata properties =
      (properties.filterMap propertyEntry).foldl putMetadata [] := by
  rw [tokenPropertiesToMetadata, List.foldl_filterMap]
  refine congrArg (fun f => List.foldl f _ _) ?_
  funext metadata property
  rw [propertyEntry]
  split
  · rfl
  · cases hkey : nonEmptyString property.key with
    | none =>
        rw [insertMetadataValue, hkey]
        rfl
    | some key => exact insertMetadataValue_eq hkey

/-- The fields of the conversion, in its order. -/
def written (nft : SdkTokenDataResult) (upsert : NftRpcMetadataUpsert) :
    List (String × Option String) :=
  [("token_id", some upsert.tokenId),
    ("creatorAddress", upsert.creatorAddress), ("series", upsert.seriesId),
    ("rom", upsert.rom), ("ram", upsert.ram),
    ("mint", nonEmptyString nft.mint),
    ("mint_date", (tokenPropertyValue nft.properties "mint_date").or
      (tokenPropertyValue nft.properties "created")),
    ("name", upsert.name), ("description", upsert.description),
    ("imageURL", upsert.image), ("infoURL", upsert.infoUrl),
    ("status", nonEmptyString nft.status),
    ("carbonTokenId", nonEmptyString nft.carbonTokenId),
    ("carbonSeriesId", nonEmptyString nft.carbonSeriesId),
    ("carbonNftAddress", nonEmptyString nft.carbonNftAddress)]

theorem foldl_insertMetadataString (fields : List (String × Option String))
    (metadata : Json.Fields) :
    fields.foldl (fun metadata field =>
        insertMetadataString metadata field.1 field.2) metadata =
      (fields.filterMap writtenEntry).foldl putMetadata metadata := by
  rw [List.foldl_filterMap]
  refine congrArg (fun f => List.foldl f _ _) ?_
  funext metadata field
  rw [insertMetadataString, writtenEntry]
  cases field.2.bind nonEmptyString with
  | none => rfl
  | some value =>
      cases hkey : nonEmptyString field.1 with
      | none =>
          simp only [insertMetadataValue, hkey]
          rfl
      | some key => exact insertMetadataValue_eq hkey

/-- The puts of a conversion, first to last. -/
def metadataEntries (nft : SdkTokenDataResult) (upsert : NftRpcMetadataUpsert) :
    List (String × Json) :=
  nft.properties.filterMap propertyEntry ++
    (written nft upsert).filterMap writtenEntry

theorem nftResultToMetadataUpsert_some {chainApiResponse : Json}
    {symbol : String} {nft : SdkTokenDataResult} {upsert : NftRpcMetadataUpsert}
    (h : nftResultToMetadataUpsert chainApiResponse symbol nft = some upsert) :
    upsert.metadata =
        .obj ((metadataEntries nft upsert).foldl putMetadata []) ∧
      upsert.name = tokenPropertyValue nft.properties "name" ∧
      upsert.description = tokenPropertyValue nft.properties "description" ∧
      upsert.infoUrl = tokenPropertyValue nft.properties "infoURL" := by
  rw [nftResultToMetadataUpsert] at h
  cases hid : nonEmptyString nft.id with
  | none =>
      rw [hid] at h
      cases h
  | some tokenId =>
      rw [hid] at h
      cases h
      refine ⟨?_, rfl, rfl, rfl⟩
      rw [metadataEntries, List.foldl_append, ← tokenPropertiesToMetadata_eq,
        ← foldl_insertMetadataString]
      simp only [written, List.foldl_cons, List.foldl_nil]

/-! ## The entry of a key -/

section

variable {nft : SdkTokenDataResult} {upsert : NftRpcMetadataUpsert}

theorem writtenFields_trimmed :
    ∀ field ∈ writtenFields, nonEmptyString field = some field := by
  decide +kernel

theorem writtenFields_distinct : (writtenFields.map foldKey).Nodup := by
  decide +kernel

theorem written_trimmed : ∀ field ∈ written nft upsert,
    field.1 ∈ writtenFields ∧ nonEmptyString field.1 = some field.1 := by
  intro field hfield
  have hmem : field.1 ∈ writtenFields := List.mem_map_of_mem hfield
  exact ⟨hmem, writtenFields_trimmed _ hmem⟩

theorem writtenEntry_some {field : String × Option String}
    {entry : String × Json} (hfield : field ∈ written nft upsert)
    (h : writtenEntry field = some entry) : entry.1 = field.1 := by
  obtain ⟨value, -, hentry⟩ := Option.bind_eq_some_iff.mp h
  rw [(written_trimmed field hfield).2] at hentry
  cases hentry
  rfl

theorem propertyEntry_some {property : SdkTokenPropertyResult}
    {entry : String × Json} (h : propertyEntry property = some entry) :
    property.value.isEmptyText = false ∧
      nonEmptyString property.key = some entry.1 ∧
      entry.2 = vmValueToJson property.value := by
  rw [propertyEntry] at h
  split at h
  · cases h
  · next hempty =>
      obtain ⟨key, hkey, rfl⟩ := Option.map_eq_some_iff.mp h
      exact ⟨Bool.eq_false_iff.mpr hempty, hkey, rfl⟩

theorem metadataEntries_trimmed : ∀ entry ∈ metadataEntries nft upsert,
    nonEmptyString entry.1 = some entry.1 := by
  intro entry hentry
  rcases List.mem_append.mp hentry with hentry | hentry
  · obtain ⟨property, -, hproperty⟩ := List.mem_filterMap.mp hentry
    exact nonEmptyString_trimmed (propertyEntry_some hproperty).2.1
  · obtain ⟨field, hfield, hwritten⟩ := List.mem_filterMap.mp hentry
    rw [writtenEntry_some hfield hwritten]
    exact (written_trimmed field hfield).2

/-- Keys stay distinct, and each has its last put. -/
theorem metadata_entries (nft : SdkTokenDataResult)
    (upsert : NftRpcMetadataUpsert) :
    FoldNodup foldKey ((metadataEntries nft upsert).foldl putMetadata []) ∧
      ∀ k, foldedEntry foldKey
        ((metadataEntries nft upsert).foldl putMetadata []) k =
          (lastFolded foldKey ((written nft upsert).filterMap writtenEntry)
            k).or
            (lastFolded foldKey (nft.properties.filterMap propertyEntry) k) := by
  have hnil : FoldNodup foldKey ([] : Json.Fields) := List.nodup_nil
  obtain ⟨hnodup, hentry⟩ := foldl_put
    (fun m e he h => putMetadata_perm
      (metadataEntries_trimmed e he) h) hnil
  refine ⟨hnodup, fun k => ?_⟩
  rw [hentry k, metadataEntries, lastFolded_append]
  exact Option.or_none

theorem lastFolded_properties (properties : List SdkTokenPropertyResult)
    (key : String) :
    lastFolded foldKey (properties.filterMap propertyEntry) (foldKey key) =
      (lastOccurrence properties key).bind propertyEntry := by
  rw [lastFolded, foldedEntry, ← List.filterMap_reverse, List.find?_filterMap,
    lastOccurrence]
  congr 2
  funext property
  rw [propertyEntry]
  cases property.value.isEmptyText with
  | true => rfl
  | false =>
      cases nonEmptyString property.key with
      | none => rfl
      | some k => exact (eqIgnoreAsciiCase_eq k key).symm

theorem lastFolded_written {key : String} {column : Option String}
    (h : (key, column) ∈ written nft upsert) :
    lastFolded foldKey ((written nft upsert).filterMap writtenEntry)
      (foldKey key) = writtenEntry (key, column) := by
  have hkey : ∀ field ∈ written nft upsert, ∀ entry,
      writtenEntry field = some entry → foldKey entry.1 = foldKey field.1 :=
    fun field hfield entry hentry =>
      congrArg foldKey (writtenEntry_some hfield hentry)
  have hnodup : ((written nft upsert).map fun field =>
      foldKey field.1).Nodup := writtenFields_distinct
  have hlast := lastFolded_filterMap hkey hnodup h
  exact hlast

theorem lastFolded_written_none {key : String}
    (h : ∀ field ∈ writtenFields, eqIgnoreAsciiCase key field = false) :
    lastFolded foldKey ((written nft upsert).filterMap writtenEntry)
      (foldKey key) = none := by
  rw [lastFolded_eq_none]
  intro entry hentry hfold
  obtain ⟨field, hfield, hwritten⟩ := List.mem_filterMap.mp hentry
  have hne := h field.1 (written_trimmed field hfield).1
  rw [writtenEntry_some hfield hwritten] at hfold
  rw [eqIgnoreAsciiCase_iff.mpr hfold.symm] at hne
  cases hne

theorem lastOccurrence_some {properties : List SdkTokenPropertyResult}
    {key : String} {last : SdkTokenPropertyResult}
    (h : lastOccurrence properties key = some last) :
    ∃ lastKey, nonEmptyString last.key = some lastKey ∧
      propertyEntry last = some (lastKey, vmValueToJson last.value) := by
  have hlast := List.find?_some h
  rw [Bool.and_eq_true, Bool.not_eq_true', Option.any_eq_true] at hlast
  obtain ⟨hempty, lastKey, hkey, -⟩ := hlast
  refine ⟨lastKey, hkey, ?_⟩
  rw [propertyEntry, hempty, hkey]
  rfl

/-! ## The text columns -/

theorem tokenPropertyValue_eq_some {properties : List SdkTokenPropertyResult}
    {key text : String} (h : tokenPropertyValue properties key = some text) :
    nonEmptyString text = some text ∧ ColumnFits properties key := by
  obtain ⟨raw, hraw, htext⟩ := Option.bind_eq_some_iff.mp h
  obtain ⟨property, hfind, hvalue⟩ := Option.bind_eq_some_iff.mp hraw
  refine ⟨nonEmptyString_trimmed htext, .inl ⟨property, raw, hfind, hvalue, ?_⟩⟩
  rw [← Bool.not_eq_true, ← nonEmptyString_eq_none, htext]
  exact Option.some_ne_none _

theorem tokenPropertyValue_eq_none {properties : List SdkTokenPropertyResult}
    {key : String} (h : tokenPropertyValue properties key = none) :
    ColumnFits properties key ↔
      ∀ last text, lastOccurrence properties key = some last →
        last.value.asText = some text → isBlank text = true := by
  refine ⟨fun hfits => hfits.resolve_left ?_, .inr⟩
  rintro ⟨property, text, hfind, hvalue, hblank⟩
  rw [tokenPropertyValue, hfind, Option.bind_some, hvalue, Option.bind_some,
    nonEmptyString_eq_none, hblank] at h
  cases h

theorem asString_vmValueToJson (value : SdkVmValue) :
    (vmValueToJson value).asString = value.asText := by
  cases value with
  | text text => rw [vmValueToJson]; rfl
  | items items => rw [vmValueToJson]; rfl
  | fields fields => rw [vmValueToJson, Json.object]; rfl

theorem textEntry_eq (fields : Json.Fields) (key : String) :
    textEntry fields key = ((foldedEntry foldKey fields (foldKey key)).bind
      fun entry => entry.2.asString).filter fun text => !isBlank text := by
  rw [textEntry, foldedEntry]
  simp only [eqIgnoreAsciiCase_eq]

/-- A column agrees with the entry of its key exactly when it fits. -/
theorem column_agrees_iff {key : String} {column : Option String}
    (hwritten : (key, column) ∈ written nft upsert)
    (hcolumn : column = tokenPropertyValue nft.properties key) :
    column = textEntry ((metadataEntries nft upsert).foldl putMetadata [])
        key ↔
      ColumnFits nft.properties key := by
  rw [textEntry_eq, (metadata_entries nft upsert).2, lastFolded_written hwritten,
    lastFolded_properties, writtenEntry,
    (written_trimmed _ hwritten).2]
  cases hvalue : tokenPropertyValue nft.properties key with
  | some text =>
      obtain ⟨htext, hfits⟩ := tokenPropertyValue_eq_some hvalue
      have hblank : isBlank text = false := by
        rw [← Bool.not_eq_true, ← nonEmptyString_eq_none, htext]
        exact Option.some_ne_none _
      refine iff_of_true ?_ hfits
      rw [hcolumn, hvalue]
      simp [htext, Json.asString, Option.filter, hblank]
  | none =>
      rw [tokenPropertyValue_eq_none hvalue, hcolumn, hvalue, Option.bind_none,
        Option.bind_none, Option.none_or]
      cases hlast : lastOccurrence nft.properties key with
      | none => exact iff_of_true rfl fun last text h => by cases h
      | some last =>
          obtain ⟨lastKey, -, hentry⟩ := lastOccurrence_some hlast
          rw [Option.bind_some, hentry, Option.bind_some,
            asString_vmValueToJson]
          cases hasText : last.value.asText with
          | none =>
              refine iff_of_true rfl fun last' text h h' => ?_
              cases h
              rw [hasText] at h'
              cases h'
          | some text =>
              cases hblank : isBlank text with
              | true =>
                  refine iff_of_true (by simp [Option.filter, hblank])
                    fun last' text' h h' => ?_
                  cases h
                  rw [hasText] at h'
                  cases h'
                  exact hblank
              | false =>
                  refine iff_of_false (by simp [Option.filter, hblank])
                    fun h => ?_
                  have := h last text rfl hasText
                  rw [hblank] at this
                  cases this

/-! ## The upsert -/

/-- Keys and properties, whatever the columns are. -/
theorem metadata_keys (nft : SdkTokenDataResult)
    (upsert : NftRpcMetadataUpsert) {fields : Json.Fields}
    (hfields : (metadataEntries nft upsert).foldl putMetadata [] = fields) :
    (∀ entry ∈ fields, nonEmptyString entry.1 = some entry.1) ∧
    (fields.Pairwise fun a b => eqIgnoreAsciiCase a.1 b.1 = false) ∧
    ∀ property ∈ nft.properties, property.value.isEmptyText = false →
      ∀ key, nonEmptyString property.key = some key →
      (∀ field ∈ writtenFields, eqIgnoreAsciiCase key field = false) →
      ∃ last lastKey, lastOccurrence nft.properties key = some last ∧
        nonEmptyString last.key = some lastKey ∧
        (lastKey, vmValueToJson last.value) ∈ fields := by
  obtain ⟨hnodup, hentry⟩ := metadata_entries nft upsert
  rw [hfields] at hnodup hentry
  refine ⟨?_, ?_, ?_⟩
  · intro entry hmem
    have hlast := hnodup.entry_eq_some.mpr ⟨hmem, rfl⟩
    rw [hentry, ← lastFolded_append] at hlast
    exact metadataEntries_trimmed entry
      (mem_of_lastFolded hlast).1
  · refine (List.pairwise_map.mp hnodup).imp ?_
    intro a b hne
    rw [eqIgnoreAsciiCase_eq]
    exact beq_eq_false_iff_ne.mpr hne
  · intro property hproperty hempty key hkey hother
    have hsome : (lastOccurrence nft.properties key).isSome := by
      rw [lastOccurrence, List.find?_isSome]
      refine ⟨property, List.mem_reverse.mpr hproperty, ?_⟩
      rw [hempty, hkey, Option.any_some, eqIgnoreAsciiCase_iff.mpr rfl]
      rfl
    obtain ⟨last, hlast⟩ := Option.isSome_iff_exists.mp hsome
    obtain ⟨lastKey, hlastKey, hput⟩ := lastOccurrence_some hlast
    have hfound := hentry (foldKey key)
    rw [lastFolded_written_none hother, Option.none_or,
      lastFolded_properties, hlast, Option.bind_some, hput] at hfound
    exact ⟨last, lastKey, hlast, hlastKey,
      (hnodup.entry_eq_some.mp hfound).1⟩

end

/-- Metadata and columns agree exactly when the answer has no id, or every
column fits. -/
theorem metadata_columns_agree_iff (chainApiResponse : Json) (symbol : String)
    (nft : SdkTokenDataResult) :
    (∀ upsert, nftResultToMetadataUpsert chainApiResponse symbol nft =
        some upsert →
      ∃ fields, MetadataAgrees nft.properties upsert fields) ↔
    (isBlank nft.id = true ∨
      ∀ key ∈ ["name", "description", "infoURL"],
        ColumnFits nft.properties key) := by
  rw [← nonEmptyString_eq_none]
  simp only [List.forall_mem_cons, List.not_mem_nil, false_imp_iff,
    implies_true, and_true]
  constructor
  · intro hagrees
    refine or_iff_not_imp_left.mpr fun hid => ?_
    obtain ⟨tokenId, hid⟩ := Option.ne_none_iff_exists'.mp hid
    obtain ⟨upsert, hupsert⟩ : ∃ upsert,
        nftResultToMetadataUpsert chainApiResponse symbol nft =
          some upsert := by
      rw [nftResultToMetadataUpsert, hid]
      exact ⟨_, rfl⟩
    obtain ⟨fields, h⟩ := hagrees upsert hupsert
    obtain ⟨hobject, hname, hdescription, hinfo⟩ :=
      nftResultToMetadataUpsert_some hupsert
    have hfields := Json.obj.inj (hobject.symm.trans h.isObject)
    subst hfields
    exact ⟨(column_agrees_iff (by simp [written]) hname).mp h.name,
      (column_agrees_iff (by simp [written]) hdescription).mp h.description,
      (column_agrees_iff (by simp [written]) hinfo).mp h.infoUrl⟩
  · rintro (hid | ⟨hname, hdescription, hinfo⟩) upsert hupsert
    · rw [nftResultToMetadataUpsert, hid] at hupsert
      cases hupsert
    · obtain ⟨hobject, hn, hd, hi⟩ := nftResultToMetadataUpsert_some hupsert
      obtain ⟨htrimmed, hdistinct, hpresent⟩ := metadata_keys nft upsert rfl
      exact ⟨_, hobject, htrimmed, hdistinct, hpresent,
        (column_agrees_iff (by simp [written]) hn).mpr hname,
        (column_agrees_iff (by simp [written]) hd).mpr hdescription,
        (column_agrees_iff (by simp [written]) hi).mpr hinfo⟩

/-- An NFT whose name is a list first and a text then. -/
def twiceNamed : SdkTokenDataResult where
  id := "1"
  series := ""
  carbonTokenId := ""
  carbonSeriesId := ""
  carbonNftAddress := ""
  mint := ""
  creatorAddress := ""
  ram := ""
  rom := ""
  status := ""
  properties := [⟨"name", .items []⟩, ⟨"Name", .text "B"⟩]

/-- Its metadata has the text, and its column is empty. -/
theorem metadata_columns_disagree :
    ((nftResultToMetadataUpsert .null "TEST" twiceNamed).map fun upsert =>
        (upsert.name, (upsert.metadata.get "Name").bind Json.asString)) =
      some (none, some "B") ∧
    ¬∀ upsert, nftResultToMetadataUpsert .null "TEST" twiceNamed =
        some upsert →
      ∃ fields, MetadataAgrees twiceNamed.properties upsert fields := by
  refine ⟨by decide +kernel, fun hagrees => ?_⟩
  obtain ⟨upsert, hupsert⟩ := Option.isSome_iff_exists.mp
    (show (nftResultToMetadataUpsert .null "TEST" twiceNamed).isSome = true by
      decide +kernel)
  obtain ⟨fields, h⟩ := hagrees upsert hupsert
  obtain ⟨hobject, hname, -, -⟩ := nftResultToMetadataUpsert_some hupsert
  have hfields := Json.obj.inj (hobject.symm.trans h.isObject)
  subst hfields
  have hfits : ColumnFits twiceNamed.properties "name" :=
    (column_agrees_iff (by simp [written]) hname).mp h.name
  rcases hfits with ⟨property, text, hfind, htext, -⟩ | hlast
  · have hfirst : (twiceNamed.properties.find? fun property =>
        eqIgnoreAsciiCase property.key "name") =
          some ⟨"name", .items []⟩ := rfl
    rw [hfirst] at hfind
    cases hfind
    cases htext
  · have hblank : isBlank "B" = true := hlast ⟨"Name", .text "B"⟩ "B" rfl rfl
    exact absurd hblank (by decide +kernel)

end Explorer.Ref
