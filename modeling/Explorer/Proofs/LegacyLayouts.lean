import Explorer.Lib.Readers
import Explorer.Proofs.LegacyAgree

/-!
# The layouts of the legacy payloads

Each decoder reads the fields of one layout, in their order, and nothing after
them. The writer and the reader are the SDK's; what is assumed of them is that
a reader takes back what the writer wrote and that the end is seen exactly
where it is.
-/

namespace Explorer.Ref

open Explorer.Lib

/-- `encode_hex_upper`: two digits a byte. -/
def hexUpper (bytes : List UInt8) : String :=
  String.ofList (bytes.flatMap fun b =>
    ((Nat.toDigits 16 (256 + b.toNat)).drop 1).map Char.toUpper)

/-- The writer of the SDK, on the values its reader takes, and what the
decoders rely on. -/
structure LegacyCodec (sdk : LegacySdk) where
  writeString : String → Option (List UInt8)
  writeBigInteger : Int → Option (List UInt8)
  writeVarUint : Nat → Option (List UInt8)
  writeVarBytes : List UInt8 → Option (List UInt8)
  /-- The bytes that a reader has not read. -/
  remaining : sdk.Reader → List UInt8
  newReader_remaining : ∀ bytes, remaining (sdk.newReader bytes) = bytes
  atEof_iff : ∀ reader, sdk.atEof reader = true ↔ remaining reader = []
  readString_write : ∀ {value bytes}, writeString value = some bytes →
    Reads remaining sdk.readString bytes value
  readBigInteger_write : ∀ {value bytes}, writeBigInteger value = some bytes →
    Reads remaining sdk.readBigInteger bytes value
  readVarUint_write : ∀ {value bytes}, writeVarUint value = some bytes →
    Reads remaining sdk.readVarUint bytes value
  readVarBytes_write : ∀ {value bytes}, writeVarBytes value = some bytes →
    Reads remaining sdk.readVarBytes bytes value
  decodeHex_hex : ∀ {raw bytes}, hexBytes raw.toList = some bytes →
    sdk.decodeHex raw = some bytes
  encodeHexUpper_eq : ∀ bytes, sdk.encodeHexUpper bytes = hexUpper bytes

/-- A field of a layout. -/
inductive LegacyField where
  | string (value : String)
  | bigInteger (value : Int)
  | varUint (value : Nat)
  | varBytes (value : List UInt8)

def LegacyCodec.writeField {sdk : LegacySdk} (codec : LegacyCodec sdk) :
    LegacyField → Option (List UInt8)
  | .string value => codec.writeString value
  | .bigInteger value => codec.writeBigInteger value
  | .varUint value => codec.writeVarUint value
  | .varBytes value => codec.writeVarBytes value

/-- The fields, one behind the other. -/
def LegacyCodec.writeFields {sdk : LegacySdk} (codec : LegacyCodec sdk) :
    List LegacyField → Option (List UInt8)
  | [] => some []
  | field :: fields => do
      let bytes ← codec.writeField field
      let rest ← codec.writeFields fields
      return bytes ++ rest

section

variable {sdk : LegacySdk} (codec : LegacyCodec sdk)

/-- The read takes the fields for the value. -/
def LegacyCodec.ReadsFields {α : Type} (fields : List LegacyField)
    (read : LegacyRead sdk α) (value : α) : Prop :=
  ∀ bytes, codec.writeFields fields = some bytes →
    Reads codec.remaining read bytes value

/-- The read fails on the fields. -/
def LegacyCodec.RefusesFields {α : Type} (fields : List LegacyField)
    (read : LegacyRead sdk α) : Prop :=
  ∀ bytes, codec.writeFields fields = some bytes →
    Refuses codec.remaining read bytes

variable {codec}

theorem writeFields_cons {field : LegacyField} {fields : List LegacyField}
    {bytes : List UInt8}
    (h : codec.writeFields (field :: fields) = some bytes) :
    ∃ front rest, codec.writeField field = some front ∧
      codec.writeFields fields = some rest ∧ bytes = front ++ rest := by
  rw [LegacyCodec.writeFields] at h
  obtain ⟨front, hfront, h⟩ := Option.bind_eq_some_iff.mp h
  obtain ⟨rest, hrest, h⟩ := Option.bind_eq_some_iff.mp h
  cases h
  exact ⟨front, rest, hfront, hrest, rfl⟩

/-! ## The reads of the fields -/

variable {α β : Type} {fields : List LegacyField} {value : α}

theorem readsFields_pure (value : α) :
    codec.ReadsFields [] (pure value) value := by
  intro bytes h
  cases h
  exact reads_pure _ _

/-- A field that is read in front of others. -/
theorem readsFields_cons {field : LegacyField} {read : LegacyRead sdk β}
    {next : β → LegacyRead sdk α} {front : β}
    (hfield : ∀ bytes, codec.writeField field = some bytes →
      Reads codec.remaining read bytes front)
    (h : codec.ReadsFields fields (next front) value) :
    codec.ReadsFields (field :: fields) (read >>= next) value := by
  intro bytes hbytes
  obtain ⟨bytes₁, bytes₂, hwrite, hrest, rfl⟩ := writeFields_cons hbytes
  exact (hfield bytes₁ hwrite).bind (h bytes₂ hrest)

theorem refusesFields_cons {field : LegacyField} {read : LegacyRead sdk β}
    {next : β → LegacyRead sdk α} {front : β}
    (hfield : ∀ bytes, codec.writeField field = some bytes →
      Reads codec.remaining read bytes front)
    (h : codec.RefusesFields fields (next front)) :
    codec.RefusesFields (field :: fields) (read >>= next) := by
  intro bytes hbytes
  obtain ⟨bytes₁, bytes₂, hwrite, hrest, rfl⟩ := writeFields_cons hbytes
  exact (hfield bytes₁ hwrite).refuses_bind (h bytes₂ hrest)

/-- A layout of one field. -/
theorem readsFields_one {field : LegacyField} {read : LegacyRead sdk α}
    (hfield : ∀ bytes, codec.writeField field = some bytes →
      Reads codec.remaining read bytes value) :
    codec.ReadsFields [field] read value := by
  rw [← bind_pure read]
  exact readsFields_cons hfield (readsFields_pure value)

theorem reads_string (value : String) (bytes : List UInt8)
    (h : codec.writeField (.string value) = some bytes) :
    Reads codec.remaining (legacyReadString sdk) bytes value :=
  codec.readString_write h

theorem reads_bigInteger (value : Int) (bytes : List UInt8)
    (h : codec.writeField (.bigInteger value) = some bytes) :
    Reads codec.remaining (legacyReadBigInteger sdk) bytes
      (toString value) := by
  intro reader rest hreader
  obtain ⟨reader', hread, hrest⟩ :=
    codec.readBigInteger_write h reader rest hreader
  refine ⟨reader', ?_, hrest⟩
  rw [legacyReadBigInteger, hread]
  rfl

theorem reads_varUint (value : Nat) (bytes : List UInt8)
    (h : codec.writeField (.varUint value) = some bytes) :
    Reads codec.remaining (legacyReadVarUint sdk) bytes value :=
  codec.readVarUint_write h

/-- A hash prints reversed. -/
theorem reads_hash (hash : List UInt8) (bytes : List UInt8)
    (h : codec.writeField (.varBytes hash) = some bytes) :
    Reads codec.remaining (legacyReadHash sdk) bytes
      (hexUpper hash.reverse) := by
  intro reader rest hreader
  obtain ⟨reader', hread, hrest⟩ :=
    codec.readVarBytes_write h reader rest hreader
  refine ⟨reader', ?_, hrest⟩
  rw [legacyReadHash, hread, ← codec.encodeHexUpper_eq]
  rfl

theorem reads_address {raw : List UInt8} {text : String}
    (htext : sdk.addressText raw = some text) (bytes : List UInt8)
    (h : codec.writeField (.varBytes raw) = some bytes) :
    Reads codec.remaining (legacyReadAddress sdk) bytes text := by
  intro reader rest hreader
  obtain ⟨reader', hread, hrest⟩ :=
    codec.readVarBytes_write h reader rest hreader
  refine ⟨reader', ?_, hrest⟩
  rw [legacyReadAddress, hread]
  show (sdk.addressText raw).map (fun text => (text, reader')) = _
  rw [htext]
  rfl

/-! ## The decoders -/

/-- The decoder takes the hex text of the fields for the value, and fails when
anything is behind them. -/
structure DecodesLayout (codec : LegacyCodec sdk)
    (decode : EventPlace → String → String → Except IngestionError α)
    (fields : List LegacyField) (value : α) : Prop where
  exact : ∀ {bytes raw}, codec.writeFields fields = some bytes →
    hexBytes raw.toList = some bytes →
    ∀ place eventKind, decode place eventKind raw = .ok value
  trailing : ∀ {bytes extra raw}, codec.writeFields fields = some bytes →
    extra ≠ [] → hexBytes raw.toList = some (bytes ++ extra) →
    ∀ place eventKind, decode place eventKind raw =
      .error (legacyEventDecodeError place eventKind)

/-- The decoder fails on the hex text of the fields, whatever is behind
them. -/
def RefusesLayout (codec : LegacyCodec sdk)
    (decode : EventPlace → String → String → Except IngestionError α)
    (fields : List LegacyField) : Prop :=
  ∀ bytes extra raw, codec.writeFields fields = some bytes →
    hexBytes raw.toList = some (bytes ++ extra) →
    ∀ place eventKind, decode place eventKind raw =
      .error (legacyEventDecodeError place eventKind)

theorem decodeLegacy_eq {read : LegacyRead sdk α} {raw : String}
    {bytes : List UInt8} (h : sdk.decodeHex raw = some bytes)
    (place : EventPlace) (eventKind : String) :
    decodeLegacy sdk read place eventKind raw =
      match readAll sdk.newReader sdk.atEof read bytes with
      | some value => .ok value
      | none => .error (legacyEventDecodeError place eventKind) := by
  rw [decodeLegacy, h]
  rfl

theorem decodesLayout_of_reads {read : LegacyRead sdk α}
    (h : codec.ReadsFields fields read value) :
    DecodesLayout codec (decodeLegacy sdk read) fields value where
  exact hwrite hhex place eventKind := by
    rw [decodeLegacy_eq (codec.decodeHex_hex hhex), readAll_eq_some
      codec.newReader_remaining codec.atEof_iff (h _ hwrite)]
  trailing hwrite hextra hhex place eventKind := by
    rw [decodeLegacy_eq (codec.decodeHex_hex hhex), readAll_append_eq_none
      codec.newReader_remaining codec.atEof_iff (h _ hwrite) hextra]

theorem refusesLayout_of_refuses {read : LegacyRead sdk α}
    (h : codec.RefusesFields fields read) :
    RefusesLayout codec (decodeLegacy sdk read) fields := by
  intro bytes extra raw hwrite hhex place eventKind
  rw [decodeLegacy_eq (codec.decodeHex_hex hhex), readAll_eq_none
    codec.newReader_remaining (h _ hwrite)]

end

/-! ## The codes -/

/-- `MarketEventKind`, in the order of the codes. -/
def marketEventKinds : List String := ["Fixed", "Classic", "Reserve", "Dutch"]

/-- `SaleEventKind`, in the order of the codes. -/
def saleEventKinds : List String :=
  ["Creation", "SoftCap", "HardCap", "AddedToWhitelist",
    "RemovedFromWhitelist", "Distribution", "Refund", "PriceChange",
    "Participation"]

theorem marketEventKindName_eq :
    ∀ code, marketEventKindName code = marketEventKinds[code]?
  | 0 | 1 | 2 | 3 => rfl
  | _ + 4 => rfl

theorem saleEventKindName_eq :
    ∀ code, saleEventKindName code = saleEventKinds[code]?
  | 0 | 1 | 2 | 3 | 4 | 5 | 6 | 7 | 8 => rfl
  | _ + 9 => rfl

/-! ## The twelve layouts -/

/-- The decoders take exactly their layouts. An address is any bytes that have
an address text. -/
structure DecodersExact {sdk : LegacySdk} (codec : LegacyCodec sdk) :
    Prop where
  token : ∀ token value chainName,
    DecodesLayout codec (decodeLegacyTokenEvent sdk)
      [.string token, .bigInteger value, .string chainName]
      ⟨token, toString value, chainName⟩
  infusion : ∀ baseToken tokenId infusedToken infusedValue chainName,
    DecodesLayout codec (decodeLegacyInfusionEvent sdk)
      [.string baseToken, .bigInteger tokenId, .string infusedToken,
        .bigInteger infusedValue, .string chainName]
      ⟨baseToken, toString tokenId, infusedToken, toString infusedValue,
        chainName⟩
  market : ∀ baseToken quoteToken marketId price endPrice code name,
    marketEventKinds[code]? = some name →
    DecodesLayout codec (decodeLegacyMarketEvent sdk)
      [.string baseToken, .string quoteToken, .bigInteger marketId,
        .bigInteger price, .bigInteger endPrice, .varUint code]
      ⟨baseToken, quoteToken, toString marketId, toString price,
        toString endPrice, name⟩
  marketUnknown : ∀ baseToken quoteToken marketId price endPrice code,
    marketEventKinds.length ≤ code →
    RefusesLayout codec (decodeLegacyMarketEvent sdk)
      [.string baseToken, .string quoteToken, .bigInteger marketId,
        .bigInteger price, .bigInteger endPrice, .varUint code]
  gas : ∀ raw address price amount, sdk.addressText raw = some address →
    DecodesLayout codec (decodeLegacyGasEvent sdk)
      [.varBytes raw, .bigInteger price, .bigInteger amount]
      ⟨address, toString price, toString amount⟩
  string : ∀ value, DecodesLayout codec (decodeLegacyStringEvent sdk)
    [.string value] value
  settle : ∀ hash platform chain,
    DecodesLayout codec (decodeLegacySettleEvent sdk)
      [.varBytes hash, .string platform, .string chain]
      (hexUpper hash.reverse, platform, chain)
  organization : ∀ organization raw address,
    sdk.addressText raw = some address →
    DecodesLayout codec (decodeLegacyOrganizationEvent sdk)
      [.string organization, .varBytes raw] (organization, address)
  hash : ∀ hash, DecodesLayout codec (decodeLegacyHashEvent sdk)
    [.varBytes hash] (hexUpper hash.reverse)
  sale : ∀ hash code name, saleEventKinds[code]? = some name →
    DecodesLayout codec (decodeLegacySaleEvent sdk)
      [.varBytes hash, .varUint code] (hexUpper hash.reverse, name)
  saleUnknown : ∀ hash code, saleEventKinds.length ≤ code →
    RefusesLayout codec (decodeLegacySaleEvent sdk)
      [.varBytes hash, .varUint code]
  chainValue : ∀ name value,
    DecodesLayout codec (decodeLegacyChainValueEvent sdk)
      [.string name, .bigInteger value] (name, toString value)
  address : ∀ raw address, sdk.addressText raw = some address →
    DecodesLayout codec (decodeLegacyAddressEvent sdk) [.varBytes raw] address
  tokenCreateSymbol : ∀ symbol,
    DecodesLayout codec (decodeLegacyTokenCreateSymbol sdk)
      [.string symbol] symbol

/-- A code that is read last, and its name. -/
theorem readsFields_code {sdk : LegacySdk} {codec : LegacyCodec sdk}
    {α : Type} {names : Nat → Option String} {code : Nat} {name : String}
    (hname : names code = some name) (result : String → α) :
    codec.ReadsFields [.varUint code] (do
      let kind ← legacyReadVarUint sdk
      let eventKind ← StateT.lift (names kind)
      return result eventKind) (result name) :=
  readsFields_cons (reads_varUint code) fun bytes hbytes => by
    exact reads_lift_bind hname (readsFields_pure _ bytes hbytes)

theorem refusesFields_code {sdk : LegacySdk} {codec : LegacyCodec sdk}
    {α : Type} {names : Nat → Option String} {code : Nat}
    (hname : names code = none) (result : String → α) :
    codec.RefusesFields [.varUint code] (do
      let kind ← legacyReadVarUint sdk
      let eventKind ← StateT.lift (names kind)
      return result eventKind) :=
  refusesFields_cons (reads_varUint code) fun bytes _ =>
    refuses_lift_bind bytes hname

theorem decoders_exact {sdk : LegacySdk} (codec : LegacyCodec sdk) :
    DecodersExact codec where
  token token value chainName := by
    refine decodesLayout_of_reads ?_
    refine readsFields_cons (reads_string token) ?_
    refine readsFields_cons (reads_bigInteger value) ?_
    refine readsFields_cons (reads_string chainName) ?_
    exact readsFields_pure _
  infusion baseToken tokenId infusedToken infusedValue chainName := by
    refine decodesLayout_of_reads ?_
    refine readsFields_cons (reads_string baseToken) ?_
    refine readsFields_cons (reads_bigInteger tokenId) ?_
    refine readsFields_cons (reads_string infusedToken) ?_
    refine readsFields_cons (reads_bigInteger infusedValue) ?_
    refine readsFields_cons (reads_string chainName) ?_
    exact readsFields_pure _
  market baseToken quoteToken marketId price endPrice code name hname := by
    rw [← marketEventKindName_eq] at hname
    refine decodesLayout_of_reads ?_
    refine readsFields_cons (reads_string baseToken) ?_
    refine readsFields_cons (reads_string quoteToken) ?_
    refine readsFields_cons (reads_bigInteger marketId) ?_
    refine readsFields_cons (reads_bigInteger price) ?_
    refine readsFields_cons (reads_bigInteger endPrice) ?_
    exact readsFields_code hname _
  marketUnknown baseToken quoteToken marketId price endPrice code hcode := by
    have hname := marketEventKindName_eq code
    rw [List.getElem?_eq_none hcode] at hname
    refine refusesLayout_of_refuses ?_
    refine refusesFields_cons (reads_string baseToken) ?_
    refine refusesFields_cons (reads_string quoteToken) ?_
    refine refusesFields_cons (reads_bigInteger marketId) ?_
    refine refusesFields_cons (reads_bigInteger price) ?_
    refine refusesFields_cons (reads_bigInteger endPrice) ?_
    exact refusesFields_code hname _
  gas raw address price amount haddress := by
    refine decodesLayout_of_reads ?_
    refine readsFields_cons (reads_address haddress) ?_
    refine readsFields_cons (reads_bigInteger price) ?_
    refine readsFields_cons (reads_bigInteger amount) ?_
    exact readsFields_pure _
  string value := by
    exact decodesLayout_of_reads (readsFields_one (reads_string value))
  settle hash platform chain := by
    refine decodesLayout_of_reads ?_
    refine readsFields_cons (reads_hash hash) ?_
    refine readsFields_cons (reads_string platform) ?_
    refine readsFields_cons (reads_string chain) ?_
    exact readsFields_pure _
  organization organization raw address haddress := by
    refine decodesLayout_of_reads ?_
    refine readsFields_cons (reads_string organization) ?_
    refine readsFields_cons (reads_address haddress) ?_
    exact readsFields_pure _
  hash hash := by
    exact decodesLayout_of_reads (readsFields_one (reads_hash hash))
  sale hash code name hname := by
    rw [← saleEventKindName_eq] at hname
    refine decodesLayout_of_reads ?_
    refine readsFields_cons (reads_hash hash) ?_
    exact readsFields_code hname _
  saleUnknown hash code hcode := by
    have hname := saleEventKindName_eq code
    rw [List.getElem?_eq_none hcode] at hname
    refine refusesLayout_of_refuses ?_
    refine refusesFields_cons (reads_hash hash) ?_
    exact refusesFields_code hname _
  chainValue name value := by
    refine decodesLayout_of_reads ?_
    refine readsFields_cons (reads_string name) ?_
    refine readsFields_cons (reads_bigInteger value) ?_
    exact readsFields_pure _
  address raw address haddress := by
    exact decodesLayout_of_reads (readsFields_one (reads_address haddress))
  tokenCreateSymbol symbol := by
    exact decodesLayout_of_reads (readsFields_one (reads_string symbol))

/-! ### A codec over one-byte lengths -/

/-- The address of the genesis actor. -/
def genesisAddress : List UInt8 :=
  [0x01, 0x00, 0xAC, 0x42, 0xF8, 0xB9, 0xE6, 0x17, 0xBE, 0x15, 0x24, 0x89,
    0x3A, 0x76, 0xA1, 0xB0, 0xCC, 0xF9, 0x37, 0x78, 0x20, 0x23, 0xBA, 0x35,
    0x30, 0x19, 0x48, 0xA8, 0xF9, 0x4C, 0xEB, 0xC6, 0x7A, 0x1F]

/-- The SDK on one-byte lengths, which knows one address. -/
def genesisSdk : LegacySdk :=
  { byteSdk with
    addressText := fun raw =>
      if raw = genesisAddress then
        some "P2KFNXEbt65rQiWqogAzqkVGMqFirPmqPw8mQyxvRKsrXV8"
      else none }

def putVarBytes (bytes : List UInt8) : Option (List UInt8) :=
  if bytes.length < 0xFD then some (UInt8.ofNat bytes.length :: bytes)
  else none

theorem reads_putVarBytes {value bytes : List UInt8}
    (h : putVarBytes value = some bytes) :
    Reads id takeVarBytes bytes value := by
  rw [putVarBytes] at h
  split at h
  · rename_i hlength
    cases h
    intro reader rest hreader
    refine ⟨rest, ?_, rfl⟩
    have hsmall : (UInt8.ofNat value.length).toNat = value.length :=
      UInt8.toNat_ofNat_of_lt' (Nat.lt_trans hlength (by decide))
    have hle : value.length ≤ (value ++ rest).length := by
      rw [List.length_append]
      exact Nat.le_add_right _ _
    rw [show reader = UInt8.ofNat value.length :: (value ++ rest) from hreader,
      takeVarBytes, hsmall, if_pos ⟨hlength, hle⟩, List.take_left,
      List.drop_left]
  · cases h

/-- The bytes of a value, when the value is read back from them. -/
def putValue {α : Type} [DecidableEq α] (decode : List UInt8 → α)
    (encode : α → List UInt8) (value : α) : Option (List UInt8) :=
  if decode (encode value) = value then putVarBytes (encode value) else none

theorem reads_putValue {α : Type} [DecidableEq α] {decode : List UInt8 → α}
    {encode : α → List UInt8} {value : α} {bytes : List UInt8}
    (h : putValue decode encode value = some bytes) :
    Reads id (fun reader => (takeVarBytes reader).map fun (bytes, rest) =>
      (decode bytes, rest)) bytes value := by
  rw [putValue] at h
  split at h
  · rename_i hdecode
    intro reader rest hreader
    obtain ⟨reader', hread, hrest⟩ := reads_putVarBytes h reader rest hreader
    refine ⟨reader', ?_, hrest⟩
    show Option.map _ (takeVarBytes reader) = _
    rw [hread, Option.map_some]
    show some (decode (encode value), reader') = _
    rw [hdecode]
  · cases h

/-- Bytes as characters. -/
def bytesText (bytes : List UInt8) : String :=
  String.ofList (bytes.map fun b => Char.ofNat b.toNat)

/-- The characters as bytes. -/
def textBytes (text : String) : List UInt8 :=
  text.toList.map fun c => UInt8.ofNat c.toNat

/-- Little endian, two's complement, with a byte to spare. -/
def bigIntegerBytes (value : Int) : List UInt8 :=
  (List.range (value.natAbs.log2 / 8 + 2)).map fun i =>
    UInt8.ofNat (value / 256 ^ i % 256).toNat

def putVarUint (value : Nat) : Option (List UInt8) :=
  if value < 0xFD then some [UInt8.ofNat value] else none

theorem reads_putVarUint {value : Nat} {bytes : List UInt8}
    (h : putVarUint value = some bytes) :
    Reads id genesisSdk.readVarUint bytes value := by
  rw [putVarUint] at h
  split at h
  · rename_i hsmall
    cases h
    intro reader rest hreader
    have hvalue : (UInt8.ofNat value).toNat = value :=
      UInt8.toNat_ofNat_of_lt' (Nat.lt_trans hsmall (by decide))
    refine ⟨rest, ?_, rfl⟩
    rw [show reader = UInt8.ofNat value :: rest from hreader]
    show (if (UInt8.ofNat value).toNat < 0xFD then
      some ((UInt8.ofNat value).toNat, rest) else none) = _
    rw [hvalue, if_pos hsmall]
  · cases h

def genesisCodec : LegacyCodec genesisSdk where
  writeString := putValue bytesText textBytes
  writeBigInteger := putValue bytesToInt bigIntegerBytes
  writeVarUint := putVarUint
  writeVarBytes := putVarBytes
  remaining := id
  newReader_remaining _ := rfl
  atEof_iff _ := List.isEmpty_iff
  readString_write h := reads_putValue h
  readBigInteger_write h := reads_putValue h
  readVarUint_write h := reads_putVarUint h
  readVarBytes_write h := reads_putVarBytes h
  decodeHex_hex h := h
  encodeHexUpper_eq _ := rfl

/-- The layouts of three stored rows: a name and its number, a member of an
organization, and a sale with a code that is none of the kinds. -/
theorem decoders_exact_rows :
    DecodersExact genesisCodec ∧
      (∀ place, decodeLegacyChainValueEvent genesisSdk place "ValueCreate"
        "166E657875732E70726F746F636F6C2E76657273696F6E020100" =
          .ok ("nexus.protocol.version", "1")) ∧
      (∀ place, decodeLegacyChainValueEvent genesisSdk place "ValueCreate"
        "166E657875732E70726F746F636F6C2E76657273696F6E02010000" =
          .error (legacyEventDecodeError place "ValueCreate")) ∧
      (∀ place, decodeLegacyAddressEvent genesisSdk place "ValidatorElect"
        ("220100AC42F8B9E617BE1524893A76A1B0CCF937782023BA35301948A8F94CEBC6" ++
          "7A1F") =
          .ok "P2KFNXEbt65rQiWqogAzqkVGMqFirPmqPw8mQyxvRKsrXV8") ∧
      ∀ place, decodeLegacySaleEvent genesisSdk place "Crowdsale" "02ABCD09" =
        .error (legacyEventDecodeError place "Crowdsale") := by
  have hexact := decoders_exact genesisCodec
  have hvalue := hexact.chainValue "nexus.protocol.version" 1
  have htext : genesisSdk.addressText genesisAddress =
      some "P2KFNXEbt65rQiWqogAzqkVGMqFirPmqPw8mQyxvRKsrXV8" := by
    decide +kernel
  have haddress := hexact.address genesisAddress _ htext
  have hsale := hexact.saleUnknown [0xAB, 0xCD] 9 (by decide)
  refine ⟨hexact, fun place => ?_, fun place => ?_, fun place => ?_,
    fun place => ?_⟩
  · exact hvalue.exact rfl (by decide +kernel) place _
  · exact hvalue.trailing rfl (List.cons_ne_nil 0x00 []) (by decide +kernel)
      place _
  · exact haddress.exact rfl (by decide +kernel) place _
  · exact hsale _ [] _ rfl (by decide +kernel) place _

end Explorer.Ref
