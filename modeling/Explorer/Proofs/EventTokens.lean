import Explorer.Proofs.TokenAmounts

/-!
# The token behind an event's amount

The map of a page is keyed by symbol, and what is in it under a symbol is the
last of the rows with this symbol in the answer of the query. Any of them can
be the last. So the amount of an event is that of its own token in every case
just if all these rows, whatever their chains, format it alike; and where
there is none, if it is stored the way it is to be shown. That is `amount_iff`.

Which rows these are depends on what is stored, too: a row is found when its
symbol is, letter for letter, one of the upper-case symbols of the page.
-/

namespace Explorer.Ref

open Explorer.Lib

variable (toUppercase : String → String)

/-- The number of decimals that the row gives an amount. -/
def EventTokenRow.usedDecimals (row : EventTokenRow) : Nat :=
  row.decimals.toInt.toNat

/-- The row has this symbol, in whatever case. -/
def EventTokenRow.goesBy (row : EventTokenRow) (symbol : String) : Bool :=
  row.symbol.map toUppercase == some (toUppercase symbol)

/-- Of the tokens on the chain, just this one has the symbol. -/
def OnlyToken (tokens : List EventTokenRow) (chainId : Int32)
    (symbol : String) (token : EventTokenRow) : Prop :=
  tokens.filter (fun row => row.chainId == chainId &&
    row.goesBy toUppercase symbol) = [token]

/-- The event at place `i` of the page has a token event with a symbol and an
amount. -/
structure TokenEventAt (page : List EventPageRow) (i : Nat) (row : EventPageRow)
    (value : Json) (symbol raw : String) : Prop where
  inPage : page[i]? = some row
  payload : ∃ payload, row.payloadJson = some (.obj payload) ∧
    payload.lookup "token_event" = some value
  names : eventSymbol (objectFields value) row.contractSymbol = some symbol
  amount : rawAmount (objectFields value) = some raw

/-- In whatever order the rows come, the event shows the text as its value. -/
def ShowsValue (tokens : List EventTokenRow) (page : List EventPageRow) (i : Nat)
    (text : String) : Prop :=
  ∀ found, found.Perm (listEventTokensBySymbols tokens
      (collectEventTokenSymbols toUppercase page)) →
    ∃ shown, (tokenEventsOfPage toUppercase found page)[i]? =
        some (some shown) ∧
      shown.get "value" = some (.str text)

/-- The query for the page gives the row, and it goes under the symbol. -/
def Found (tokens : List EventTokenRow) (page : List EventPageRow)
    (symbol : String) (row : EventTokenRow) : Prop :=
  row ∈ listEventTokensBySymbols tokens
      (collectEventTokenSymbols toUppercase page) ∧
    row.goesBy toUppercase symbol = true

/-! ## The map of the tokens -/

theorem toString_ne_minus_zero (n : Int) : toString n ≠ "-0" := by
  intro h
  have htext := toList_toString_digits n
  rw [h] at htext
  split at htext
  · next hneg =>
      have hread := Nat.ofDigitChars_ten_toDigits (n := n.natAbs)
      rw [← (List.cons.inj htext).2] at hread
      have hzero : n.natAbs = 0 := hread.symm
      omega
  · exact absurd htext.symm fun heq =>
      (digits_toDigits n.natAbs).notMem (c := '-') (by decide)
        (by rw [heq]; simp)

theorem tokenDecimals_tokenJson (symbol : String) (row : EventTokenRow) :
    tokenDecimals (tokenJson symbol row) = row.usedDecimals := by
  have hget : (tokenJson symbol row).get "decimals" =
      some (.num (toString row.decimals.toInt)) := by
    simp only [tokenJson, Json.object, List.foldl_cons, List.foldl_nil,
      Json.get]
    rw [Json.lookup_setField, if_pos rfl]
  have hread : (toString row.decimals.toInt).toInt? =
      some row.decimals.toInt := Int.toInt?_repr _
  have hplain := toString_ne_minus_zero row.decimals.toInt
  have hlow := row.decimals.le_toInt
  have hhigh := row.decimals.toInt_lt
  have hrange : -2 ^ 63 ≤ row.decimals.toInt ∧ row.decimals.toInt < 2 ^ 63 := by
    omega
  rw [tokenDecimals, hget, Option.bind_some, jsonAsI64, if_neg hplain, hread,
    Option.filter_some, if_pos (decide_eq_true hrange)]
  rfl

theorem tokensFromRows_append (rows : List EventTokenRow)
    (row : EventTokenRow) :
    tokensFromRows toUppercase (rows ++ [row]) =
      insertToken toUppercase (tokensFromRows toUppercase rows) row := by
  rw [tokensFromRows, List.foldl_append, ← tokensFromRows]
  rfl

/-- A row that goes by the symbol takes its place in the map. -/
theorem insertToken_goesBy {tokens : TokenMap} {row : EventTokenRow}
    {symbol : String} (h : row.goesBy toUppercase symbol = true) :
    ∃ s, insertToken toUppercase tokens row (toUppercase symbol) =
      some (tokenJson s row) := by
  rw [EventTokenRow.goesBy, beq_iff_eq, Option.map_eq_some_iff] at h
  obtain ⟨s, hs, hupper⟩ := h
  refine ⟨s, ?_⟩
  simp only [insertToken, hs]
  exact if_pos hupper.symm

theorem insertToken_other {tokens : TokenMap} {row : EventTokenRow}
    {symbol : String} (h : row.goesBy toUppercase symbol = false) :
    insertToken toUppercase tokens row (toUppercase symbol) =
      tokens (toUppercase symbol) := by
  rw [EventTokenRow.goesBy, beq_eq_false_iff_ne] at h
  rw [insertToken]
  cases hs : row.symbol with
  | none => rfl
  | some s =>
      rw [hs, Option.map_some, ne_eq, Option.some.injEq] at h
      exact if_neg fun heq => h heq.symm

/-- What is in the map under a symbol is one of the rows that go by it. -/
theorem tokensFromRows_cases (rows : List EventTokenRow) (symbol : String) :
    (tokensFromRows toUppercase rows (toUppercase symbol) = none ∧
      ∀ row ∈ rows, row.goesBy toUppercase symbol = false) ∨
    ∃ s, ∃ row ∈ rows, row.goesBy toUppercase symbol = true ∧
      tokensFromRows toUppercase rows (toUppercase symbol) =
        some (tokenJson s row) := by
  induction rows using List.reverseRecOn with
  | nil => exact .inl ⟨rfl, by simp⟩
  | append_singleton rows last ih =>
      rw [tokensFromRows_append]
      cases hlast : last.goesBy toUppercase symbol with
      | true =>
          obtain ⟨s, hs⟩ := insertToken_goesBy toUppercase hlast
          exact .inr ⟨s, last, by simp, hlast, hs⟩
      | false =>
          rw [insertToken_other toUppercase hlast]
          obtain ⟨hnone, hall⟩ | ⟨s, row, hrow, hgoes, hs⟩ := ih
          · refine .inl ⟨hnone, fun row hrow => ?_⟩
            obtain hrow | hrow := List.mem_append.1 hrow
            · exact hall row hrow
            · rw [List.mem_singleton.1 hrow, hlast]
          · exact .inr ⟨s, row, by simp [hrow], hgoes, hs⟩

/-! ## The event -/

theorem lookup_rehydrated {payload : Json.Fields} {value : Json}
    (chainName : String) (address : Option String)
    (h : payload.lookup "token_event" = some value) :
    ∃ object, rehydrateEventPayload (some (.obj payload)) chainName address =
        some (.obj object) ∧ object.lookup "token_event" = some value := by
  cases address with
  | none =>
      refine ⟨_, rfl, ?_⟩
      rw [Json.lookup_setField, if_neg (by decide), h]
  | some address =>
      refine ⟨_, rfl, ?_⟩
      rw [Json.lookup_setField, if_neg (by decide), Json.lookup_setField,
        if_neg (by decide), h]

section

variable {page : List EventPageRow} {i : Nat} {row : EventPageRow} {value : Json}
  {symbol raw : String}

theorem TokenEventAt.shown (h : TokenEventAt page i row value symbol raw)
    (found : List EventTokenRow) :
    (tokenEventsOfPage toUppercase found page)[i]? =
      some (some (enrichTokenEvent toUppercase value row.contractSymbol
        (tokensFromRows toUppercase found))) := by
  obtain ⟨payload, hpayload, hvalue⟩ := h.payload
  obtain ⟨object, hobject, hlookup⟩ :=
    lookup_rehydrated row.chainName row.address hvalue
  rw [tokenEventsOfPage, List.getElem?_map, h.inPage, Option.map_some,
    tokenEventOf, hpayload, hobject]
  simp only [hlookup, Option.map_some]

/-- Without a row the value stays what it is. -/
theorem get_enrich_none {contractSymbol : Option String} {tokens : TokenMap}
    (hsymbol : eventSymbol (objectFields value) contractSymbol = some symbol)
    (h : tokens (toUppercase symbol) = none) :
    (enrichTokenEvent toUppercase value contractSymbol tokens).get "value" =
      (objectFields value).lookup "value" := by
  simp only [enrichTokenEvent, hsymbol, h]
  rw [Json.get, Json.lookup_setField, if_neg (by decide)]

theorem get_enrich_some {contractSymbol : Option String} {tokens : TokenMap}
    {token : Json}
    (hsymbol : eventSymbol (objectFields value) contractSymbol = some symbol)
    (hraw : rawAmount (objectFields value) = some raw)
    (h : tokens (toUppercase symbol) = some token) :
    (enrichTokenEvent toUppercase value contractSymbol tokens).get "value" =
      some (.str (formatTokenAmount raw (tokenDecimals token))) := by
  have hraw' : rawAmount (Json.setField "token" token (objectFields value)) =
      some raw := by
    rw [← hraw, rawAmount, rawAmount, scalarField, scalarField, scalarField,
      scalarField, Json.lookup_setField, Json.lookup_setField,
      if_neg (by decide), if_neg (by decide)]
  simp only [enrichTokenEvent, hsymbol, h, hraw']
  rw [Json.get, Json.lookup_setField, if_neg (by decide),
    Json.lookup_setField, if_pos rfl]

end

/-! ## Which rows are found -/

/-- A page asks for the symbol of each of its token events. -/
theorem asked_of_tokenEvent {page : List EventPageRow} {row : EventPageRow}
    (hrow : row ∈ page) {payload : Json.Fields} {value : Json} {symbol : String}
    (hpayload : row.payloadJson = some (.obj payload))
    (hvalue : payload.lookup "token_event" = some value)
    (hsymbol : eventSymbol (objectFields value) row.contractSymbol =
      some symbol) :
    toUppercase symbol ∈ collectEventTokenSymbols toUppercase page := by
  refine List.mem_flatMap.mpr ⟨row, hrow, List.mem_append.mpr ?_⟩
  rw [eventSymbol, Option.or_eq_some_iff] at hsymbol
  rcases hsymbol with hnamed | ⟨-, hcontract⟩
  · right
    rw [hpayload]
    refine List.mem_filterMap.mpr
      ⟨("token_event", "token"), by simp [tokenKeys], ?_⟩
    rw [tokenSymbolFromPayloadKey, hvalue, Option.bind_some]
    cases value with
    | obj fields =>
        rw [scalarField] at hnamed
        rw [Json.get]
        exact congrArg (Option.map toUppercase) hnamed
    | _ => cases hnamed
  · left
    rw [hcontract]
    simp

theorem TokenEventAt.asked {page : List EventPageRow} {i : Nat}
    {row : EventPageRow} {value : Json} {symbol raw : String}
    (h : TokenEventAt page i row value symbol raw) :
    toUppercase symbol ∈ collectEventTokenSymbols toUppercase page := by
  obtain ⟨payload, hpayload, hvalue⟩ := h.payload
  exact asked_of_tokenEvent toUppercase (List.mem_of_getElem? h.inPage)
    hpayload hvalue h.names

/-- The symbols that a page asks for are in upper case. -/
theorem upper_eq_of_asked {toUppercase : String → String}
    (hupper : ∀ s, toUppercase (toUppercase s) = toUppercase s)
    {page : List EventPageRow} {s : String}
    (hs : s ∈ collectEventTokenSymbols toUppercase page) :
    toUppercase s = s := by
  obtain ⟨row, -, hrow⟩ := List.mem_flatMap.mp hs
  rcases List.mem_append.mp hrow with hcontract | hpayload
  · obtain ⟨t, -, rfl⟩ := Option.map_eq_some_iff.mp
      (Option.mem_toList.mp hcontract)
    exact hupper t
  · split at hpayload
    · obtain ⟨keys, -, hkeys⟩ := List.mem_filterMap.mp hpayload
      obtain ⟨t, -, rfl⟩ := Option.map_eq_some_iff.mp hkeys
      exact hupper t
    · cases hpayload

/-- With an upper case that stays as it is, the rows that are found are those
that are stored under the symbol in upper case. -/
theorem found_iff (hupper : ∀ s, toUppercase (toUppercase s) = toUppercase s)
    {tokens : List EventTokenRow} {page : List EventPageRow} {i : Nat}
    {row : EventPageRow} {value : Json} {symbol raw : String}
    (h : TokenEventAt page i row value symbol raw) (token : EventTokenRow) :
    Found toUppercase tokens page symbol token ↔
      token ∈ tokens ∧ token.symbol = some (toUppercase symbol) := by
  rw [Found, listEventTokensBySymbols, List.mem_filter]
  constructor
  · rintro ⟨⟨hmem, hasked⟩, hgoes⟩
    refine ⟨hmem, ?_⟩
    rw [Option.any_eq_true] at hasked
    obtain ⟨s, hs, hasked⟩ := hasked
    rw [EventTokenRow.goesBy, hs, Option.map_some, beq_iff_eq,
      Option.some.injEq] at hgoes
    rw [List.contains_iff_mem] at hasked
    have hfixed : toUppercase s = s := upper_eq_of_asked hupper hasked
    rw [hs, ← hgoes, hfixed]
  · rintro ⟨hmem, hsymbol⟩
    refine ⟨⟨hmem, ?_⟩, ?_⟩
    · rw [hsymbol, Option.any_some, List.contains_iff_mem]
      exact h.asked toUppercase
    · rw [EventTokenRow.goesBy, hsymbol, Option.map_some, hupper,
        beq_self_eq_true]

/-! ## When the amount is right -/

section

variable {toUppercase} {tokens : List EventTokenRow} {page : List EventPageRow}
  {i : Nat} {row : EventPageRow} {value : Json} {symbol raw text : String}

/-- Any row that is found may be the last of the answer. -/
theorem ShowsValue.of_found (h : ShowsValue toUppercase tokens page i text)
    (hevent : TokenEventAt page i row value symbol raw) {r : EventTokenRow}
    (hr : Found toUppercase tokens page symbol r) :
    formatTokenAmount raw r.usedDecimals = text := by
  let answer := listEventTokensBySymbols tokens
    (collectEventTokenSymbols toUppercase page)
  have hperm : ((answer.erase r) ++ [r]).Perm answer :=
    (List.perm_append_singleton r _).trans (List.perm_cons_erase hr.1).symm
  obtain ⟨shown, hshown, hvalue⟩ := h _ hperm
  obtain ⟨s, hs⟩ : ∃ s, tokensFromRows toUppercase (answer.erase r ++ [r])
      (toUppercase symbol) = some (tokenJson s r) := by
    rw [tokensFromRows_append]
    exact insertToken_goesBy toUppercase hr.2
  rw [hevent.shown, Option.some.injEq, Option.some.injEq] at hshown
  rw [← hshown, get_enrich_some toUppercase hevent.names hevent.amount hs,
    tokenDecimals_tokenJson, Option.some.injEq, Json.str.injEq] at hvalue
  exact hvalue

/-- Where no row is found, the event shows what is stored. -/
theorem ShowsValue.of_stored (h : ShowsValue toUppercase tokens page i text)
    (hevent : TokenEventAt page i row value symbol raw)
    (hnone : ∀ r, ¬ Found toUppercase tokens page symbol r) :
    (objectFields value).lookup "value" = some (.str text) := by
  obtain ⟨shown, hshown, hvalue⟩ := h _ (List.Perm.refl _)
  rw [hevent.shown, Option.some.injEq, Option.some.injEq] at hshown
  obtain ⟨hmap, -⟩ | ⟨s, r, hr, hgoes, -⟩ :=
    tokensFromRows_cases toUppercase (listEventTokensBySymbols tokens
      (collectEventTokenSymbols toUppercase page)) symbol
  · rw [← hshown, get_enrich_none toUppercase hevent.names hmap] at hvalue
    exact hvalue
  · exact absurd ⟨hr, hgoes⟩ (hnone r)

end

/-- An event shows its amount with the decimals of its token just if the rows
of other chains that are found under its symbol show the same and, where no
row is found at all, the value is stored so. -/
theorem amount_iff (tokens : List EventTokenRow) (page : List EventPageRow)
    (i : Nat) (row : EventPageRow) (value : Json) (symbol raw : String)
    (token : EventTokenRow)
    (hevent : TokenEventAt page i row value symbol raw)
    (honly : OnlyToken toUppercase tokens row.chainId symbol token) :
    ShowsValue toUppercase tokens page i
        (formatTokenAmount raw token.usedDecimals) ↔
      (∀ r, Found toUppercase tokens page symbol r →
        r.chainId ≠ row.chainId →
        formatTokenAmount raw r.usedDecimals =
          formatTokenAmount raw token.usedDecimals) ∧
      ((∀ r, ¬ Found toUppercase tokens page symbol r) →
        (objectFields value).lookup "value" =
          some (.str (formatTokenAmount raw token.usedDecimals))) := by
  constructor
  · intro h
    exact ⟨fun r hr _ => h.of_found hevent hr, h.of_stored hevent⟩
  · rintro ⟨hother, hstored⟩ found hperm
    refine ⟨_, hevent.shown toUppercase found, ?_⟩
    obtain ⟨hmap, hall⟩ | ⟨s, r, hr, hgoes, hmap⟩ :=
      tokensFromRows_cases toUppercase found symbol
    · rw [get_enrich_none toUppercase hevent.names hmap]
      refine hstored fun r hr => ?_
      have hno := hall r (hperm.mem_iff.2 hr.1)
      rw [hr.2] at hno
      cases hno
    · rw [get_enrich_some toUppercase hevent.names hevent.amount hmap,
        tokenDecimals_tokenJson]
      refine congrArg (fun text => some (Json.str text)) ?_
      have hfound : r ∈ listEventTokensBySymbols tokens
          (collectEventTokenSymbols toUppercase page) := hperm.mem_iff.1 hr
      by_cases hchain : r.chainId = row.chainId
      · -- On the event's chain it is the token itself.
        have hmem : r ∈ tokens.filter (fun r => r.chainId == row.chainId &&
            r.goesBy toUppercase symbol) := by
          rw [List.mem_filter, hgoes, hchain]
          exact ⟨(List.mem_filter.1 hfound).1, by simp⟩
        rw [honly, List.mem_singleton] at hmem
        rw [hmem]
      · exact hother r ⟨hfound, hgoes⟩ hchain

/-- Upper case of ASCII texts. -/
def asciiUppercase (s : String) : String :=
  String.ofList (s.toList.map Char.toUpper)

/-- A fungible token. -/
def plainToken (chainId : Int32) (symbol : String) (decimals : Int32) :
    EventTokenRow where
  chainId := chainId
  symbol := some symbol
  fungible := true
  transferable := true
  divisible := true
  fuel := false
  stakable := false
  fiat := false
  swappable := false
  burnable := false
  mintable := false
  decimals := decimals
  maxSupplyRaw := none

/-- The token event as the decoder writes it. -/
def sentValue (symbol raw : String) : Json :=
  .obj [("token", .str symbol), ("value", .str raw), ("value_raw", .str raw)]

/-- An event that sends an amount of a token. -/
def sentEvent (symbol raw : String) : EventPageRow :=
  ⟨1, "main", none, none, some (.obj [("token_event", sentValue symbol raw)])⟩

theorem sentEvent_at (symbol raw : String) :
    TokenEventAt [sentEvent symbol raw] 0 (sentEvent symbol raw)
      (sentValue symbol raw) symbol raw := by
  refine ⟨rfl, ⟨_, rfl, ?_⟩, ?_, ?_⟩
  · simp
  · simp [eventSymbol, scalarField, objectFields, sentValue,
      jsonScalarToString]
  · simp [rawAmount, scalarField, objectFields, sentValue,
      jsonScalarToString, List.lookup]

/-- A token of another chain lends its decimals, and a token whose symbol is
not all in upper case is not found. -/
theorem amount_of_another_token :
    (OnlyToken asciiUppercase [plainToken 1 "SOUL" 8, plainToken 2 "SOUL" 2] 1
        "SOUL" (plainToken 1 "SOUL" 8) ∧
      ¬ ShowsValue asciiUppercase
        [plainToken 1 "SOUL" 8, plainToken 2 "SOUL" 2]
        [sentEvent "SOUL" "150000000"] 0
        (formatTokenAmount "150000000" (plainToken 1 "SOUL" 8).usedDecimals)) ∧
    (OnlyToken asciiUppercase [plainToken 1 "GFNFTs" 2] 1 "GFNFTs"
        (plainToken 1 "GFNFTs" 2) ∧
      ¬ ShowsValue asciiUppercase [plainToken 1 "GFNFTs" 2]
        [sentEvent "GFNFTs" "150"] 0
        (formatTokenAmount "150" (plainToken 1 "GFNFTs" 2).usedDecimals)) := by
  refine ⟨⟨by unfold OnlyToken; decide +kernel, fun h => ?_⟩,
    by unfold OnlyToken; decide +kernel, fun h => ?_⟩
  · have hshown := h.of_found (sentEvent_at "SOUL" "150000000")
      (r := plainToken 2 "SOUL" 2) (by unfold Found; decide +kernel)
    exact absurd hshown (by decide +kernel)
  · have hnone : listEventTokensBySymbols [plainToken 1 "GFNFTs" 2]
        (collectEventTokenSymbols asciiUppercase
          [sentEvent "GFNFTs" "150"]) = [] := by decide +kernel
    have hstored := h.of_stored (sentEvent_at "GFNFTs" "150") fun r hr => by
      have hmem := hr.1
      rw [hnone] at hmem
      cases hmem
    have htext : (objectFields (sentValue "GFNFTs" "150")).lookup "value" =
        some (.str "150") := by
      simp [objectFields, sentValue, List.lookup]
    rw [htext, Option.some.injEq, Json.str.injEq] at hstored
    exact absurd hstored (by decide +kernel)

theorem amount_iff_soul :
    ShowsValue asciiUppercase [plainToken 1 "SOUL" 8]
      [sentEvent "soul" "150000000"] 0 (formatTokenAmount "150000000"
        (plainToken 1 "SOUL" 8).usedDecimals) := by
  refine (amount_iff asciiUppercase [plainToken 1 "SOUL" 8]
    [sentEvent "soul" "150000000"] 0 (sentEvent "soul" "150000000")
    (sentValue "soul" "150000000") "soul" "150000000" (plainToken 1 "SOUL" 8)
    (sentEvent_at "soul" "150000000")
    (by unfold OnlyToken; decide +kernel)).2 ⟨fun r hr hchain => ?_,
      fun hnone => ?_⟩
  · have hmem := (List.mem_filter.1 hr.1).1
    rw [List.mem_singleton] at hmem
    exact absurd (by rw [hmem]; rfl) hchain
  · exact absurd (by unfold Found; decide +kernel)
      (hnone (plainToken 1 "SOUL" 8))

end Explorer.Ref
