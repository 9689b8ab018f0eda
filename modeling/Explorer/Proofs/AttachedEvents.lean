import Mathlib
import Explorer.Proofs.EventTokens
import Explorer.Ref.AttachedEvents

/-!
# A page carries what each of its blocks would alone

The queries of a page read for all blocks and all transactions at once. The
rows of one owner come in their order whatever else the page asks for, so a
block has the same transactions on a page as alone, and a transaction the same
events. The token of an event is the last of the rows under its symbol, in the
order of the answer. It is the same on a page as alone, in whatever orders the
two requests are answered, if no two tokens have one symbol; the query takes the
tokens of all chains.
-/

namespace Explorer.Ref

open Explorer.Lib

/-- What the keys of the tables say. -/
structure CarriedDb.Ok (db : CarriedDb) : Prop where
  transactionIds : (db.transactions.map CarriedTransaction.id).Nodup
  eventPlaces : (db.events.map CarriedEvent.place).Nodup

/-- No two tokens, of whatever chains, have one symbol. -/
def CarriedDb.OneTokenASymbol (db : CarriedDb) : Prop :=
  ∀ a ∈ db.tokens, ∀ b ∈ db.tokens, ∀ symbol,
    a.symbol = some symbol → b.symbol = some symbol → a = b

/-- The event without its token event. -/
def EventResponse.withoutToken (event : EventResponse) : EventResponse :=
  { event with tokenEvent := none }

/-- The transaction with its events without their token events. -/
def TransactionResponse.withoutTokens (response : TransactionResponse) :
    TransactionResponse :=
  { response with
    events := response.events.map (List.map EventResponse.withoutToken) }

section

variable {toUppercase : String → String} {db : CarriedDb}
  {answer answer' : TokensAnswer db}

/-! ## Tokens -/

/-- What is stored under a symbol comes from the rows that go by it. -/
theorem tokensFromRows_filter (rows : List EventTokenRow) (k : String) :
    tokensFromRows toUppercase rows k = tokensFromRows toUppercase
      (rows.filter fun row => row.symbol.map toUppercase == some k) k := by
  induction rows using List.reverseRecOn with
  | nil => rfl
  | append_singleton rows row ih =>
      rw [tokensFromRows_append, List.filter_append, List.filter_singleton]
      cases hsymbol : row.symbol with
      | none =>
          rw [insertToken, hsymbol]
          simp only [Option.map_none]
          rw [ih]
          simp
      | some symbol =>
          by_cases heq : toUppercase symbol = k
          · have hgoes : ((some symbol).map toUppercase == some k) = true := by
              rw [Option.map_some, heq]
              exact beq_self_eq_true _
            rw [hgoes, cond_true, tokensFromRows_append, insertToken,
              insertToken, hsymbol]
            simp only
            rw [if_pos heq.symm, if_pos heq.symm]
          · have hother :
                ((some symbol).map toUppercase == some k) = false := by
              rw [Option.map_some, beq_eq_false_iff_ne]
              exact fun h => heq (Option.some.inj h)
            rw [hother, cond_false, List.append_nil, insertToken, hsymbol]
            simp only
            rw [if_neg fun h => heq h.symm, ih]

/-- Of the rows that a page finds, those under a symbol it asks for are the ones
with this symbol. -/
theorem filter_found (hupper : ∀ s, toUppercase (toUppercase s) =
    toUppercase s) {page : List EventPageRow} {symbol : String}
    (hasked : toUppercase symbol ∈
      collectEventTokenSymbols toUppercase page) :
    (listEventTokensBySymbols db.tokens
        (collectEventTokenSymbols toUppercase page)).filter
        (fun row => row.symbol.map toUppercase == some (toUppercase symbol)) =
      db.tokens.filter fun row => row.symbol == some (toUppercase symbol) := by
  rw [listEventTokensBySymbols, List.filter_filter]
  refine List.filter_congr fun row _ => ?_
  cases row.symbol with
  | none => rfl
  | some s =>
      rw [Bool.eq_iff_iff, Bool.and_eq_true, beq_iff_eq, beq_iff_eq,
        Option.map_some, Option.any_some, List.contains_iff_mem,
        Option.some_inj, Option.some_inj]
      constructor
      · rintro ⟨heq, hmem⟩
        rw [← upper_eq_of_asked hupper hmem, heq]
      · intro heq
        rw [heq]
        exact ⟨hupper symbol, hasked⟩

/-- Under a symbol that a page asks for it finds the one token with this symbol,
in whatever order the rows come. -/
theorem eventTokens_eq (hone : db.OneTokenASymbol)
    (hupper : ∀ s, toUppercase (toUppercase s) = toUppercase s)
    {page : List EventPageRow} {symbol : String}
    (hasked : toUppercase symbol ∈
      collectEventTokenSymbols toUppercase page) :
    eventTokens answer toUppercase page (toUppercase symbol) =
      tokensFromRows toUppercase
        (db.tokens.filter fun row => row.symbol == some (toUppercase symbol))
        (toUppercase symbol) := by
  have hperm : ((answer.rows (collectEventTokenSymbols toUppercase page)).filter
      fun row => row.symbol.map toUppercase ==
        some (toUppercase symbol)).Perm
      (db.tokens.filter fun row =>
        row.symbol == some (toUppercase symbol)) := by
    rw [← filter_found hupper hasked]
    exact (answer.perm _).filter _
  -- All rows with the symbol are one row, so the order says nothing.
  have hsame : ∀ a b, a ∈ db.tokens.filter
      (fun row => row.symbol == some (toUppercase symbol)) →
      b ∈ db.tokens.filter
        (fun row => row.symbol == some (toUppercase symbol)) → a = b := by
    intro a b ha hb
    rw [List.mem_filter, beq_iff_eq] at ha hb
    exact hone a ha.1 b hb.1 _ ha.2 hb.2
  have hpairwise : ∀ rows : List EventTokenRow,
      rows.Pairwise fun _ _ => True :=
    fun _ => List.pairwise_of_forall fun _ _ => trivial
  have heq := List.Perm.eq_of_pairwise
    (fun a b ha hb _ _ => hsame a b (hperm.mem_iff.mp ha) hb)
    (hpairwise _) (hpairwise _) hperm
  rw [eventTokens, tokensFromRows_filter, heq]

/-- The token event of a payload is the one it had before. -/
theorem rehydrated_object {payload : Option Json} {chainName : String}
    {address : Option String} {object : Json.Fields}
    (h : rehydrateEventPayload payload chainName address =
      some (.obj object)) :
    ∃ fields, payload = some (.obj fields) ∧
      object.lookup "token_event" = fields.lookup "token_event" := by
  obtain ⟨json, rfl, hjson⟩ := Option.map_eq_some_iff.mp h
  cases json with
  | obj fields =>
      refine ⟨fields, rfl, ?_⟩
      cases address with
      | none =>
          cases hjson
          rw [Json.lookup_setField, if_neg (by decide)]
      | some address =>
          cases hjson
          rw [Json.lookup_setField, if_neg (by decide), Json.lookup_setField,
            if_neg (by decide)]
  | _ => cases hjson

/-- An event is shown alike on every page that has it. -/
theorem tokenEventOf_eq (hone : db.OneTokenASymbol)
    (hupper : ∀ s, toUppercase (toUppercase s) = toUppercase s)
    {page page' : List EventPageRow} {row : EventPageRow}
    (hrow : row ∈ page) (hrow' : row ∈ page') :
    tokenEventOf toUppercase (eventTokens answer toUppercase page) row =
      tokenEventOf toUppercase (eventTokens answer' toUppercase page') row := by
  unfold tokenEventOf
  split
  · next object hobject =>
      obtain ⟨payload, hpayload, hlookup⟩ := rehydrated_object hobject
      rw [hlookup]
      cases hvalue : payload.lookup "token_event" with
      | none => rfl
      | some value =>
          rw [Option.map_some, Option.map_some]
          congr 1
          cases hsymbol : eventSymbol (objectFields value)
            row.contractSymbol with
          | none => simp only [enrichTokenEvent, hsymbol]
          | some symbol =>
              have hasked := asked_of_tokenEvent toUppercase
                hrow hpayload hvalue hsymbol
              have hasked' := asked_of_tokenEvent toUppercase
                hrow' hpayload hvalue hsymbol
              simp only [enrichTokenEvent, hsymbol,
                eventTokens_eq hone hupper hasked,
                eventTokens_eq hone hupper hasked']
  · rfl

/-! ## Events -/

theorem transactionId_select (withEventData : Bool) (event : CarriedEvent) :
    (event.select withEventData).transactionId = event.transactionId := by
  rw [CarriedEvent.select]
  split <;> rfl

/-- The events of one transaction, on a page and alone. -/
theorem group_events (hok : db.Ok) {ids : List Int} {id : Int} (hid : id ∈ ids)
    (withEventData : Bool) :
    group CarriedEvent.transactionId
        (listEventsByTransactionIds db ids withEventData) id =
      listEventsByTransactionIds db [id] withEventData := by
  rw [listEventsByTransactionIds, listEventsByTransactionIds, group,
    List.filter_map]
  congr 1
  have hkey : ((fun event : CarriedEvent => event.transactionId == id) ∘
      CarriedEvent.select withEventData) =
        fun event => event.transactionId == id := by
    funext event
    rw [Function.comp_apply, transactionId_select]
  rw [hkey]
  exact group_mergeSort_filter hok.eventPlaces hid

/-- The tokens that the events of the transactions are shown with. -/
def tokensOfEvents (answer : TokensAnswer db) (toUppercase : String → String)
    (ids : List Int) (withEventData : Bool) : TokenMap :=
  eventTokens answer toUppercase
    ((listEventsByTransactionIds db ids withEventData).map CarriedEvent.row)

/-- The events that a transaction takes out of the map. -/
theorem loadEvents_apply (hok : db.Ok) {ids : List Int} {id : Int}
    (hid : id ∈ ids) (withEventData : Bool) :
    loadEventsByTransactionIds answer toUppercase ids withEventData id =
      (listEventsByTransactionIds db [id] withEventData).map
        (eventFromRow toUppercase
          (tokensOfEvents answer toUppercase ids withEventData)
          withEventData) := by
  have hne : ¬ids.isEmpty = true := by
    rw [List.isEmpty_iff]
    exact List.ne_nil_of_mem hid
  rw [loadEventsByTransactionIds, if_neg hne, foldl_pushGroup,
    List.nil_append, List.zip_map', group, List.filter_map, List.map_map,
    ← group_events hok hid]
  rfl

/-- A transaction has the same events on a page as alone, but for the tokens. -/
theorem loadEvents_withoutToken (answer answer' : TokensAnswer db)
    (toUppercase : String → String) (hok : db.Ok) {ids ids' : List Int}
    {id : Int} (hid : id ∈ ids) (hid' : id ∈ ids') (withEventData : Bool) :
    (loadEventsByTransactionIds answer toUppercase ids withEventData id).map
        EventResponse.withoutToken =
      (loadEventsByTransactionIds answer' toUppercase ids' withEventData
        id).map EventResponse.withoutToken := by
  rw [loadEvents_apply hok hid, loadEvents_apply hok hid', List.map_map,
    List.map_map]
  rfl

/-- And the same tokens, where a symbol names one. -/
theorem loadEvents_eq (answer answer' : TokensAnswer db) (hok : db.Ok)
    (hone : db.OneTokenASymbol)
    (hupper : ∀ s, toUppercase (toUppercase s) = toUppercase s)
    {ids ids' : List Int} {id : Int} (hid : id ∈ ids) (hid' : id ∈ ids')
    (withEventData : Bool) :
    loadEventsByTransactionIds answer toUppercase ids withEventData id =
      loadEventsByTransactionIds answer' toUppercase ids' withEventData
        id := by
  have hmem : ∀ {ids : List Int}, id ∈ ids →
      ∀ event ∈ listEventsByTransactionIds db [id] withEventData,
        event.row ∈ (listEventsByTransactionIds db ids withEventData).map
          CarriedEvent.row := by
    intro ids hid event hevent
    rw [← group_events hok hid] at hevent
    exact List.mem_map_of_mem (List.mem_of_mem_filter hevent)
  rw [loadEvents_apply hok hid, loadEvents_apply hok hid']
  refine List.map_congr_left fun event hevent => ?_
  rw [eventFromRow, eventFromRow, tokensOfEvents, tokensOfEvents,
    tokenEventOf_eq hone hupper (hmem hid event hevent)
      (hmem hid' event hevent)]

/-- A transaction as a page with the events of these transactions shows it. -/
def withEventsOf (answer : TokensAnswer db) (toUppercase : String → String)
    (ids : List Int) (withEventData : Bool) (response : TransactionResponse) :
    TransactionResponse :=
  { response with
    events := some (loadEventsByTransactionIds answer toUppercase ids
      withEventData response.transaction.id) }

theorem attach_eq_map {transactions : List TransactionResponse}
    (hnodup : (transactions.map fun response =>
      response.transaction.id).Nodup) (withEventData : Bool) :
    attachEventsToTransactions answer toUppercase transactions withEventData =
      transactions.map (withEventsOf answer toUppercase
        (transactions.map fun response => response.transaction.id)
        withEventData) := by
  rw [attachEventsToTransactions]
  simp only
  rw [takeGroups_eq_map hnodup, List.map_map]
  have hzip := @List.zip_map' _ _ _ id (loadEventsByTransactionIds answer
    toUppercase (transactions.map fun response => response.transaction.id)
    withEventData ∘ fun response => response.transaction.id) transactions
  rw [List.map_id] at hzip
  rw [hzip, List.map_map]
  rfl

/-! ## Blocks -/

/-- The transactions of one block, on a page and alone. -/
theorem group_transactions (hok : db.Ok) {blockIds : List Int} {blockId : Int}
    (hid : blockId ∈ blockIds) :
    group CarriedTransaction.blockId (listTransactionsByBlockIds db blockIds)
        blockId = listTransactionsByBlockIds db [blockId] := by
  have hplaces : (db.transactions.map CarriedTransaction.place).Nodup := by
    refine List.Nodup.of_map (fun place => (ofLex (ofLex place).2).2) ?_
    rw [List.map_map]
    exact hok.transactionIds
  exact group_mergeSort_filter hplaces hid

/-- The ids of the transactions of a page. -/
def pageIds (db : CarriedDb) (blockIds : List Int) : List Int :=
  (listTransactionsByBlockIds db blockIds).map CarriedTransaction.id

/-- A transaction of a block on the page is one of the page. -/
theorem mem_pageIds (hok : db.Ok) {blockIds : List Int} {blockId : Int}
    (hid : blockId ∈ blockIds) {tx : CarriedTransaction}
    (htx : tx ∈ listTransactionsByBlockIds db [blockId]) :
    tx.id ∈ pageIds db blockIds := by
  rw [← group_transactions hok hid] at htx
  exact List.mem_map_of_mem (List.mem_of_mem_filter htx)

/-- A transaction as a page with or without events shows it. -/
def shownTransaction (answer : TokensAnswer db)
    (toUppercase : String → String) (blockIds : List Int)
    (withEvents withEventData : Bool) (tx : CarriedTransaction) :
    TransactionResponse :=
  if withEvents then withEventsOf answer toUppercase (pageIds db blockIds)
    withEventData { transaction := tx }
  else { transaction := tx }

theorem loadTransactions_apply (hok : db.Ok) {blockIds : List Int}
    {blockId : Int} (hid : blockId ∈ blockIds)
    (withEvents withEventData : Bool) :
    loadTransactionsByBlockIds answer toUppercase blockIds withEvents
        withEventData blockId =
      (listTransactionsByBlockIds db [blockId]).map
        (shownTransaction answer toUppercase blockIds withEvents
          withEventData) := by
  have hne : ¬blockIds.isEmpty = true := by
    rw [List.isEmpty_iff]
    exact List.ne_nil_of_mem hid
  have hids : ((listTransactionsByBlockIds db blockIds).map
      fun tx => ({ transaction := tx } : TransactionResponse)).map
        (fun response => response.transaction.id) = pageIds db blockIds := by
    rw [List.map_map]
    rfl
  have hnodup : (pageIds db blockIds).Nodup := by
    refine (((List.mergeSort_perm _ _).map _).nodup_iff).mpr ?_
    exact hok.transactionIds.sublist (List.filter_sublist.map _)
  have hshown : (if withEvents then attachEventsToTransactions answer
      toUppercase ((listTransactionsByBlockIds db blockIds).map
        fun tx => ({ transaction := tx } : TransactionResponse)) withEventData
      else (listTransactionsByBlockIds db blockIds).map
        fun tx => ({ transaction := tx } : TransactionResponse)) =
      (listTransactionsByBlockIds db blockIds).map
        (shownTransaction answer toUppercase blockIds withEvents
          withEventData) := by
    cases withEvents with
    | true =>
        rw [← hids] at hnodup
        rw [if_pos rfl, attach_eq_map hnodup, hids, List.map_map]
        rfl
    | false => rfl
  rw [loadTransactionsByBlockIds, if_neg hne]
  have hzip := @List.zip_map' _ _ _ id
    (shownTransaction answer toUppercase blockIds withEvents withEventData)
    (listTransactionsByBlockIds db blockIds)
  rw [List.map_id] at hzip
  rw [hshown, foldl_pushGroup, List.nil_append, hzip, group, List.filter_map,
    List.map_map, ← group_transactions hok hid]
  rfl

/-- The transactions of a page block by block. -/
theorem transactionsOfBlocks_eq (hok : db.Ok) {blockIds : List Int}
    (hnodup : blockIds.Nodup) (withEvents withEventData : Bool) :
    transactionsOfBlocks answer toUppercase blockIds withEvents withEventData =
      blockIds.map fun blockId =>
        (listTransactionsByBlockIds db [blockId]).map
          (shownTransaction answer toUppercase blockIds withEvents
            withEventData) := by
  rw [transactionsOfBlocks, takeGroups_eq_map hnodup]
  exact List.map_congr_left fun blockId hid =>
    loadTransactions_apply hok hid withEvents withEventData

/-- A transaction is shown on a page as alone, but for the tokens. -/
theorem shown_withoutTokens (hok : db.Ok) {blockIds : List Int} {blockId : Int}
    (hid : blockId ∈ blockIds) {tx : CarriedTransaction}
    (htx : tx ∈ listTransactionsByBlockIds db [blockId])
    (withEvents withEventData : Bool) :
    (shownTransaction answer toUppercase blockIds withEvents
        withEventData tx).withoutTokens =
      (shownTransaction answer' toUppercase [blockId] withEvents
        withEventData tx).withoutTokens := by
  cases withEvents with
  | false => rfl
  | true =>
      have hevents := loadEvents_withoutToken answer answer' toUppercase hok
        (mem_pageIds hok hid htx)
        (mem_pageIds hok (List.mem_singleton_self blockId) htx) withEventData
      exact congrArg (fun events => TransactionResponse.mk tx (some events))
        hevents

/-- And with the same tokens, where a symbol names one. -/
theorem shown_eq (hok : db.Ok) (hone : db.OneTokenASymbol)
    (hupper : ∀ s, toUppercase (toUppercase s) = toUppercase s)
    {blockIds : List Int} {blockId : Int} (hid : blockId ∈ blockIds)
    {tx : CarriedTransaction}
    (htx : tx ∈ listTransactionsByBlockIds db [blockId])
    (withEvents withEventData : Bool) :
    shownTransaction answer toUppercase blockIds withEvents withEventData tx =
      shownTransaction answer' toUppercase [blockId] withEvents
        withEventData tx := by
  cases withEvents with
  | false => rfl
  | true =>
      have hevents := loadEvents_eq answer answer' hok hone hupper
        (mem_pageIds hok hid htx)
        (mem_pageIds hok (List.mem_singleton_self blockId) htx) withEventData
      exact congrArg (fun events => TransactionResponse.mk tx (some events))
        hevents

/-- On a page each of different blocks carries the transactions and events that
it carries alone, whatever order the tokens come in for the page and for each
block; and if a symbol names one token, the same token events too. -/
theorem blocks_carry_what_they_carry_alone (hok : db.Ok)
    (hupper : ∀ s, toUppercase (toUppercase s) = toUppercase s)
    {blockIds : List Int} (hnodup : blockIds.Nodup)
    (withEvents withEventData : Bool) (answer : TokensAnswer db)
    (alone : Int → TokensAnswer db) :
    (transactionsOfBlocks answer toUppercase blockIds withEvents
        withEventData).map (List.map TransactionResponse.withoutTokens) =
      (blockIds.flatMap fun blockId => transactionsOfBlocks (alone blockId)
        toUppercase [blockId] withEvents withEventData).map
          (List.map TransactionResponse.withoutTokens) ∧
    (db.OneTokenASymbol →
      transactionsOfBlocks answer toUppercase blockIds withEvents
          withEventData =
        blockIds.flatMap fun blockId => transactionsOfBlocks (alone blockId)
          toUppercase [blockId] withEvents withEventData) := by
  have halone : (blockIds.flatMap fun blockId =>
      transactionsOfBlocks (alone blockId) toUppercase [blockId] withEvents
        withEventData) = blockIds.map fun blockId =>
      (listTransactionsByBlockIds db [blockId]).map
        (shownTransaction (alone blockId) toUppercase [blockId] withEvents
          withEventData) := by
    rw [List.map_eq_flatMap]
    exact List.flatMap_congr fun blockId _ =>
      transactionsOfBlocks_eq hok (List.nodup_singleton blockId) withEvents
        withEventData
  rw [halone, transactionsOfBlocks_eq hok hnodup]
  refine ⟨?_, fun hone => ?_⟩
  · rw [List.map_map, List.map_map]
    refine List.map_congr_left fun blockId hid => ?_
    rw [Function.comp_apply, Function.comp_apply, List.map_map, List.map_map]
    exact List.map_congr_left fun tx htx =>
      shown_withoutTokens hok hid htx withEvents withEventData
  · refine List.map_congr_left fun blockId hid => ?_
    exact List.map_congr_left fun tx htx =>
      shown_eq hok hone hupper hid htx withEvents withEventData

end

/-- Two blocks with a transfer each, of different tokens. -/
def carriedTransfers : CarriedDb where
  transactions := [⟨1, 10, 5, 0, "A1"⟩, ⟨2, 11, 6, 0, "B2"⟩]
  events := [⟨7, 1, 0, "TokenSend", sentEvent "SOUL" "150000000"⟩,
    ⟨8, 2, 0, "TokenSend", sentEvent "KCAL" "25"⟩]
  tokens := [plainToken 1 "SOUL" 8, plainToken 1 "KCAL" 10]

theorem carriedTransfers_ok : carriedTransfers.Ok where
  transactionIds := by decide
  eventPlaces := by decide

/-- The tokens as they are stored. -/
def tokensInOrder (db : CarriedDb) : TokensAnswer db where
  rows := listEventTokensBySymbols db.tokens
  perm _ := List.Perm.refl _

/-- The tokens from the last one on. -/
def tokensReversed (db : CarriedDb) : TokensAnswer db where
  rows symbols := (listEventTokensBySymbols db.tokens symbols).reverse
  perm _ := List.reverse_perm _

theorem carriedTransfers_oneTokenASymbol :
    carriedTransfers.OneTokenASymbol := by
  intro a ha b hb symbol hasymbol hbsymbol
  have hall : ∀ a ∈ carriedTransfers.tokens, ∀ b ∈ carriedTransfers.tokens,
      a.symbol = b.symbol → a = b := by decide
  exact hall a ha b hb (hasymbol.trans hbsymbol.symm)

theorem asciiUppercase_asciiUppercase (s : String) :
    asciiUppercase (asciiUppercase s) = asciiUppercase s := by
  rw [asciiUppercase, asciiUppercase, String.toList_ofList, List.map_map]
  congr 2
  funext c
  exact c.toUpper_toUpper_eq_toUpper

theorem blocks_carry_what_they_carry_alone_two :
    (transactionsOfBlocks (tokensInOrder carriedTransfers) asciiUppercase
        [11, 10] true true).map (List.map TransactionResponse.withoutTokens) =
      ([11, 10].flatMap fun blockId => transactionsOfBlocks
        (tokensReversed carriedTransfers) asciiUppercase [blockId] true
          true).map (List.map TransactionResponse.withoutTokens) ∧
    transactionsOfBlocks (tokensInOrder carriedTransfers) asciiUppercase
        [11, 10] true true =
      [11, 10].flatMap fun blockId => transactionsOfBlocks
        (tokensReversed carriedTransfers) asciiUppercase [blockId] true
          true := by
  have h := blocks_carry_what_they_carry_alone carriedTransfers_ok
    asciiUppercase_asciiUppercase (by decide : [(11 : Int), 10].Nodup) true
    true (tokensInOrder carriedTransfers)
    fun _ => tokensReversed carriedTransfers
  exact ⟨h.1, h.2 carriedTransfers_oneTokenASymbol⟩

end Explorer.Ref
