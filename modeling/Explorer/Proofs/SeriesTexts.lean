import Explorer.Lib.Offers
import Explorer.Proofs.NftQueue

/-!
# What a series is called

The answers for series own the name, the description and the image of a series;
the answers for its NFTs only lend theirs, one NFT for each series and call, to
a text that is blank or a generated name. So over any run of both calls each of
the three texts is what the last series answer said, and where that says
nothing that may stay, the first good text of an NFT since.
-/

namespace Explorer.Ref

open Explorer.Lib

/-! ## Calls -/

/-- A call that writes answers, at a time and with the choices of the server. -/
inductive HydrationCall where
  | nfts (picks : HydrationPicks) (now : Int)
      (answers : List NftRpcMetadataUpsert)
  | series (picks : HydrationPicks) (now : Int)
      (answers : List SeriesRpcMetadataUpsert)

/-- The tables after a call. -/
def HydrationDb.after (sql : HydrationSql) (db : HydrationDb) :
    HydrationCall → HydrationDb
  | .nfts picks now answers => (applyNftRpcMetadata sql db picks now answers).2
  | .series picks now answers =>
      (applySeriesRpcMetadata sql db picks now answers).2

/-- The tables after calls in this order. -/
def HydrationDb.run (sql : HydrationSql) (db : HydrationDb)
    (calls : List HydrationCall) : HydrationDb :=
  calls.foldl (HydrationDb.after sql) db

/-! ## The texts of a series -/

inductive SeriesText where
  | name
  | description
  | image

def SeriesText.get : SeriesText → HydratedSeries → Option String
  | .name, row => row.name
  | .description, row => row.description
  | .image, row => row.image

def SeriesText.ofNft : SeriesText → NftRpcMetadataUpsert → Option String
  | .name, answer => nullIfEmpty answer.name
  | .description, answer => nullIfEmpty answer.description
  | .image, answer => nullIfEmpty answer.image

def SeriesText.ofSeries : SeriesText → SeriesRpcMetadataUpsert → Option String
  | .name, answer => nullIfEmpty answer.name
  | .description, answer => nullIfEmpty answer.description
  | .image, answer => nullIfEmpty answer.image

/-- The text stays when an NFT offers one. -/
def SeriesText.settled : SeriesText → Option String → Bool
  | .name, text => !isReplaceableName text
  | .description, text => !isBlankText text
  | .image, text => !isBlankText text

section

variable {sql : HydrationSql} {db : HydrationDb}

/-- The answer that presents a series in a call for NFTs. -/
def HydrationDb.presenting (sql : HydrationSql) (db : HydrationDb)
    (answers : List NftRpcMetadataUpsert) (key : SeriesRef) :
    Option NftRpcMetadataUpsert :=
  ((presentingTargets (db.nftTargets sql answers)).find? fun value =>
    value.1 == key).map fun value => value.2.answer

/-- What a call writes to a text of a series. -/
def HydrationDb.writes (sql : HydrationSql) (db : HydrationDb)
    (row : HydratedSeries) (text : SeriesText) :
    HydrationCall → List (Write String)
  | .nfts _ _ answers =>
      (((db.presenting sql answers row.key).bind text.ofNft).map
        Write.offer).toList
  | .series picks _ answers =>
      (((db.seriesAnswer sql picks answers row).bind text.ofSeries).map
        Write.own).toList

/-! ### One call -/

/-- Taking an offer, where the text may be replaced. -/
theorem offer_text {settled : Option String → Bool} {replaceable : Bool}
    {stored : Option String} (h : settled stored = !replaceable)
    (offered : Option String) :
    (if (offered.isSome && replaceable) = true then offered else stored) =
      ((offered.map Write.offer).toList).foldl (Write.apply settled)
        stored := by
  cases offered with
  | none => rfl
  | some text =>
      show _ = if settled stored = true then stored else some text
      rw [h]
      cases replaceable <;> rfl

theorem present_text (now : Int) (answer : NftRpcMetadataUpsert)
    (row : HydratedSeries) (text : SeriesText) :
    text.get (row.present now answer) =
      (((text.ofNft answer).map Write.offer).toList).foldl
        (Write.apply text.settled) (text.get row) := by
  cases text with
  | name => exact offer_text rfl (nullIfEmpty answer.name)
  | description => exact offer_text rfl (nullIfEmpty answer.description)
  | image => exact offer_text rfl (nullIfEmpty answer.image)

/-- What the owner says, where it says something. -/
theorem own_text (settled : Option String → Bool)
    (said stored : Option String) :
    said.or stored = ((said.map Write.own).toList).foldl
      (Write.apply settled) stored := by
  cases said <;> rfl

theorem hydrate_text (now : Int) (answer : SeriesRpcMetadataUpsert)
    (row : HydratedSeries) (text : SeriesText) :
    text.get (row.hydrate now answer) =
      (((text.ofSeries answer).map Write.own).toList).foldl
        (Write.apply text.settled) (text.get row) := by
  cases text with
  | name => exact own_text _ (nullIfEmpty answer.name) row.name
  | description =>
      exact own_text _ (nullIfEmpty answer.description) row.description
  | image => exact own_text _ (nullIfEmpty answer.image) row.image

/-- The values of one call have different keys. -/
theorem firstsFrom_keys {α κ : Type*} [DecidableEq κ] (key : α → κ)
    (seen : List κ) (l : List α) :
    ((firstsFrom (fun _ => true) key seen l).map key).Nodup ∧
      ∀ k ∈ seen, k ∉ (firstsFrom (fun _ => true) key seen l).map key := by
  induction l generalizing seen with
  | nil => exact ⟨List.nodup_nil, fun _ _ => List.not_mem_nil⟩
  | cons a l ih =>
      rw [firstsFrom_cons, if_neg (by decide)]
      split
      · exact ih seen
      · next hnew =>
          obtain ⟨hnodup, hseen⟩ := ih (key a :: seen)
          rw [List.map_cons]
          refine ⟨List.nodup_cons.mpr ⟨hseen _ List.mem_cons_self, hnodup⟩,
            fun k hk hmem => ?_⟩
          rcases List.mem_cons.mp hmem with heq | hmem
          · exact hnew (heq ▸ hk)
          · exact hseen k (List.mem_cons_of_mem _ hk) hmem

/-- The row that the values of a call leave. -/
def presentedRow (now : Int) (values : List (SeriesRef × NftTarget))
    (row : HydratedSeries) : HydratedSeries :=
  ((values.find? fun value => value.1 == row.key).map fun value =>
    row.present now value.2.answer).getD row

theorem foldl_presentSeries (now : Int)
    {values : List (SeriesRef × NftTarget)}
    (hnodup : (values.map Prod.fst).Nodup) (series : List HydratedSeries) :
    ∃ new, values.foldl (presentSeries now) series =
      series.map (presentedRow now values) ++ new := by
  induction values generalizing series with
  | nil =>
      refine ⟨[], ?_⟩
      rw [List.append_nil]
      exact (List.map_id series).symm
  | cons value values ih =>
      obtain ⟨hvalue, hnodup⟩ := List.nodup_cons.mp hnodup
      have hrest : values.find? (fun v => v.1 == value.1) = none := by
        refine List.find?_eq_none.mpr fun v hv heq => hvalue ?_
        rw [← beq_iff_eq.mp heq]
        exact List.mem_map_of_mem hv
      have hrow : ∀ row : HydratedSeries,
          presentedRow now values (if row.key == value.1 then
            row.present now value.2.answer else row) =
              presentedRow now (value :: values) row := by
        intro row
        cases heq : row.key == value.1 with
        | true =>
            have hkey : row.key = value.1 := beq_iff_eq.mp heq
            have hsame : (value.1 == row.key) = true :=
              beq_iff_eq.mpr hkey.symm
            rw [if_pos rfl, presentedRow, presentedRow, List.find?_cons, hsame]
            show ((values.find? fun v => v.1 == row.key).map _).getD _ = _
            rw [hkey, hrest]
            rfl
        | false =>
            have hother : (value.1 == row.key) = false :=
              beq_eq_false_iff_ne.mpr fun h =>
                beq_eq_false_iff_ne.mp heq h.symm
            rw [if_neg Bool.false_ne_true, presentedRow, presentedRow,
              List.find?_cons, hother]
      rw [List.foldl_cons, presentSeries]
      split
      · obtain ⟨new, hnew⟩ := ih hnodup (series.map fun row =>
          if row.key == value.1 then row.present now value.2.answer else row)
        refine ⟨new, ?_⟩
        rw [hnew, List.map_map]
        congr 1
        exact List.map_congr_left fun row _ => hrow row
      · next habsent =>
          obtain ⟨new, hnew⟩ := ih hnodup (series ++ [_])
          have hrows : series.map (presentedRow now values) =
              series.map (presentedRow now (value :: values)) := by
            refine List.map_congr_left fun row hmem => ?_
            rw [← hrow row, if_neg]
            exact fun h => habsent (List.any_eq_true.mpr ⟨row, hmem, h⟩)
          rw [hnew, List.map_append, List.append_assoc, hrows]
          exact ⟨_, rfl⟩

/-- What a call leaves: the rows of the series in their places, each text
written as the call says, and new rows behind them. -/
theorem after_series (sql : HydrationSql) (db : HydrationDb)
    (call : HydrationCall) :
    ∃ (f : HydratedSeries → HydratedSeries) (new : List HydratedSeries),
      (db.after sql call).series = db.series.map f ++ new ∧
      ∀ row, (f row).key = row.key ∧ ∀ text : SeriesText,
        text.get (f row) = (db.writes sql row text call).foldl
          (Write.apply text.settled) (text.get row) := by
  cases call with
  | nfts picks now answers =>
      obtain ⟨new, hnew⟩ := foldl_presentSeries now
        (firstsFrom_keys Prod.fst [] _).1 db.series
      refine ⟨_, new, hnew, fun row => ?_⟩
      simp only [presentedRow, HydrationDb.writes, HydrationDb.presenting,
        presentingTargets]
      cases List.find? (fun value : SeriesRef × NftTarget =>
          value.1 == row.key) _ with
      | none => exact ⟨rfl, fun _ => rfl⟩
      | some value =>
          exact ⟨rfl, fun text => present_text now value.2.answer row text⟩
  | series picks now answers =>
      refine ⟨_, [], (List.append_nil _).symm, fun row => ?_⟩
      simp only [HydrationDb.writes]
      cases db.seriesAnswer sql picks answers row with
      | none => exact ⟨rfl, fun _ => rfl⟩
      | some answer => exact ⟨rfl, fun text => hydrate_text now answer row text⟩

/-! ### Calls one after the other -/

/-- What the answers are joined with is the same. -/
structure HydrationDb.SameKeys (db after : HydrationDb) : Prop where
  contracts : after.contracts = db.contracts
  nfts : ∃ f : HydratedNft → HydratedNft, after.nfts = db.nfts.map f ∧
    ∀ nft, (f nft).id = nft.id ∧ (f nft).contractId = nft.contractId ∧
      (f nft).tokenId = nft.tokenId

theorem after_sameKeys (sql : HydrationSql) (db : HydrationDb)
    (call : HydrationCall) : db.SameKeys (db.after sql call) := by
  cases call with
  | nfts picks now answers =>
      refine ⟨rfl, _, rfl, fun nft => ?_⟩
      cases picks.targetOf (db.nftTargets sql answers) nft with
      | none => exact ⟨rfl, rfl, rfl⟩
      | some t => exact ⟨rfl, rfl, rfl⟩
  | series picks now answers =>
      exact ⟨rfl, id, (List.map_id _).symm, fun _ => ⟨rfl, rfl, rfl⟩⟩

theorem nftTargets_congr {after : HydrationDb} (hsame : db.SameKeys after)
    (answers : List NftRpcMetadataUpsert) :
    after.nftTargets sql answers = db.nftTargets sql answers := by
  obtain ⟨f, hnfts, hf⟩ := hsame.nfts
  rw [HydrationDb.nftTargets, HydrationDb.nftTargets, hsame.contracts, hnfts]
  refine List.flatMap_congr fun answer _ => List.flatMap_congr fun contract _ =>
    ?_
  rw [List.filter_map, List.map_map]
  have hfilter : ((fun nft : HydratedNft => nft.contractId == contract.id &&
      nft.tokenId == some answer.tokenId) ∘ f) =
        fun nft => nft.contractId == contract.id &&
          nft.tokenId == some answer.tokenId := by
    funext nft
    rw [Function.comp_apply, (hf nft).2.1, (hf nft).2.2]
  rw [hfilter]
  refine List.map_congr_left fun nft _ => ?_
  rw [Function.comp_apply, (hf nft).1]

theorem writes_congr {after : HydrationDb} (hsame : db.SameKeys after)
    {row row' : HydratedSeries} (hkey : row'.key = row.key)
    (text : SeriesText) (call : HydrationCall) :
    after.writes sql row' text call = db.writes sql row text call := by
  cases call with
  | nfts picks now answers =>
      simp only [HydrationDb.writes, HydrationDb.presenting,
        nftTargets_congr hsame, hkey]
  | series picks now answers =>
      simp only [HydrationDb.writes, HydrationDb.seriesAnswer,
        HydrationDb.seriesAnswers, hsame.contracts, hkey]

theorem run_series (sql : HydrationSql) (db : HydrationDb)
    (calls : List HydrationCall) :
    ∃ (f : HydratedSeries → HydratedSeries) (new : List HydratedSeries),
      (db.run sql calls).series = db.series.map f ++ new ∧
      ∀ row, (f row).key = row.key ∧ ∀ text : SeriesText,
        text.get (f row) = (calls.flatMap (db.writes sql row text)).foldl
          (Write.apply text.settled) (text.get row) := by
  induction calls generalizing db with
  | nil =>
      refine ⟨id, [], ?_, fun _ => ⟨rfl, fun _ => rfl⟩⟩
      rw [List.map_id, List.append_nil]
      rfl
  | cons call calls ih =>
      obtain ⟨f, new, hseries, hf⟩ := after_series sql db call
      obtain ⟨g, new', hseries', hg⟩ := ih (db.after sql call)
      refine ⟨g ∘ f, new.map g ++ new', ?_, fun row => ⟨?_, fun text => ?_⟩⟩
      · rw [← List.append_assoc, ← List.map_map, ← List.map_append, ← hseries]
        exact hseries'
      · exact (hg (f row)).1.trans (hf row).1
      · have hwrites : ∀ call', (db.after sql call).writes sql (f row) text
            call' = db.writes sql row text call' :=
          writes_congr (after_sameKeys sql db call) (hf row).1 text
        rw [List.flatMap_cons, List.foldl_append, ← (hf row).2 text,
          Function.comp_apply, (hg (f row)).2 text]
        rw [List.flatMap_congr fun call' _ => hwrites call']

/-- Over any run, each text of a series is what the last series answer said or
else what was stored, and if that may be replaced, the first good text that an
NFT offered since. -/
theorem series_texts_after_runs (sql : HydrationSql) (db : HydrationDb)
    (calls : List HydrationCall) :
    ∃ (f : HydratedSeries → HydratedSeries) (new : List HydratedSeries),
      (db.run sql calls).series = db.series.map f ++ new ∧
      ∀ row, (f row).key = row.key ∧ ∀ text : SeriesText,
        let writes := calls.flatMap (db.writes sql row text)
        text.get (f row) = firstSettled text.settled
          (lastOwn (text.get row) writes) (offersSince writes) := by
  obtain ⟨f, new, hseries, hf⟩ := run_series sql db calls
  refine ⟨f, new, hseries, fun row => ⟨(hf row).1, fun text => ?_⟩⟩
  rw [(hf row).2 text]
  exact foldl_apply_eq_firstSettled _ _

end

end Explorer.Ref
