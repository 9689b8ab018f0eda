import Explorer.Proofs.DimensionCalls
import Explorer.Proofs.LegacyAgree
import Explorer.Ref.LegacyTool

/-!
# The one-shot decode converges

A run takes the raw rows in the order of their ids, and what a row decodes to
depends on the row alone. So wherever runs stop, the tables stand at two
points of one fixed list: the rows up to the first point are converted, and
the dimension rows up to the second, which is never behind the first, are
there. A later run passes again over calls already made, and those change
nothing. `Progress` states this; a batch moves the points forward, and a run
that returns has moved the first one to the end.
-/

namespace Explorer.Ref

open Explorer.Lib

/-! ## One row -/

variable {sdk : LegacySdk}

/-- What the calls of a run may change. -/
structure RunMoves (run run' : LegacyRun) : Prop where
  ok : TxOk ∅ run'.tx
  events : run'.events = run.events
  converted : run'.converted = run.converted
  calls : run.calls = none → run'.calls = none
  names : ∀ x ∈ run.tx.view.names, x ∈ run'.tx.view.names

theorem RunMoves.refl {run : LegacyRun} (h : TxOk ∅ run.tx) :
    RunMoves run run :=
  ⟨h, rfl, rfl, id, fun _ hx => hx⟩

theorem RunMoves.trans {run run' run'' : LegacyRun} (h : RunMoves run run')
    (h' : RunMoves run' run'') : RunMoves run run'' where
  ok := h'.ok
  events := h'.events.trans h.events
  converted := h'.converted.trans h.converted
  calls := fun hcalls => h'.calls (h.calls hcalls)
  names := fun x hx => h'.names x (h.names x hx)

theorem RunMoves.spend {run run' : LegacyRun} (h : TxOk ∅ run.tx)
    (hspend : run.spend = some run') :
    RunMoves run run' ∧ run'.tx = run.tx := by
  unfold LegacyRun.spend at hspend
  split at hspend
  · cases hspend
    exact ⟨.refl h, rfl⟩
  · cases hspend
  · next hcalls =>
      cases hspend
      refine ⟨⟨h, rfl, rfl, ?_, fun _ hx => hx⟩, rfl⟩
      intro hnone
      rw [hcalls] at hnone
      cases hnone

theorem LegacyRun.spend_eq_none {run : LegacyRun} (h : run.spend = none) :
    run.calls ≠ none := by
  intro hcalls
  rw [LegacyRun.spend, hcalls] at h
  cases h

/-- The contents of the dimensions on the connection. -/
def LegacyRun.contents (run : LegacyRun) : Contents Unit :=
  run.tx.view.contents

/-- The keys a call asks for. -/
def askedFor (call : Option DimensionCall) : List Key :=
  (call.map DimensionCall.key).toList

theorem resolve_spec {run : LegacyRun} (h : TxOk ∅ run.tx)
    {call : Option DimensionCall} (halone : call.all DimensionCall.alone) :
    (∃ run', run.resolve call = (none, run') ∧ RunMoves run run' ∧
      run'.contents = run.contents ∧ run.calls ≠ none) ∨
    ∃ id run', run.resolve call = (some id, run') ∧ RunMoves run run' ∧
      run'.contents = (askedFor call).foldl Contents.touch run.contents ∧
      RefKnown run'.tx.view (call.map DimensionCall.key) id := by
  cases call with
  | none => exact .inr ⟨none, run, rfl, .refl h, rfl, .none⟩
  | some call =>
      cases hspend : run.spend with
      | none =>
          refine .inl ⟨run, ?_, .refl h, rfl,
            LegacyRun.spend_eq_none hspend⟩
          rw [LegacyRun.resolve, hspend]
      | some run₁ =>
          obtain ⟨hmoves, htx⟩ := RunMoves.spend h hspend
          have hsim : Sim ∅ run₁.tx run₁.tx.plain := ⟨hmoves.ok, rfl⟩
          have hanswers := hsim.call call
          refine .inr ⟨some (run₁.tx.call call).1,
            { run₁ with tx := (run₁.tx.call call).2 }, ?_, ?_, ?_, ?_⟩
          · rw [LegacyRun.resolve, hspend]
          · refine hmoves.trans ⟨hanswers.sim.ok, rfl, rfl, id, ?_⟩
            exact run₁.tx.names_call halone
          · have hview := congrArg PlainTx.view hanswers.sim.plain
            rw [PlainTx.view_call halone] at hview
            rw [LegacyRun.contents, LegacyRun.contents, ← htx]
            exact hview
          · exact .some hanswers.knows.1

/-- The keys a row asks for. -/
def rowKeys {ρ : Type} (sdk : LegacySdk) (row : LegacyEvent ρ) : List Key :=
  match decodeRow sdk row with
  | .error _ => []
  | .ok (outcome, _) =>
      askedFor (contractCall row outcome) ++ askedFor (targetCall row outcome)

/-- The update is the one the row asks for. -/
structure UpdateOf (sdk : LegacySdk) (s : Store Unit) (row : LegacyEvent Nat)
    (u : LegacyDecodedRowUpdate) (outcome : LegacyRawDecodeOutcome) :
    Prop where
  decoded : decodeRow sdk row = .ok (outcome, u.tokenId)
  id : u.id = row.id
  payload : u.payloadJson =
    mergePayload row.payloadJson outcome.payloadAdditions
  contract : RefKnown s ((contractCall row outcome).map DimensionCall.key)
    u.contractId
  target : RefKnown s ((targetCall row outcome).map DimensionCall.key)
    u.targetAddressId

theorem UpdateOf.mono {s s' : Store Unit} {row : LegacyEvent Nat}
    {u : LegacyDecodedRowUpdate} {outcome : LegacyRawDecodeOutcome}
    (h : UpdateOf sdk s row u outcome)
    (hnames : ∀ x ∈ s.names, x ∈ s'.names) : UpdateOf sdk s' row u outcome :=
  ⟨h.decoded, h.id, h.payload, h.contract.mono hnames, h.target.mono hnames⟩

theorem contractCall_alone {ρ : Type} (row : LegacyEvent ρ)
    (outcome : LegacyRawDecodeOutcome) :
    (contractCall row outcome).all DimensionCall.alone = true := by
  unfold contractCall
  cases outcome.contractSymbol <;> exact rfl

theorem targetCall_alone {ρ : Type} (row : LegacyEvent ρ)
    (outcome : LegacyRawDecodeOutcome) :
    (targetCall row outcome).all DimensionCall.alone = true := by
  unfold targetCall
  cases outcome.targetAddress <;> exact rfl

/-- What a piece of a run does: it makes some first calls of those that `keys`
lists, and all of them when it comes to an answer `good` accepts. -/
structure Passes {α : Type} (run : LegacyRun) (keys : List Key)
    (good : Store Unit → α → Prop) (bad : Prop)
    (result : Except LegacyRawError α) (run' : LegacyRun) : Prop where
  moves : RunMoves run run'
  touched : ∃ made, made <+: keys ∧
    run'.contents = made.foldl Contents.touch run.contents ∧
    (result.toBool = true → made = keys)
  answer : ∀ a, result = .ok a → good run'.tx.view a
  stopped : ∀ e, result = .error e → run.calls = none → bad

theorem convertRow_spec {run : LegacyRun} (h : TxOk ∅ run.tx)
    (row : LegacyEvent Nat) :
    Passes run (rowKeys sdk row)
      (fun s u => ∃ outcome, UpdateOf sdk s row u outcome)
      (∃ e, decodeRow sdk row = .error e)
      (convertRow sdk run row).1 (convertRow sdk run row).2 := by
  cases hdecode : decodeRow sdk row with
  | error e =>
      have hkeys : rowKeys sdk row = [] := by rw [rowKeys, hdecode]
      have hrow : convertRow sdk run row = (.error e, run) := by
        rw [convertRow, hdecode]
      rw [hrow, hkeys]
      refine ⟨.refl h, ⟨[], List.prefix_rfl, rfl, fun _ => rfl⟩,
        ?_, fun _ _ _ => ⟨e, rfl⟩⟩
      intro a ha
      cases ha
  | ok pair =>
      obtain ⟨outcome, tokenId⟩ := pair
      have hkeys : rowKeys sdk row = askedFor (contractCall row outcome) ++
          askedFor (targetCall row outcome) := by rw [rowKeys, hdecode]
      rw [hkeys]
      rcases resolve_spec h (contractCall_alone row outcome) with
        ⟨run₁, hres₁, hmoves₁, hcontents₁, hcalls⟩ |
        ⟨contractId, run₁, hres₁, hmoves₁, hcontents₁, hknown₁⟩
      · have hrow : convertRow sdk run row = (.error .database, run₁) := by
          simp only [convertRow, hdecode, hres₁]
        rw [hrow]
        refine ⟨hmoves₁, ⟨[], List.nil_prefix, hcontents₁, ?_⟩, ?_, ?_⟩
        · intro hok
          cases hok
        · intro a ha
          cases ha
        · intro _ _ hnone
          exact absurd hnone hcalls
      · rcases resolve_spec hmoves₁.ok (targetCall_alone row outcome) with
          ⟨run₂, hres₂, hmoves₂, hcontents₂, hcalls⟩ |
          ⟨targetId, run₂, hres₂, hmoves₂, hcontents₂, hknown₂⟩
        · have hrow : convertRow sdk run row = (.error .database, run₂) := by
            simp only [convertRow, hdecode, hres₁, hres₂]
          rw [hrow]
          refine ⟨hmoves₁.trans hmoves₂, ⟨askedFor (contractCall row outcome),
            List.prefix_append _ _, hcontents₂.trans hcontents₁, ?_⟩, ?_, ?_⟩
          · intro hok
            cases hok
          · intro a ha
            cases ha
          · intro _ _ hnone
            exact absurd (hmoves₁.calls hnone) hcalls
        · have hmoves := hmoves₁.trans hmoves₂
          simp only [convertRow, hdecode, hres₁, hres₂]
          refine ⟨⟨hmoves.ok, hmoves.events, hmoves.converted, hmoves.calls,
            hmoves.names⟩, ⟨_, List.prefix_rfl, ?_, fun _ => rfl⟩,
            ?_, ?_⟩
          · rw [List.foldl_append, ← hcontents₁]
            exact hcontents₂
          · intro a ha
            cases ha
            exact ⟨outcome, ⟨hdecode, rfl, rfl,
              hknown₁.mono hmoves₂.names, hknown₂⟩⟩
          · intro e he
            cases he

/-- The rows of a batch, one after the other. -/
theorem convertRows_spec {run : LegacyRun} (h : TxOk ∅ run.tx)
    (rows : List (LegacyEvent Nat)) :
    Passes run (rows.flatMap (rowKeys sdk))
      (fun s us => List.Forall₂
        (fun row u => ∃ outcome, UpdateOf sdk s row u outcome) rows us)
      (∃ row ∈ rows, ∃ e, decodeRow sdk row = .error e)
      (convertRows sdk run rows).1 (convertRows sdk run rows).2 := by
  induction rows generalizing run with
  | nil =>
      refine ⟨.refl h, ⟨[], List.prefix_rfl, rfl, fun _ => rfl⟩,
        ?_, ?_⟩
      · intro us hus
        cases hus
        exact .nil
      · intro e he
        cases he
  | cons row rows ih =>
      rw [List.flatMap_cons]
      have hrow := @convertRow_spec sdk run h row
      obtain ⟨made, hmade, hcontents, hall⟩ := hrow.touched
      cases hconvert : convertRow sdk run row with
      | mk result run₁ =>
      rw [hconvert] at hrow hcontents hall
      cases result with
      | error e =>
          have hrows : convertRows sdk run (row :: rows) = (.error e, run₁) := by
            rw [convertRows, hconvert]
          rw [hrows]
          refine ⟨hrow.moves, ⟨made, hmade.trans (List.prefix_append _ _),
            hcontents, ?_⟩, ?_, ?_⟩
          · intro hok
            cases hok
          · intro us hus
            cases hus
          · intro _ _ hnone
            exact ⟨row, List.mem_cons_self, hrow.stopped e rfl hnone⟩
      | ok u =>
          have hfull := hall rfl
          subst hfull
          have hrest := ih hrow.moves.ok
          obtain ⟨made₁, hmade₁, hcontents₁, hall₁⟩ := hrest.touched
          cases hconvert₁ : convertRows sdk run₁ rows with
          | mk result₁ run₂ =>
          rw [hconvert₁] at hrest hcontents₁ hall₁
          have hcontents₂ : run₂.contents =
              (rowKeys sdk row ++ made₁).foldl Contents.touch run.contents := by
            rw [List.foldl_append, ← hcontents]
            exact hcontents₁
          have hprefix : rowKeys sdk row ++ made₁ <+:
              rowKeys sdk row ++ rows.flatMap (rowKeys sdk) := by
            rwa [List.prefix_append_right_inj]
          cases result₁ with
          | error e =>
              have hrows : convertRows sdk run (row :: rows) =
                  (.error e, run₂) := by
                simp only [convertRows, hconvert, hconvert₁]
              rw [hrows]
              refine ⟨hrow.moves.trans hrest.moves,
                ⟨_, hprefix, hcontents₂, ?_⟩, ?_, ?_⟩
              · intro hok
                cases hok
              · intro us hus
                cases hus
              · intro _ _ hnone
                obtain ⟨row', hmem, hbad⟩ :=
                  hrest.stopped e rfl (hrow.moves.calls hnone)
                exact ⟨row', List.mem_cons_of_mem _ hmem, hbad⟩
          | ok us =>
              have hrows : convertRows sdk run (row :: rows) =
                  (.ok (u :: us), run₂) := by
                simp only [convertRows, hconvert, hconvert₁]
              rw [hrows]
              refine ⟨hrow.moves.trans hrest.moves,
                ⟨_, hprefix, hcontents₂, ?_⟩, ?_, ?_⟩
              · intro _
                rw [hall₁ rfl]
              · intro us' hus
                cases hus
                obtain ⟨outcome, hu⟩ := hrow.answer u rfl
                exact .cons ⟨outcome, hu.mono hrest.moves.names⟩
                  (hrest.answer us rfl)
              · intro e he
                cases he

/-! ## The table -/

section

variable {events : List (LegacyEvent Nat)}
  {us us' : List LegacyDecodedRowUpdate} {e : LegacyEvent Nat}

/-- What the statement does to a row. -/
def rowAfter (us : List LegacyDecodedRowUpdate) (e : LegacyEvent Nat) :
    LegacyEvent Nat :=
  match updateFor us e with
  | some u => u.apply e
  | none => e

theorem apply_fst (events : List (LegacyEvent Nat))
    (us : List LegacyDecodedRowUpdate) :
    (applyLegacyDecodedEvents events us).1 = events.map (rowAfter us) :=
  rfl

theorem rowAfter_of_none (h : updateFor us e = none) : rowAfter us e = e := by
  rw [rowAfter, h]

theorem rowAfter_of_some {u : LegacyDecodedRowUpdate}
    (h : updateFor us e = some u) : rowAfter us e = u.apply e := by
  rw [rowAfter, h]

theorem rowAfter_id (us : List LegacyDecodedRowUpdate) (e : LegacyEvent Nat) :
    (rowAfter us e).id = e.id := by
  unfold rowAfter
  split <;> rfl

theorem updateFor_of_not_raw (h : e.isRaw = false) : updateFor us e = none := by
  rw [updateFor, h]
  rfl

theorem updateFor_of_raw (h : e.isRaw = true) :
    updateFor us e = us.find? fun u => u.id == e.id := by
  rw [updateFor, if_pos h]

/-- A converted row is out of reach of any further update. -/
theorem updateFor_rowAfter (us us' : List LegacyDecodedRowUpdate)
    (e : LegacyEvent Nat) :
    updateFor us' (rowAfter us e) =
      if (updateFor us e).isSome then none else updateFor us' e := by
  cases h : updateFor us e with
  | none => rw [rowAfter_of_none h]; rfl
  | some u =>
      rw [rowAfter_of_some h]
      exact updateFor_of_not_raw rfl

theorem updateFor_append (us us' : List LegacyDecodedRowUpdate)
    (e : LegacyEvent Nat) :
    updateFor (us ++ us') e = (updateFor us e).or (updateFor us' e) := by
  cases h : e.isRaw with
  | false => simp only [updateFor_of_not_raw h, Option.or_none]
  | true => simp only [updateFor_of_raw h, List.find?_append]

/-- Two statements are one with both lists of updates. -/
theorem rowAfter_append (us us' : List LegacyDecodedRowUpdate)
    (e : LegacyEvent Nat) :
    rowAfter us' (rowAfter us e) = rowAfter (us ++ us') e := by
  have happend := updateFor_append us us' e
  cases h : updateFor us e with
  | none =>
      rw [rowAfter_of_none h, rowAfter, rowAfter, happend, h, Option.none_or]
  | some u =>
      have hlater := updateFor_rowAfter us us' e
      rw [h, Option.isSome_some, if_pos rfl] at hlater
      rw [rowAfter_of_none hlater, rowAfter_of_some h, rowAfter, happend, h,
        Option.some_or]

theorem isRaw_rowAfter (us : List LegacyDecodedRowUpdate)
    (e : LegacyEvent Nat) :
    (rowAfter us e).isRaw = (e.isRaw && (updateFor us e).isNone) := by
  cases h : updateFor us e with
  | none => rw [rowAfter_of_none h, Option.isNone_none, Bool.and_true]
  | some u =>
      rw [rowAfter_of_some h, Option.isNone_some, Bool.and_false]
      rfl

theorem updateFor_eq_none_iff (h : e.isRaw = true) :
    updateFor us e = none ↔ e.id ∉ us.map LegacyDecodedRowUpdate.id := by
  rw [updateFor_of_raw h, List.find?_eq_none, List.mem_map]
  simp only [beq_iff_eq, not_exists, not_and]

end

/-! ## Where the tables stand -/

/-- What the schema promises: unique ids, and references to rows that are
there. -/
structure LegacyDb.Ok (db : LegacyDb) : Prop where
  ids : (db.events.map LegacyEvent.id).Nodup
  store : StoreOk ∅ db.sequences db.store
  contracts : ∀ e ∈ db.events, ∀ id ∈ e.contract,
    (.contracts, id) ∈ db.store.names.map refOf
  targets : ∀ e ∈ db.events, ∀ id ∈ e.targetAddress,
    (.addresses, id) ∈ db.store.names.map refOf

/-- The rows there are to convert, in order. -/
def LegacyDb.rawRows (db : LegacyDb) : List (LegacyEvent Nat) :=
  remaining LegacyEvent.id (some 0) (db.events.filter LegacyEvent.isRaw)

/-- The rows have got the updates they ask for. -/
def UpdatesOf (sdk : LegacySdk) (s : Store Unit) :
    List (LegacyEvent Nat) → List LegacyDecodedRowUpdate → Prop :=
  List.Forall₂ fun row u => ∃ outcome, UpdateOf sdk s row u outcome

/-- `done` of the raw rows are converted, and the dimension rows that at least
those ask for are there. -/
structure Progress (sdk : LegacySdk) (db : LegacyDb)
    (done : List (LegacyEvent Nat)) (events : List (LegacyEvent Nat))
    (s : Store Unit) : Prop where
  front : done <+: db.rawRows
  rows : ∃ us, UpdatesOf sdk s done us ∧ events = db.events.map (rowAfter us)
  dims : ∃ keys, s.contents = keys.foldl Contents.touch db.store.contents ∧
    done.flatMap (rowKeys sdk) <+: keys ∧
    keys <+: db.rawRows.flatMap (rowKeys sdk)
  names : ∀ x ∈ db.store.names, x ∈ s.names

section

variable {db : LegacyDb} {done rest batch events : List (LegacyEvent Nat)}
  {us : List LegacyDecodedRowUpdate} {s s' : Store Unit}

theorem UpdatesOf.mono {rows : List (LegacyEvent Nat)}
    (h : UpdatesOf sdk s rows us) (hnames : ∀ x ∈ s.names, x ∈ s'.names) :
    UpdatesOf sdk s' rows us := by
  refine List.Forall₂.imp ?_ h
  rintro row u ⟨outcome, hu⟩
  exact ⟨outcome, hu.mono hnames⟩

theorem UpdatesOf.ids {rows : List (LegacyEvent Nat)}
    (h : UpdatesOf sdk s rows us) :
    us.map LegacyDecodedRowUpdate.id = rows.map LegacyEvent.id := by
  induction h with
  | nil => rfl
  | cons hu _ ih =>
      obtain ⟨outcome, hu⟩ := hu
      rw [List.map_cons, List.map_cons, hu.id, ih]

theorem mem_rawRows {e : LegacyEvent Nat} :
    e ∈ db.rawRows ↔ e ∈ db.events ∧ e.isRaw = true ∧ 0 < e.id := by
  rw [LegacyDb.rawRows, mem_remaining, List.mem_filter, isAfter_some, and_assoc]

theorem LegacyDb.Ok.rawRows_sorted (h : db.Ok) :
    db.rawRows.Pairwise fun a b => a.id < b.id :=
  remaining_sorted (h.ids.sublist (List.filter_sublist.map _))

theorem LegacyDb.Ok.rawRows_ids (h : db.Ok) :
    (db.rawRows.map LegacyEvent.id).Nodup := by
  rw [List.Nodup, List.pairwise_map]
  exact h.rawRows_sorted.imp fun hlt => hlt.ne

/-- Rows under one id are one row. -/
theorem LegacyDb.Ok.eq_of_id (h : db.Ok) {e e' : LegacyEvent Nat}
    (he : e ∈ db.events) (he' : e' ∈ db.events) (hid : e.id = e'.id) : e = e' :=
  List.inj_on_of_nodup_map h.ids he he' hid

theorem progress_start (db : LegacyDb) :
    Progress sdk db [] db.events db.store := by
  refine ⟨List.nil_prefix, ⟨[], .nil, ?_⟩, ⟨[], rfl, List.prefix_rfl,
    List.nil_prefix⟩, fun _ hx => hx⟩
  have hsame : ∀ e, rowAfter [] e = e := by
    intro e
    refine rowAfter_of_none ?_
    unfold updateFor
    split <;> rfl
  rw [List.map_congr_left fun e _ => hsame e, List.map_id']

/-- The raw rows that are left. -/
theorem Progress.mem_raw (hrows : UpdatesOf sdk s done us)
    {e : LegacyEvent Nat} :
    e ∈ (db.events.map (rowAfter us)).filter LegacyEvent.isRaw ↔
      e ∈ db.events ∧ e.isRaw = true ∧ e.id ∉ done.map LegacyEvent.id := by
  rw [List.mem_filter, List.mem_map]
  constructor
  · rintro ⟨⟨e₀, he₀, rfl⟩, hraw⟩
    rw [isRaw_rowAfter, Bool.and_eq_true, Option.isNone_iff_eq_none] at hraw
    obtain ⟨hraw, hnone⟩ := hraw
    rw [rowAfter_of_none hnone]
    refine ⟨he₀, hraw, ?_⟩
    rwa [updateFor_eq_none_iff hraw, hrows.ids] at hnone
  · rintro ⟨he, hraw, hid⟩
    rw [← hrows.ids, ← updateFor_eq_none_iff hraw] at hid
    exact ⟨⟨e, he, rowAfter_of_none hid⟩, hraw⟩

/-- What a batch is taken from. -/
theorem Progress.listed (hok : db.Ok) (h : Progress sdk db done events s)
    (hsplit : db.rawRows = done ++ rest) {afterId : Int} (hafter : 0 ≤ afterId)
    (hrest : ∀ r ∈ rest, afterId < r.id) :
    remaining LegacyEvent.id (some afterId) (events.filter LegacyEvent.isRaw) =
      rest := by
  obtain ⟨us, hus, rfl⟩ := h.rows
  have hids := hok.rawRows_ids
  rw [hsplit, List.map_append, List.nodup_append] at hids
  have hsorted := hok.rawRows_sorted
  rw [hsplit, List.pairwise_append] at hsorted
  have hkeys : (((db.events.map (rowAfter us)).filter LegacyEvent.isRaw).map
      LegacyEvent.id).Nodup := by
    refine List.Nodup.sublist (List.filter_sublist.map _) ?_
    rw [List.map_map]
    refine (List.map_congr_left ?_).symm ▸ hok.ids
    intro e _
    exact rowAfter_id us e
  have hirrefl : Std.Irrefl fun a b : LegacyEvent Nat => a.id < b.id :=
    ⟨fun a => lt_irrefl a.id⟩
  refine List.Pairwise.eq_of_mem_iff (remaining_sorted hkeys) hsorted.2.1 ?_
  intro e
  rw [mem_remaining, isAfter_some, Progress.mem_raw hus]
  constructor
  · rintro ⟨⟨he, hraw, hid⟩, hlt⟩
    have hmem : e ∈ db.rawRows := mem_rawRows.mpr ⟨he, hraw, hafter.trans_lt hlt⟩
    rw [hsplit] at hmem
    rcases List.mem_append.mp hmem with hmem | hmem
    · exact absurd (List.mem_map_of_mem hmem) hid
    · exact hmem
  · intro hmem
    have hraw : e ∈ db.rawRows := hsplit ▸ List.mem_append_right _ hmem
    obtain ⟨he, hraw, -⟩ := mem_rawRows.mp hraw
    refine ⟨⟨he, hraw, fun hdone => ?_⟩, hrest e hmem⟩
    exact hids.2.2 _ hdone _ (List.mem_map_of_mem hmem) rfl

/-- The calls of a batch, as far as they got. -/
theorem Progress.touch (h : Progress sdk db done events s)
    (hbatch : done ++ batch <+: db.rawRows) {made : List Key}
    (hmade : made <+: batch.flatMap (rowKeys sdk))
    (hnames : ∀ x ∈ s.names, x ∈ s'.names)
    (hcontents : s'.contents = made.foldl Contents.touch s.contents) :
    Progress sdk db done events s' ∧
      (made = batch.flatMap (rowKeys sdk) → ∃ keys,
        s'.contents = keys.foldl Contents.touch db.store.contents ∧
        (done ++ batch).flatMap (rowKeys sdk) <+: keys ∧
        keys <+: db.rawRows.flatMap (rowKeys sdk)) := by
  obtain ⟨us, hus, hevents⟩ := h.rows
  obtain ⟨keys, hkeys, hdone, hreach⟩ := h.dims
  have hall : done.flatMap (rowKeys sdk) ++ batch.flatMap (rowKeys sdk) <+:
      db.rawRows.flatMap (rowKeys sdk) := by
    obtain ⟨later, hlater⟩ := hbatch
    rw [← hlater, List.flatMap_append, List.flatMap_append]
    exact List.prefix_append _ _
  have hnext : done.flatMap (rowKeys sdk) ++ made <+:
      db.rawRows.flatMap (rowKeys sdk) :=
    ((List.prefix_append_right_inj _).mpr hmade).trans hall
  obtain ⟨keys', hle, hfront, hreach', hfold⟩ :=
    db.store.contents.foldl_touch_resume hreach hdone hnext
  rw [hkeys, hfold] at hcontents
  refine ⟨⟨h.front, ⟨us, hus.mono hnames, hevents⟩,
    ⟨keys', hcontents, hdone.trans hle, hreach'⟩,
    fun x hx => hnames x (h.names x hx)⟩, ?_⟩
  rintro rfl
  refine ⟨keys', hcontents, ?_, hreach'⟩
  rwa [List.flatMap_append]

/-- The statement of a batch. -/
theorem Progress.apply (h : Progress sdk db done events s)
    (hbatch : done ++ batch <+: db.rawRows) (hus : UpdatesOf sdk s batch us)
    (hdims : ∃ keys,
      s.contents = keys.foldl Contents.touch db.store.contents ∧
      (done ++ batch).flatMap (rowKeys sdk) <+: keys ∧
      keys <+: db.rawRows.flatMap (rowKeys sdk)) :
    Progress sdk db (done ++ batch) (applyLegacyDecodedEvents events us).1
      s := by
  obtain ⟨us₀, hus₀, hevents⟩ := h.rows
  refine ⟨hbatch, ⟨us₀ ++ us, List.rel_append hus₀ hus, ?_⟩, hdims, h.names⟩
  rw [apply_fst, hevents, List.map_map]
  refine List.map_congr_left fun e _ => ?_
  exact rowAfter_append us₀ us e

/-- It affects the rows of the batch. -/
theorem Progress.affected (hok : db.Ok) (h : Progress sdk db done events s)
    (hbatch : done ++ batch <+: db.rawRows) (hus : UpdatesOf sdk s batch us) :
    (applyLegacyDecodedEvents events us).2.Perm (batch.map LegacyEvent.id) := by
  obtain ⟨us₀, hus₀, rfl⟩ := h.rows
  have hids : ((done ++ batch).map LegacyEvent.id).Nodup :=
    hok.rawRows_ids.sublist (hbatch.sublist.map _)
  rw [List.map_append, List.nodup_append] at hids
  have hevents : ((db.events.map (rowAfter us₀)).map
      LegacyEvent.id).Nodup := by
    rw [List.map_map]
    refine (List.map_congr_left ?_).symm ▸ hok.ids
    intro e _
    exact rowAfter_id us₀ e
  rw [applyLegacyDecodedEvents, List.perm_ext_iff_of_nodup
    (hevents.sublist (List.filter_sublist.map _)) hids.2.1]
  intro i
  rw [List.mem_map]
  constructor
  · rintro ⟨e, he, rfl⟩
    obtain ⟨-, hsome⟩ := List.mem_filter.mp he
    by_contra hnot
    rw [← hus.ids] at hnot
    cases hraw : e.isRaw with
    | false =>
        rw [updateFor_of_not_raw hraw] at hsome
        cases hsome
    | true =>
        rw [(updateFor_eq_none_iff hraw).mpr hnot] at hsome
        cases hsome
  · intro hi
    obtain ⟨r, hr, rfl⟩ := List.mem_map.mp hi
    have hmem : r ∈ db.rawRows :=
      hbatch.subset (List.mem_append_right _ hr)
    obtain ⟨he, hraw, -⟩ := mem_rawRows.mp hmem
    have hleft : r ∈ (db.events.map (rowAfter us₀)).filter LegacyEvent.isRaw :=
      (Progress.mem_raw hus₀).mpr ⟨he, hraw, fun hdone =>
        hids.2.2 _ hdone _ hi rfl⟩
    refine ⟨r, List.mem_filter.mpr ⟨(List.mem_filter.mp hleft).1, ?_⟩, rfl⟩
    rw [Option.isSome_iff_ne_none, Ne, updateFor_eq_none_iff hraw, hus.ids]
    exact not_not_intro hi

end

/-! ## The loop -/

/-- The cursor after a batch. -/
theorem le_foldl_max (rows : List (LegacyEvent Nat)) (afterId : Int) :
    afterId ≤ rows.foldl (fun id row => max id row.id) afterId := by
  induction rows generalizing afterId with
  | nil => exact le_refl _
  | cons row rows ih => exact (le_max_left _ _).trans (ih _)

theorem foldl_max_lt {rows : List (LegacyEvent Nat)} {afterId bound : Int}
    (hafter : afterId < bound) (hrows : ∀ r ∈ rows, r.id < bound) :
    rows.foldl (fun id row => max id row.id) afterId < bound := by
  induction rows generalizing afterId with
  | nil => exact hafter
  | cons row rows ih =>
      refine ih (max_lt hafter (hrows row List.mem_cons_self)) ?_
      exact fun r hr => hrows r (List.mem_cons_of_mem _ hr)

/-- How a run ends that started with `done` converted. -/
structure RunEnds (sdk : LegacySdk) (db : LegacyDb)
    (done : List (LegacyEvent Nat)) (calls : Option Nat) (before : List Int)
    (result : Except LegacyRawError LegacyRawDecodeReport)
    (run : LegacyRun) (new : List (LegacyEvent Nat)) : Prop where
  ok : TxOk ∅ run.tx
  progress : Progress sdk db (done ++ new) run.events run.tx.view
  converted : run.converted.Perm (before ++ new.map LegacyEvent.id)
  finished : result.toBool = true → done ++ new = db.rawRows
  stopped : result.toBool = false → calls = none →
    ∃ row ∈ db.rawRows, ∃ e, decodeRow sdk row = .error e

section

variable {db : LegacyDb} {done rest : List (LegacyEvent Nat)}

/-- A stop at a call, with nothing new converted. -/
theorem RunEnds.stop {run run' : LegacyRun} {calls : Option Nat}
    {e : LegacyRawError} (hmoves : RunMoves run run')
    (hprogress : Progress sdk db done run'.events run'.tx.view)
    (hbad : calls = none → ∃ row ∈ db.rawRows, ∃ e,
      decodeRow sdk row = .error e) :
    RunEnds sdk db done calls run.converted (.error e) run' [] := by
  refine ⟨hmoves.ok, ?_, ?_, ?_, fun _ => hbad⟩
  · rwa [List.append_nil]
  · rw [hmoves.converted, List.map_nil, List.append_nil]
  · intro hok
    cases hok

theorem RunEnds.later {run : LegacyRun} {calls calls' : Option Nat}
    {before affected : List Int} {batch new : List (LegacyEvent Nat)}
    {result : Except LegacyRawError LegacyRawDecodeReport}
    (h : RunEnds sdk db (done ++ batch) calls' (before ++ affected) result run new)
    (haffected : affected.Perm (batch.map LegacyEvent.id))
    (hcalls : calls = none → calls' = none) :
    RunEnds sdk db done calls before result run (batch ++ new) := by
  refine ⟨h.ok, ?_, ?_, ?_, fun hres hnone => h.stopped hres (hcalls hnone)⟩
  · rw [← List.append_assoc]
    exact h.progress
  · refine h.converted.trans ?_
    rw [List.map_append, ← List.append_assoc]
    exact (haffected.append_left before).append_right _
  · rw [← List.append_assoc]
    exact h.finished

/-- A pass of the loop that converts a batch, and what it hands on. -/
structure NextPass (sdk : LegacySdk) (db : LegacyDb)
    (done batch : List (LegacyEvent Nat)) (run run' : LegacyRun) : Prop where
  ok : TxOk ∅ run'.tx
  progress : Progress sdk db (done ++ batch) run'.events run'.tx.view
  calls : run.calls = none → run'.calls = none
  converted : ∃ affected, run'.converted = run.converted ++ affected ∧
    affected.Perm (batch.map LegacyEvent.id)

/-- The rest of a pass after a batch was listed. -/
def finishPass (sdk : LegacySdk) (fuel : Nat) (run : LegacyRun)
    (afterId : Int) (rows : List (LegacyEvent Nat)) :
    Option (Except LegacyRawError LegacyRawDecodeReport × LegacyRun) :=
  match convertRows sdk run rows with
  | (.error e, run) => some (.error e, run)
  | (.ok updates, run) =>
      match run.spend with
      | none => some (.error .database, run)
      | some run =>
          decodeLoop sdk fuel (run.applyBatch rows.length updates)
            (rows.foldl (fun id row => max id row.id) afterId)

theorem finishPass_spec (hok : db.Ok) {run : LegacyRun}
    {batch : List (LegacyEvent Nat)} (htx : TxOk ∅ run.tx)
    (h : Progress sdk db done run.events run.tx.view)
    (hfront : done ++ batch <+: db.rawRows) (afterId : Int) :
    (∃ result run', (∀ fuel,
        finishPass sdk fuel run afterId batch = some (result, run')) ∧
      RunEnds sdk db done run.calls run.converted result run' []) ∨
    ∃ run', (∀ fuel, finishPass sdk fuel run afterId batch =
        decodeLoop sdk fuel run'
          (batch.foldl (fun id row => max id row.id) afterId)) ∧
      NextPass sdk db done batch run run' := by
  have hpass := @convertRows_spec sdk run htx batch
  obtain ⟨made, hmade, hcontents, hall⟩ := hpass.touched
  obtain ⟨h₁, hdims⟩ := h.touch hfront hmade hpass.moves.names hcontents
  cases hconvert : convertRows sdk run batch with
  | mk result run₁ =>
  rw [hconvert] at hpass h₁ hdims hall
  rw [← hpass.moves.events] at h₁
  cases result with
  | error e =>
      refine .inl ⟨.error e, run₁, ?_, .stop hpass.moves h₁ ?_⟩
      · intro fuel
        rw [finishPass, hconvert]
      · intro hnone
        obtain ⟨row, hrow, hbad⟩ := hpass.stopped e rfl hnone
        exact ⟨row, hfront.subset (List.mem_append_right _ hrow), hbad⟩
  | ok us =>
      cases hspend : run₁.spend with
      | none =>
          refine .inl ⟨.error .database, run₁, ?_, .stop hpass.moves h₁ ?_⟩
          · intro fuel
            simp only [finishPass, hconvert, hspend]
          · intro hnone
            exact absurd (hpass.moves.calls hnone)
              (LegacyRun.spend_eq_none hspend)
      | some run₂ =>
          obtain ⟨hmoves₂, htx₂⟩ := RunMoves.spend hpass.moves.ok hspend
          have hus := hpass.answer us rfl
          have h₂ := h₁.apply hfront hus (hdims (hall rfl))
          have haffected := h₁.affected hok hfront hus
          have hmoves := hpass.moves.trans hmoves₂
          rw [← hmoves₂.events] at h₂ haffected
          rw [← htx₂] at h₂
          refine .inr ⟨run₂.applyBatch batch.length us, ?_, hmoves₂.ok, h₂,
            hmoves.calls, _, ?_, haffected⟩
          · intro fuel
            simp only [finishPass, hconvert, hspend]
          · rw [← hmoves.converted]
            rfl

/-- From a batch on, the loop is at an earlier stage of the same argument. -/
theorem decodeLoop_spec (hok : db.Ok) (fuel : Nat) {run : LegacyRun}
    {afterId : Int} (hfuel : rest.length < fuel) (htx : TxOk ∅ run.tx)
    (h : Progress sdk db done run.events run.tx.view)
    (hsplit : db.rawRows = done ++ rest) (hafter : 0 ≤ afterId)
    (hrest : ∀ r ∈ rest, afterId < r.id) :
    ∃ result run' new, decodeLoop sdk fuel run afterId = some (result, run') ∧
      RunEnds sdk db done run.calls run.converted result run' new := by
  induction fuel generalizing run afterId done rest with
  | zero => exact absurd hfuel (Nat.not_lt_zero _)
  | succ fuel ih =>
      cases hspend : run.spend with
      | none =>
          refine ⟨.error .database, run, [], ?_, .stop (.refl htx) h ?_⟩
          · rw [decodeLoop, hspend]
          · intro hnone
            exact absurd hnone (LegacyRun.spend_eq_none hspend)
      | some run₁ =>
          obtain ⟨hmoves₁, htx₁⟩ := RunMoves.spend htx hspend
          have h₁ : Progress sdk db done run₁.events run₁.tx.view := by
            rwa [hmoves₁.events, htx₁]
          have hlisted : listLegacyRawEvents run₁.events afterId
              decodeLegacyRawBatch = rest.take decodeLegacyRawBatch := by
            rw [listLegacyRawEvents, h₁.listed hok hsplit hafter hrest]
          by_cases hnil : rest = []
          · refine ⟨.ok run₁.report, run₁, [], ?_, hmoves₁.ok, ?_, ?_, ?_, ?_⟩
            · simp only [decodeLoop, hspend, hlisted, hnil, List.take_nil,
                List.isEmpty_nil, if_true]
            · rwa [List.append_nil]
            · rw [hmoves₁.converted, List.map_nil, List.append_nil]
            · intro _
              rw [hsplit, hnil]
            · intro hres
              cases hres
          · have hbatch : (rest.take decodeLegacyRawBatch).isEmpty = false := by
              cases rest with
              | nil => exact absurd rfl hnil
              | cons r rest => rfl
            have hloop : decodeLoop sdk (fuel + 1) run afterId =
                finishPass sdk fuel run₁ afterId
                  (rest.take decodeLegacyRawBatch) := by
              simp only [decodeLoop, hspend, hlisted, hbatch,
                Bool.false_eq_true, if_false]
              rfl
            have hcut := List.take_append_drop decodeLegacyRawBatch rest
            have hfront : done ++ rest.take decodeLegacyRawBatch <+:
                db.rawRows := by
              rw [hsplit, List.prefix_append_right_inj]
              exact List.take_prefix _ _
            rw [hloop, ← hmoves₁.converted]
            rcases finishPass_spec hok hmoves₁.ok h₁ hfront afterId with
              ⟨result, run₂, hstop, hends⟩ | ⟨run₂, hnext, hpass⟩
            · refine ⟨result, run₂, [], hstop fuel, hends.ok, hends.progress,
                hends.converted, hends.finished, ?_⟩
              intro hres hnone
              exact hends.stopped hres (hmoves₁.calls hnone)
            · have hless : (rest.drop decodeLegacyRawBatch).length < fuel := by
                have hpos : 0 < rest.length := List.length_pos_of_ne_nil hnil
                rw [List.length_drop, decodeLegacyRawBatch]
                omega
              have hsorted := hok.rawRows_sorted
              rw [hsplit, ← hcut, List.pairwise_append,
                List.pairwise_append] at hsorted
              have hcursor : ∀ r ∈ rest.drop decodeLegacyRawBatch,
                  (rest.take decodeLegacyRawBatch).foldl
                    (fun id row => max id row.id) afterId < r.id := by
                intro r hr
                refine foldl_max_lt (hrest r (List.mem_of_mem_drop hr)) ?_
                exact fun x hx => hsorted.2.1.2.2 x hx r hr
              have hsplit' : db.rawRows =
                  (done ++ rest.take decodeLegacyRawBatch) ++
                    rest.drop decodeLegacyRawBatch := by
                rw [hsplit, List.append_assoc, hcut]
              obtain ⟨affected, hconverted, hperm⟩ := hpass.converted
              obtain ⟨result, run₃, new, hrun, hends⟩ := ih hless hpass.ok
                hpass.progress hsplit' (hafter.trans (le_foldl_max _ _)) hcursor
              rw [hconverted] at hends
              refine ⟨result, run₃, _, (hnext fuel).trans hrun,
                hends.later hperm ?_⟩
              exact fun hnone => hpass.calls (hmoves₁.calls hnone)

end

/-! ## Runs -/

section

variable {db₀ db db' : LegacyDb} {done : List (LegacyEvent Nat)}

/-- A database that runs have brought this far. -/
structure DbProgress (sdk : LegacySdk) (db₀ : LegacyDb)
    (done : List (LegacyEvent Nat)) (db : LegacyDb) : Prop where
  store : StoreOk ∅ db.sequences db.store
  progress : Progress sdk db₀ done db.events db.store

theorem dbProgress_start (h : db₀.Ok) : DbProgress sdk db₀ [] db₀ :=
  ⟨h.store, progress_start db₀⟩

theorem LegacyDb.start_ok (h : StoreOk ∅ db.sequences db.store)
    (calls : Option Nat) : TxOk ∅ (db.start calls).tx := by
  refine ⟨h, h, fun _ hkey => hkey, fun f key id hlook => ?_, fun x hx => ?_⟩
  · cases hlook
  · cases hx

/-- The passes that are left are fewer than the rows. -/
theorem Progress.length_lt {done rest events : List (LegacyEvent Nat)}
    {s : Store Unit} (h : Progress sdk db₀ done events s)
    (hsplit : db₀.rawRows = done ++ rest) : rest.length < events.length + 1 := by
  obtain ⟨us, -, rfl⟩ := h.rows
  have hraw : db₀.rawRows.length ≤ db₀.events.length := by
    rw [LegacyDb.rawRows, remaining, List.length_insertionSort]
    exact (List.length_filter_le _ _).trans (List.length_filter_le _ _)
  rw [hsplit, List.length_append] at hraw
  rw [List.length_map]
  omega

/-- Every run comes back. -/
theorem decodeOnce_spec (hok : db₀.Ok) (h : DbProgress sdk db₀ done db)
    (calls : Option Nat) :
    ∃ result run new,
      decodeLegacyRawEventsOnce sdk calls db = some (result, run) ∧
      RunEnds sdk db₀ done calls [] result run new := by
  obtain ⟨rest, hsplit⟩ := h.progress.front
  have hpositive : ∀ r ∈ rest, (0 : Int) < r.id := by
    intro r hr
    have hmem : r ∈ db₀.rawRows := hsplit ▸ List.mem_append_right _ hr
    exact (mem_rawRows.mp hmem).2.2
  exact decodeLoop_spec hok _ (h.progress.length_lt hsplit.symm)
    (LegacyDb.start_ok h.store calls) h.progress hsplit.symm (le_refl 0)
    hpositive

/-- More passes change nothing. -/
theorem decodeLoop_of_le (fuel fuel' : Nat) (hle : fuel ≤ fuel')
    {run : LegacyRun} {afterId : Int}
    {out : Except LegacyRawError LegacyRawDecodeReport × LegacyRun}
    (h : decodeLoop sdk fuel run afterId = some out) :
    decodeLoop sdk fuel' run afterId = some out := by
  induction fuel generalizing fuel' run afterId with
  | zero => cases h
  | succ fuel ih =>
      obtain ⟨n, rfl⟩ : ∃ n, fuel' = n + 1 := ⟨fuel' - 1, by omega⟩
      rw [decodeLoop] at h ⊢
      cases hspend : run.spend with
      | none =>
          rw [hspend] at h
          exact h
      | some run₁ =>
          simp only [hspend] at h ⊢
          split at h
          · next hempty => rw [if_pos hempty, h]
          · next hempty =>
              rw [if_neg hempty]
              split at h
              · exact h
              · split at h
                · exact h
                · exact ih n (by omega) h

/-- One run. -/
theorem DbProgress.step (hok : db₀.Ok) (h : DbProgress sdk db₀ done db)
    {a : LegacyRunOutcome} (hstep : LegacyRunStep sdk db a db') :
    ∃ new, DbProgress sdk db₀ (done ++ new) db' ∧
      a.converted.Perm (new.map LegacyEvent.id) ∧
      (a.ok = true → done ++ new = db₀.rawRows) := by
  obtain ⟨result, run, hrun, hresult, hconverted, rfl⟩ := hstep
  obtain ⟨result', run', new, hrun', hends⟩ := decodeOnce_spec hok h a.calls
  cases hrun.symm.trans hrun'
  refine ⟨new, ⟨hends.ok.view, hends.progress⟩, ?_, ?_⟩
  · rw [hconverted]
    exact hends.converted
  · intro hok'
    exact hends.finished (hresult ▸ hok')

/-- Any number of runs. -/
theorem DbProgress.steps (hok : db₀.Ok) (h : DbProgress sdk db₀ done db)
    {runs : List LegacyRunOutcome}
    (hruns : Steps (LegacyRunStep sdk) db runs db') :
    ∃ new, DbProgress sdk db₀ (done ++ new) db' ∧
      (runs.flatMap LegacyRunOutcome.converted).Perm
        (new.map LegacyEvent.id) ∧
      ∀ a ∈ runs.getLast?, a.ok = true → done ++ new = db₀.rawRows := by
  induction hruns generalizing done with
  | nil =>
      refine ⟨[], ?_, List.Perm.refl _, ?_⟩
      · rwa [List.append_nil]
      · intro a ha
        cases ha
  | @cons s s' s'' a as hfirst hlater ih =>
      obtain ⟨new, hprogress, hperm, hfinished⟩ := h.step hok hfirst
      obtain ⟨new', hprogress', hperm', hfinished'⟩ := ih hprogress
      rw [List.append_assoc] at hprogress' hfinished'
      refine ⟨new ++ new', hprogress', ?_, ?_⟩
      · rw [List.flatMap_cons, List.map_append]
        exact hperm.append hperm'
      · intro last hlast hlastOk
        cases as with
        | nil =>
            cases hlater
            cases hlast
            have hnil : new' = [] := by simpa using hperm'
            rw [hnil, List.append_nil]
            exact hfinished hlastOk
        | cons b bs =>
            rw [List.getLast?_cons_cons] at hlast
            exact hfinished' last hlast hlastOk

/-! ## What runs leave -/

/-- A row before and after its conversion. -/
structure ConvertedRow (sdk : LegacySdk) (e e' : LegacyEvent Nat)
    (outcome : LegacyRawDecodeOutcome) : Prop where
  decoded : ∃ tokenId, decodeRow sdk e = .ok (outcome, tokenId)
  wasRaw : e.isRaw = true
  format : e'.payloadFormat = some 4
  kept : e' =
    { e with
      payloadFormat := e'.payloadFormat
      payloadJson := e'.payloadJson
      tokenId := e'.tokenId
      contract := e'.contract
      targetAddress := e'.targetAddress }
  rawData : e'.rawData = e.rawData
  payload : ∀ key, key ≠ "raw_data" →
    key ∉ outcome.payloadAdditions.map Prod.fst →
    (e'.payloadJson.bind fun json => json.get key) =
      e.payloadJson.bind fun json => json.get key
  tokenId : ∀ stored, e.tokenId = some stored → e'.tokenId = some stored
  contract : outcome.contractSymbol = none → e'.contract = e.contract
  target : outcome.targetAddress = none → e'.targetAddress = e.targetAddress

theorem lookup_removeField (fields : Json.Fields) {key removed : String}
    (hkey : key ≠ removed) :
    (Json.removeField removed fields).lookup key = fields.lookup key := by
  induction fields with
  | nil => rfl
  | cons f fields ih =>
      obtain ⟨k, v⟩ := f
      rw [Json.removeField, List.filter_cons]
      split
      · rw [Json.lookup_cons_eq, Json.lookup_cons_eq]
        split
        · rfl
        · exact ih
      · next hk =>
          have hkr : k = removed := by simpa using hk
          rw [Json.lookup_cons_eq, if_neg (hkr ▸ hkey)]
          exact ih

/-- The merged payload under a key that is not decoded. -/
theorem get_mergePayload (stored : Option Json)
    {additions : List (String × Json)} {key : String} (hraw : key ≠ "raw_data")
    (hkey : key ∉ additions.map Prod.fst) :
    (mergePayload stored additions).get key =
      stored.bind fun json => json.get key := by
  have hlook : ∀ fields : Json.Fields,
      (additions.foldl (fun acc f => Json.setField f.1 f.2 acc)
        (Json.removeField "raw_data" fields)).lookup key =
      fields.lookup key := by
    intro fields
    rw [Json.lookup_foldl_setField _ _ hkey, lookup_removeField _ hraw]
  cases stored with
  | none => exact hlook []
  | some json =>
      cases json with
      | obj fields => exact hlook fields
      | null | bool | num | str | arr => exact hlook []

theorem mergeTokenId_keeps {eventId : Int} {stored : String}
    {computed merged : Option String}
    (h : mergeTokenId eventId (some stored) computed = .ok merged) :
    merged = some stored := by
  cases computed with
  | none =>
      cases h
      rfl
  | some computed =>
      rw [mergeTokenId] at h
      split at h
      · cases h
      · cases h
        rfl

theorem decodeRow_keeps_tokenId {e : LegacyEvent Nat}
    {outcome : LegacyRawDecodeOutcome} {tokenId : Option String}
    {stored : String} (h : decodeRow sdk e = .ok (outcome, tokenId))
    (hstored : e.tokenId = some stored) : tokenId = some stored := by
  unfold decodeRow at h
  split at h
  · cases h
  · split at h
    · cases h
    · split at h
      · cases h
      · next hmerge =>
          cases h
          rw [hstored] at hmerge
          exact mergeTokenId_keeps hmerge

theorem UpdateOf.converted {s : Store Unit} {e : LegacyEvent Nat}
    {u : LegacyDecodedRowUpdate} {outcome : LegacyRawDecodeOutcome}
    (h : UpdateOf sdk s e u outcome) (hraw : e.isRaw = true) :
    ConvertedRow sdk e (u.apply e) outcome where
  decoded := ⟨u.tokenId, h.decoded⟩
  wasRaw := hraw
  format := rfl
  kept := rfl
  rawData := rfl
  payload := by
    intro key hkey hnew
    rw [LegacyDecodedRowUpdate.apply, h.payload]
    exact get_mergePayload e.payloadJson hkey hnew
  tokenId := fun stored hstored => decodeRow_keeps_tokenId h.decoded hstored
  contract := by
    intro hnone
    have hknown := h.contract
    rw [contractCall, hnone] at hknown
    rw [LegacyDecodedRowUpdate.apply]
    cases hid : u.contractId with
    | none => rfl
    | some id =>
        rw [hid] at hknown
        cases hknown
  target := by
    intro hnone
    have hknown := h.target
    rw [targetCall, hnone] at hknown
    rw [LegacyDecodedRowUpdate.apply]
    cases hid : u.targetAddressId with
    | none => rfl
    | some id =>
        rw [hid] at hknown
        cases hknown

theorem UpdatesOf.of_mem {s : Store Unit} {rows : List (LegacyEvent Nat)}
    {us : List LegacyDecodedRowUpdate} (h : UpdatesOf sdk s rows us)
    {u : LegacyDecodedRowUpdate} (hu : u ∈ us) :
    ∃ row ∈ rows, ∃ outcome, UpdateOf sdk s row u outcome := by
  induction h with
  | nil => cases hu
  | cons hfirst _ ih =>
      rcases List.mem_cons.mp hu with rfl | hu
      · exact ⟨_, List.mem_cons_self, hfirst⟩
      · obtain ⟨row, hrow, hof⟩ := ih hu
        exact ⟨row, List.mem_cons_of_mem _ hrow, hof⟩

/-- The update of a row is its own. -/
theorem UpdatesOf.updateFor {s : Store Unit}
    {us : List LegacyDecodedRowUpdate} (hok : db₀.Ok)
    (hfront : done <+: db₀.rawRows) (h : UpdatesOf sdk s done us)
    {e : LegacyEvent Nat} (he : e ∈ db₀.events) :
    if e.id ∈ done.map LegacyEvent.id then
      e.isRaw = true ∧ ∃ u outcome, Ref.updateFor us e = some u ∧
        UpdateOf sdk s e u outcome
    else Ref.updateFor us e = none := by
  have hsame : ∀ r ∈ done, r.id = e.id → r = e := by
    intro r hr hid
    exact hok.eq_of_id (mem_rawRows.mp (hfront.subset hr)).1 he hid
  split
  · next hmem =>
      obtain ⟨r, hr, hid⟩ := List.mem_map.mp hmem
      have hre := hsame r hr hid
      subst hre
      have hraw := (mem_rawRows.mp (hfront.subset hr)).2.1
      refine ⟨hraw, ?_⟩
      cases hfind : Ref.updateFor us r with
      | none =>
          rw [updateFor_eq_none_iff hraw, h.ids] at hfind
          exact absurd hmem hfind
      | some u =>
          rw [updateFor_of_raw hraw] at hfind
          have huid : u.id = r.id := by simpa using List.find?_some hfind
          obtain ⟨r', hr', outcome, hof⟩ :=
            h.of_mem (List.mem_of_find?_eq_some hfind)
          have hr'r := hsame r' hr' (hof.id.symm.trans huid)
          exact ⟨u, outcome, rfl, hr'r ▸ hof⟩
  · next hmem =>
      cases hraw : e.isRaw with
      | false => exact updateFor_of_not_raw hraw
      | true => rwa [updateFor_eq_none_iff hraw, h.ids]

/-! Without ids. -/

/-- The row with the keys of what it refers to, as a join shows it. -/
def LegacyEvent.keyed (dims : List DimensionRow) (e : LegacyEvent Nat) :
    LegacyEvent (Option Key) where
  id := e.id
  chainId := e.chainId
  chainName := e.chainName
  eventKind := e.eventKind
  rawData := e.rawData
  payloadFormat := e.payloadFormat
  payloadJson := e.payloadJson
  tokenId := e.tokenId
  contract := e.contract.map fun id => keyOf dims (.contracts, id)
  targetAddress := e.targetAddress.map fun id => keyOf dims (.addresses, id)
  blockHeight := e.blockHeight
  txIndex := e.txIndex
  eventIndex := e.eventIndex

/-- The table with keys for ids. -/
def LegacyDb.keyedEvents (db : LegacyDb) : List (LegacyEvent (Option Key)) :=
  db.events.map (LegacyEvent.keyed db.store.dims)

/-- What decoding makes of a row. -/
def decodedRow (sdk : LegacySdk) (e : LegacyEvent (Option Key)) :
    LegacyEvent (Option Key) :=
  match decodeRow sdk e with
  | .error _ => e
  | .ok (outcome, tokenId) =>
      { e with
        payloadFormat := some 4
        payloadJson := some (mergePayload e.payloadJson
          outcome.payloadAdditions)
        tokenId := tokenId
        contract := ((contractCall e outcome).map fun call =>
          some call.key).or e.contract
        targetAddress := ((targetCall e outcome).map fun call =>
          some call.key).or e.targetAddress }

theorem RefKnown.keyed {s : Store Unit} {sequences : Dimension → Nat}
    (hs : NamesOk ∅ sequences s.names) {d : Dimension}
    {call : Option DimensionCall} (hd : ∀ c ∈ call, c.dimension = d)
    {id : Option Nat} (h : RefKnown s (call.map DimensionCall.key) id) :
    (id.map fun id => keyOf s.dims (d, id)) =
      call.map fun call => some call.key := by
  cases call with
  | none =>
      cases h
      rfl
  | some call =>
      cases h with
      | some hmem =>
          have hkey := hs.keyOf hmem
          rw [refOf, call.key_dimension, hd call rfl] at hkey
          exact congrArg some hkey

/-- A row's own references, seen through dimensions that have grown. -/
theorem Progress.keyed_ref (hok : db₀.Ok) (h : DbProgress sdk db₀ done db)
    {d : Dimension} {id : Option Nat}
    (hid : ∀ i ∈ id, (d, i) ∈ db₀.store.names.map refOf) :
    (id.map fun i => keyOf db.store.dims (d, i)) =
      id.map fun i => keyOf db₀.store.dims (d, i) := by
  cases id with
  | none => rfl
  | some i =>
      exact congrArg some (keyOf_of_grows hok.store.names h.store.names
        h.progress.names (hid i rfl))

theorem UpdateOf.keyed (hok : db₀.Ok) (h : DbProgress sdk db₀ done db)
    {e : LegacyEvent Nat} (he : e ∈ db₀.events) {u : LegacyDecodedRowUpdate}
    {outcome : LegacyRawDecodeOutcome}
    (hu : UpdateOf sdk db.store e u outcome) :
    (u.apply e).keyed db.store.dims =
      decodedRow sdk (e.keyed db₀.store.dims) := by
  have hdecoded : decodeRow sdk (e.keyed db₀.store.dims) =
      .ok (outcome, u.tokenId) := hu.decoded
  have hcontract : ∀ c ∈ contractCall e outcome, c.dimension = .contracts := by
    intro c hc
    obtain ⟨symbol, -, rfl⟩ := Option.map_eq_some_iff.mp hc
    rfl
  have htarget : ∀ c ∈ targetCall e outcome, c.dimension = .addresses := by
    intro c hc
    obtain ⟨address, -, rfl⟩ := Option.map_eq_some_iff.mp hc
    rfl
  have hcontracts := hu.contract.keyed h.store.names hcontract
  have htargets := hu.target.keyed h.store.names htarget
  have hcontract₀ := Progress.keyed_ref hok h (hok.contracts e he)
  have htarget₀ := Progress.keyed_ref hok h (hok.targets e he)
  rw [decodedRow, hdecoded]
  simp only [LegacyEvent.keyed, LegacyDecodedRowUpdate.apply, Option.map_or,
    hcontracts, htargets, hcontract₀, htarget₀, hu.payload]
  rfl

/-- The whole table after runs. -/
theorem DbProgress.keyedEvents (hok : db₀.Ok) (h : DbProgress sdk db₀ done db) :
    db.keyedEvents = db₀.keyedEvents.map fun e =>
      if e.id ∈ done.map LegacyEvent.id then decodedRow sdk e else e := by
  obtain ⟨us, hus, hevents⟩ := h.progress.rows
  rw [LegacyDb.keyedEvents, LegacyDb.keyedEvents, hevents, List.map_map,
    List.map_map]
  refine List.map_congr_left fun e he => ?_
  have hupdate := hus.updateFor hok h.progress.front he
  rw [Function.comp_apply, Function.comp_apply]
  split at hupdate
  · next hmem =>
      obtain ⟨-, u, outcome, hu, hof⟩ := hupdate
      rw [rowAfter_of_some hu, hof.keyed hok h he]
      exact (if_pos hmem).symm
  · next hmem =>
      have hsame : e.keyed db.store.dims = e.keyed db₀.store.dims := by
        have hcontract := Progress.keyed_ref hok h (hok.contracts e he)
        have htarget := Progress.keyed_ref hok h (hok.targets e he)
        simp only [LegacyEvent.keyed, hcontract, htarget]
      rw [rowAfter_of_none hupdate, hsame]
      exact (if_neg hmem).symm

/-- The dimensions after a run to the end. -/
theorem DbProgress.contents (h : DbProgress sdk db₀ db₀.rawRows db) :
    db.store.contents = (db₀.rawRows.flatMap (rowKeys sdk)).foldl
      Contents.touch db₀.store.contents := by
  obtain ⟨keys, hcontents, hfront, hreach⟩ := h.progress.dims
  rw [hcontents, hreach.eq_of_length_le hfront.length_le]

/-- What any runs leave of a database. -/
structure LegacyConverges (sdk : LegacySdk) (db₀ : LegacyDb)
    (runs : List LegacyRunOutcome) (db : LegacyDb) : Prop where
  /-- Rows of another format stay as they are. -/
  frozen : List.Forall₂ (fun e e' => e.isRaw = false → e' = e) db₀.events
    db.events
  /-- No row is converted twice. -/
  once : (runs.flatMap LegacyRunOutcome.converted).Nodup
  /-- The other rows stay too, but for those that were converted. -/
  rows : List.Forall₂ (fun e e' =>
    if e.id ∈ runs.flatMap LegacyRunOutcome.converted then
      ∃ outcome, ConvertedRow sdk e e' outcome
    else e' = e) db₀.events db.events
  /-- The next run comes back, and its loop needs no more than it is given. -/
  terminates : ∀ calls, ∃ out,
    decodeLegacyRawEventsOnce sdk calls db = some out ∧
    ∀ fuel ≥ db.events.length + 1,
      decodeLoop sdk fuel (db.start calls) 0 = some out
  /-- After a run that returned there is nothing left to convert. -/
  finished : (∃ a ∈ runs.getLast?, a.ok = true) →
    ∀ e ∈ db.events, e.isRaw = true → e.id ≤ 0
  /-- And the tables are those of one run without a stop. -/
  sameAsOne : (∃ a ∈ runs.getLast?, a.ok = true) →
    ∃ report run,
      decodeLegacyRawEventsOnce sdk none db₀ = some (.ok report, run) ∧
      db.keyedEvents = run.stop.keyedEvents ∧
      db.store.contents = run.stop.store.contents

/-- Runs of the one-shot decode, each stopped at any call or not at all,
convert each raw row at most once and leave every other row alone; they come
back, and once one of them returns they have done what a single one would. -/
theorem legacy_decode_converges (hok : db₀.Ok) {runs : List LegacyRunOutcome}
    (hruns : Steps (LegacyRunStep sdk) db₀ runs db) :
    LegacyConverges sdk db₀ runs db := by
  obtain ⟨done, hprogress, hperm, hfinished⟩ :=
    (dbProgress_start hok).steps hok hruns
  rw [List.nil_append] at hprogress hfinished
  obtain ⟨us, hus, hevents⟩ := hprogress.progress.rows
  have hupdate := fun e he =>
    @UpdatesOf.updateFor sdk db₀ done db.store us hok hprogress.progress.front
      hus e he
  refine ⟨?_, ?_, ?_, ?_, ?_, ?_⟩
  · rw [hevents, List.forall₂_map_right_iff]
    refine List.forall₂_same.mpr fun e _ hraw => ?_
    exact rowAfter_of_none (updateFor_of_not_raw hraw)
  · refine hperm.nodup_iff.mpr (hok.rawRows_ids.sublist ?_)
    exact hprogress.progress.front.sublist.map _
  · rw [hevents, List.forall₂_map_right_iff]
    refine List.forall₂_same.mpr fun e he => ?_
    have hrow := hupdate e he
    split at hrow
    · next hmem =>
        obtain ⟨hraw, u, outcome, hu, hof⟩ := hrow
        rw [if_pos (hperm.mem_iff.mpr hmem), rowAfter_of_some hu]
        exact ⟨outcome, hof.converted hraw⟩
    · next hmem =>
        rw [if_neg fun hlog => hmem (hperm.mem_iff.mp hlog)]
        exact rowAfter_of_none hrow
  · intro calls
    obtain ⟨result, run, new, hrun, -⟩ := decodeOnce_spec hok hprogress calls
    refine ⟨_, hrun, fun fuel hfuel => ?_⟩
    exact decodeLoop_of_le _ fuel hfuel hrun
  · rintro ⟨a, ha, haok⟩ e he hraw
    have hall := hfinished a ha haok
    rw [hevents] at he
    obtain ⟨hmem, hraw', hnot⟩ :=
      (Progress.mem_raw hus).mp (List.mem_filter.mpr ⟨he, hraw⟩)
    by_contra hpos
    refine hnot (List.mem_map_of_mem ?_)
    rw [hall]
    exact mem_rawRows.mpr ⟨hmem, hraw', by omega⟩
  · rintro ⟨a, ha, haok⟩
    have hall := hfinished a ha haok
    subst hall
    obtain ⟨result, run, new, hrun, hends⟩ :=
      decodeOnce_spec hok (dbProgress_start hok) none
    cases result with
    | error e =>
        obtain ⟨row, hrow, e', herror⟩ := hends.stopped rfl rfl
        have hmine := hupdate row (mem_rawRows.mp hrow).1
        rw [if_pos (List.mem_map_of_mem hrow)] at hmine
        obtain ⟨-, u, outcome, -, hof⟩ := hmine
        rw [hof.decoded] at herror
        cases herror
    | ok report =>
        have hsingle : DbProgress sdk db₀ db₀.rawRows run.stop := by
          have hnew := hends.finished rfl
          rw [List.nil_append] at hnew
          rw [← hnew]
          exact ⟨hends.ok.view, hends.progress⟩
        refine ⟨report, run, hrun, ?_, ?_⟩
        · rw [hprogress.keyedEvents hok, hsingle.keyedEvents hok]
        · rw [hprogress.contents, hsingle.contents]

end

/-- A raw order and a row of another format. -/
def orderDb : LegacyDb where
  events := [
    { id := 5
      chainId := 1
      chainName := "main"
      eventKind := "OrderCreated"
      rawData := some orderCreated.data
      payloadFormat := some 3
      payloadJson := some (textObject [("raw_data", orderCreated.data)])
      tokenId := none
      contract := some 1
      targetAddress := none
      blockHeight := 7
      txIndex := 0
      eventIndex := 1 },
    { id := 6
      chainId := 1
      chainName := "main"
      eventKind := "TokenSend"
      rawData := none
      payloadFormat := some 1
      payloadJson := none
      tokenId := none
      contract := some 1
      targetAddress := none
      blockHeight := 7
      txIndex := 0
      eventIndex := 2 }]
  store :=
    { dims := [⟨⟨.contract 1 "market", some "market", some "market"⟩, 1⟩]
      rows := [] }
  sequences := fun _ => 2

theorem orderDb_ok : orderDb.Ok where
  ids := by decide
  store := by
    refine ⟨⟨by decide, by decide, by decide, ?_, ?_⟩, ?_⟩
    · exact fun x _ hx => hx
    · exact fun x hx => absurd hx (Set.notMem_empty x)
    · exact fun row hrow => absurd hrow List.not_mem_nil
  contracts := by decide
  targets := by decide

def runTwice (sdk : LegacySdk) (db : LegacyDb) (first second : Option Nat) :
    Option ((Bool × List Int) × (Bool × List Int)) :=
  (decodeLegacyRawEventsOnce sdk first db).bind fun x =>
    (decodeLegacyRawEventsOnce sdk second x.2.stop).map fun y =>
      ((x.1.toBool, x.2.converted), (y.1.toBool, y.2.converted))

/-- A run that stops at the update of its batch, and one that does not. -/
theorem legacy_decode_converges_of_order :
    ∃ db, Steps (LegacyRunStep byteSdk) orderDb
        [⟨some 2, false, []⟩, ⟨none, true, [5]⟩] db ∧
      LegacyConverges byteSdk orderDb
        [⟨some 2, false, []⟩, ⟨none, true, [5]⟩] db := by
  have hruns : runTwice byteSdk orderDb (some 2) none =
      some ((false, []), (true, [5])) := by decide +kernel
  obtain ⟨⟨result, run⟩, hfirst, hrest⟩ := Option.bind_eq_some_iff.mp hruns
  obtain ⟨⟨result', run'⟩, hsecond, hout⟩ := Option.map_eq_some_iff.mp hrest
  simp only [Prod.mk.injEq] at hout
  obtain ⟨⟨hok, hconverted⟩, hok', hconverted'⟩ := hout
  have hsteps : Steps (LegacyRunStep byteSdk) orderDb
      [⟨some 2, false, []⟩, ⟨none, true, [5]⟩] run'.stop :=
    .cons ⟨result, run, hfirst, hok.symm, hconverted.symm, rfl⟩
      (.cons ⟨result', run', hsecond, hok'.symm, hconverted'.symm, rfl⟩
        (.nil _))
  exact ⟨run'.stop, hsteps, legacy_decode_converges orderDb_ok hsteps⟩

end Explorer.Ref
