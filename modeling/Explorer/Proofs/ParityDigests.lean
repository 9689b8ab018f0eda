import Explorer.Lib.Joined
import Explorer.Lib.Results
import Explorer.Ref.Parity

/-!
# What the parity tool can tell

The migrations took `date_unix_seconds`, `nsfw` and `blacklisted` from the
events, and the queries for events still name them. So `block_range_digests`
fails on every database of the renamed schema, before any report.

The queries that run have troubles of their own. The C# lists name columns the
renamed ones have not, so for the same data the two texts are equal on an empty
range only. And a line is no more than its fields with `|` between them: it
does not tell `NULL` from the text `<NULL>`, nor a `|` of a field from the next
field. Without such texts it tells all (`digestText_faithful`).
-/

namespace Explorer.Ref

open Explorer.Lib

/-! ## The events of the renamed schema -/

theorem events_not_prepared (mode : BlockRangeMode) :
    prepareError renamedColumns (digestFields .renamed mode .events) =
      some "column event.date_unix_seconds does not exist" := by
  cases mode <;> rfl

section

variable {md5 : String → String} {legacyColumns : SqlColumns}

theorem digestQuery_events_error (db : ParityDb) (mode : BlockRangeMode)
    (chain : String) (first last : Int) :
    ∃ error, digestQuery md5 legacyColumns db .renamed mode .events chain first
      last = .error error := by
  rw [digestQuery, schemaColumns]
  simp only [events_not_prepared]
  exact ⟨_, rfl⟩

/-- No database of the renamed schema has digests. -/
theorem blockRangeDigests_renamed (db : RenamedDb) (chain : String)
    (first last : Int) (mode : BlockRangeMode) :
    ∃ error, blockRangeDigests md5 legacyColumns db.toParityDb chain first last
      mode = .error error := by
  obtain ⟨error, hevents⟩ := @digestQuery_events_error md5 legacyColumns
    db.toParityDb mode chain first last
  cases hres : blockRangeDigests md5 legacyColumns db.toParityDb chain first
      last mode with
  | error e => exact ⟨e, rfl⟩
  | ok tables =>
      rw [blockRangeDigests, db.detected] at hres
      obtain ⟨schema, hschema, hres⟩ := bind_eq_ok hres
      cases hschema
      obtain ⟨blocks, -, hres⟩ := bind_eq_ok hres
      obtain ⟨transactions, -, hres⟩ := bind_eq_ok hres
      obtain ⟨events, hok, hres⟩ := bind_eq_ok hres
      rw [hevents] at hok
      cases hok

end

/-! ## Lines and their fields -/

def DigestField.isOrNull : DigestField → Bool
  | .orNull _ => true
  | _ => false

/-- A field is its value, with the text for `NULL` where it has one. -/
theorem DigestField.eval_eq (row : SqlRow) (field : DigestField) :
    field.eval row =
      if field.isOrNull then some ((field.value row).getD "<NULL>")
      else field.value row := by
  induction field with
  | column source name => rfl
  | cast source name => rfl
  | hex source name => rfl
  | orNull field ih =>
      rw [eval, ih]
      cases field.isOrNull <;> rfl

/-- The columns of a row that are digested, `NULL` kept apart. -/
def digestColumns (fields : List DigestField) (row : SqlRow) :
    List (Option String) :=
  fields.map fun field => field.value row

/-- Every field of the row has a text. -/
def Complete (fields : List DigestField) (row : SqlRow) : Prop :=
  ∀ field ∈ fields, (field.eval row).isSome = true

/-- No field of the row holds a separator. -/
def SeparatorFree (fields : List DigestField) (row : SqlRow) : Prop :=
  ∀ field ∈ fields, ∀ text, field.eval row = some text →
    '|' ∉ text.toList ∧ '\n' ∉ text.toList

/-- No column that may be `NULL` has the text that stands for it. -/
def NullFree (fields : List DigestField) (row : SqlRow) : Prop :=
  ∀ field ∈ fields, field.isOrNull = true → field.value row ≠ some "<NULL>"

/-- The texts of a line. -/
def lineTexts (fields : List DigestField) (row : SqlRow) : List String :=
  fields.map fun field => (field.eval row).getD ""

section

variable {fields : List DigestField} {row row' : SqlRow}

theorem arrayToString_complete (h : Complete fields row) :
    arrayToString (fields.map fun field => field.eval row) =
      "|".intercalate (lineTexts fields row) := by
  rw [arrayToString, lineTexts]
  congr 1
  induction fields with
  | nil => rfl
  | cons field rest ih =>
      obtain ⟨text, htext⟩ := Option.isSome_iff_exists.1 (h field (by simp))
      simp only [List.map_cons, htext, Option.getD_some]
      rw [List.filterMap_cons_some (id_eq _),
        ih fun f hf => h f (by simp [hf])]

theorem eval_of_lineTexts (h : Complete fields row) (h' : Complete fields row')
    (heq : lineTexts fields row = lineTexts fields row') :
    ∀ field ∈ fields, field.eval row = field.eval row' := by
  intro field hfield
  have htext := List.map_inj_left.1 heq field hfield
  obtain ⟨text, hrow⟩ := Option.isSome_iff_exists.1 (h field hfield)
  obtain ⟨text', hrow'⟩ := Option.isSome_iff_exists.1 (h' field hfield)
  rw [hrow, hrow'] at htext ⊢
  exact congrArg some htext

theorem digestColumns_of_eval (h : NullFree fields row)
    (h' : NullFree fields row')
    (heq : ∀ field ∈ fields, field.eval row = field.eval row') :
    digestColumns fields row = digestColumns fields row' := by
  refine List.map_congr_left fun field hfield => ?_
  have heq := heq field hfield
  rw [DigestField.eval_eq, DigestField.eval_eq] at heq
  split at heq
  · rename_i hnull
    have hnot := h field hfield hnull
    have hnot' := h' field hfield hnull
    cases hv : field.value row with
    | none =>
        cases hv' : field.value row' with
        | none => rfl
        | some text =>
            rw [hv, hv'] at heq
            rw [hv'] at hnot'
            exact absurd heq.symm hnot'
    | some text =>
        cases hv' : field.value row' with
        | none =>
            rw [hv, hv'] at heq
            rw [hv] at hnot
            exact absurd heq hnot
        | some text' =>
            rw [hv, hv'] at heq
            exact heq
  · exact heq

theorem eval_of_digestColumns
    (heq : digestColumns fields row = digestColumns fields row') :
    ∀ field ∈ fields, field.eval row = field.eval row' := by
  intro field hfield
  have hvalue := List.map_inj_left.1 heq field hfield
  rw [DigestField.eval_eq, DigestField.eval_eq, hvalue]

/-- A line without separators in its fields has no line end. -/
theorem newline_notMem_line (h : Complete fields row)
    (hfree : SeparatorFree fields row) :
    '\n' ∉ (arrayToString (fields.map fun field => field.eval row)).toList := by
  rw [arrayToString_complete h, String.toList_intercalate]
  intro hmem
  obtain hsep | ⟨chars, hchars, hin⟩ := mem_intercalate hmem
  · exact absurd hsep (by decide)
  obtain ⟨part, hpart, rfl⟩ := List.mem_map.1 hchars
  obtain ⟨field, hfield, rfl⟩ := List.mem_map.1 hpart
  obtain ⟨text, htext⟩ := Option.isSome_iff_exists.1 (h field hfield)
  rw [htext] at hin
  exact (hfree field hfield text htext).2 hin

end

/-- As many rows, without a missing field, a separator or the text that stands
for `NULL`, have the same text only with the same columns. The separators need
to be missing on one side only. -/
theorem digestText_faithful {fields : List DigestField}
    {rows rows' : List SqlRow} (hlen : rows.length = rows'.length)
    (hcomplete : ∀ row ∈ rows, Complete fields row)
    (hcomplete' : ∀ row ∈ rows', Complete fields row)
    (hfree : ∀ row ∈ rows, SeparatorFree fields row)
    (hnull : ∀ row ∈ rows, NullFree fields row)
    (hnull' : ∀ row ∈ rows', NullFree fields row) :
    digestText fields rows = digestText fields rows' ↔
      rows.map (digestColumns fields) = rows'.map (digestColumns fields) := by
  rw [← List.forall₂_eq_eq_eq, List.forall₂_map_left_iff,
    List.forall₂_map_right_iff]
  constructor
  · intro h
    rw [digestText, digestText] at h
    have hlines := string_intercalate_inj rfl (by simpa using hlen) (by
      intro line hline
      obtain ⟨row, hrow, rfl⟩ := List.mem_map.1 hline
      exact newline_notMem_line (hcomplete row hrow) (hfree row hrow)) h
    rw [← List.forall₂_eq_eq_eq, List.forall₂_map_left_iff,
      List.forall₂_map_right_iff] at hlines
    refine (List.forall₂_iff_get.1 hlines).imp id ?_ |> List.forall₂_iff_get.2
    intro hget i hi hi'
    have hline := hget i hi hi'
    have hrow := List.get_mem rows ⟨i, hi⟩
    have hrow' := List.get_mem rows' ⟨i, hi'⟩
    rw [arrayToString_complete (hcomplete _ hrow),
      arrayToString_complete (hcomplete' _ hrow')] at hline
    have htexts := string_intercalate_inj rfl (by simp [lineTexts]) (by
      intro text htext
      obtain ⟨field, hfield, rfl⟩ := List.mem_map.1 htext
      obtain ⟨text, hsome⟩ :=
        Option.isSome_iff_exists.1 (hcomplete _ hrow field hfield)
      rw [hsome]
      exact (hfree _ hrow field hfield text hsome).1) hline
    exact digestColumns_of_eval (hnull _ hrow) (hnull' _ hrow')
      (eval_of_lineTexts (hcomplete _ hrow) (hcomplete' _ hrow') htexts)
  · intro h
    rw [digestText, digestText]
    congr 1
    rw [← List.forall₂_eq_eq_eq, List.forall₂_map_left_iff,
      List.forall₂_map_right_iff]
    refine h.imp fun row row' heq => ?_
    rw [List.map_congr_left (eval_of_digestColumns heq)]

/-! ## Two databases of the renamed schema -/

/-- The two hold the same rows of a table in the columns that are digested. -/
def SameRows (reference candidate : RenamedDb) (table : DigestTable)
    (chain : String) (first last : Int) : Prop :=
  (reference.range .renamed table chain first last).map
      (digestColumns (digestFields .renamed .semantic table)) =
    (candidate.range .renamed table chain first last).map
      (digestColumns (digestFields .renamed .semantic table))

/-- The tool reports, and what it reports of the transactions and the events is
equal exactly when the rows are the same. -/
def DigestsFaithful (md5 : String → String) (legacyColumns : SqlColumns)
    (reference candidate : RenamedDb) (chain : String) (first last : Int) :
    Prop :=
  ∃ report, blockRangeParity md5 legacyColumns reference.toParityDb
      candidate.toParityDb chain first last .semantic = .ok report ∧
    ((∀ table ∈ report.tables,
        table.table = .transactions ∨ table.table = .events →
          table.isMatch = true) ↔
      SameRows reference candidate .transactions chain first last ∧
        SameRows reference candidate .events chain first last)

theorem blockRangeParity_candidate {md5 : String → String}
    {legacyColumns : SqlColumns} {reference : ParityDb} (candidate : RenamedDb)
    {chain : String} {first last : Int} {mode : BlockRangeMode} :
    ∃ error, blockRangeParity md5 legacyColumns reference candidate.toParityDb
      chain first last mode = .error error := by
  obtain ⟨error, hcandidate⟩ := @blockRangeDigests_renamed md5 legacyColumns
    candidate chain first last mode
  cases hres : blockRangeParity md5 legacyColumns reference
      candidate.toParityDb chain first last mode with
  | error e => exact ⟨e, rfl⟩
  | ok report =>
      rw [blockRangeParity] at hres
      obtain ⟨referenceTables, -, hres⟩ := bind_eq_ok hres
      obtain ⟨candidateTables, hok, hres⟩ := bind_eq_ok hres
      rw [hcandidate] at hok
      cases hok

/-- There is no report of two databases of the renamed schema. -/
theorem digests_never_faithful (md5 : String → String)
    (legacyColumns : SqlColumns) (reference candidate : RenamedDb)
    (chain : String) (first last : Int) :
    ¬ DigestsFaithful md5 legacyColumns reference candidate chain first
      last := by
  rintro ⟨report, hreport, -⟩
  obtain ⟨error, herror⟩ := blockRangeParity_candidate candidate
  rw [herror] at hreport
  cases hreport

/-! ### Rows that read the same -/

/-- A row from its cells. -/
def rowOf (cells : List ((String × String) × SqlValue)) : SqlRow :=
  fun source name => cells.lookup (source, name)

def cellConforms (columns : SqlColumns)
    (cell : (String × String) × SqlValue) : Bool :=
  (columns cell.1.1 cell.1.2).any fun type => cell.2.hasType type

theorem mem_of_lookup {κ ν : Type} [BEq κ] [LawfulBEq κ] {key : κ} {value : ν}
    {cells : List (κ × ν)} (h : cells.lookup key = some value) :
    (key, value) ∈ cells := by
  induction cells with
  | nil => cases h
  | cons cell rest ih =>
      obtain ⟨k, v⟩ := cell
      rw [List.lookup_cons] at h
      split at h
      · rename_i heq
        obtain rfl := eq_of_beq heq
        cases h
        exact List.mem_cons_self
      · exact List.mem_cons_of_mem _ (ih h)

theorem conforms_rowOf {columns : SqlColumns}
    {cells : List ((String × String) × SqlValue)}
    (h : cells.all (cellConforms columns) = true) :
    Conforms columns (rowOf cells) := by
  intro source name value hvalue
  have hcell := List.all_eq_true.1 h _ (mem_of_lookup hvalue)
  obtain ⟨type, hmem, htype⟩ := (Option.any_eq_true _ _).1 hcell
  exact ⟨type, hmem, htype⟩

/-- The first transaction of the first block, with more columns. -/
def firstTransaction (more : List ((String × String) × SqlValue)) :
    List ((String × String) × SqlValue) :=
  [(("chain", "name"), .text "main"), (("block", "height"), .int 1),
    (("block", "hash"), .text "B1"),
    (("block", "timestamp_unix_seconds"), .int 10),
    (("block", "protocol"), .int 18), (("tx", "tx_index"), .int 0),
    (("tx", "hash"), .text "T1"), (("tx", "timestamp_unix_seconds"), .int 10),
    (("tx", "expiration"), .int 20), (("state", "name"), .text "Halt")] ++ more

/-- A database of that block and transaction. -/
def oneTransactionDb (more : List ((String × String) × SqlValue))
    (h : (firstTransaction more).all (cellConforms renamedColumns) = true) :
    RenamedDb where
  hasBlocks := true
  hasLegacyBlocks := false
  rows
    | .blocks => [rowOf (firstTransaction more)]
    | .transactions => [rowOf (firstTransaction more)]
    | _ => []
  detected := rfl
  conforms := by
    intro table row hrow
    cases table <;> simp only [List.mem_singleton, List.not_mem_nil] at hrow
    all_goals
      subst hrow
      exact conforms_rowOf h

def noPayload : RenamedDb := oneTransactionDb [] (by decide)

def nullPayload : RenamedDb :=
  oneTransactionDb [(("tx", "payload"), .text "<NULL>")] (by decide)

def shortPayload : RenamedDb :=
  oneTransactionDb [(("tx", "payload"), .text "a"),
    (("tx", "script_raw"), .bytes [0xAB]),
    (("tx", "result"), .text "CD|x")] (by decide)

def longPayload : RenamedDb :=
  oneTransactionDb [(("tx", "payload"), .text "a|AB"),
    (("tx", "script_raw"), .bytes [0xCD]),
    (("tx", "result"), .text "x")] (by decide)

/-- A database has no digests to compare with its own. The texts of the
transactions would not do either: the first two differ in a payload, as do the
last two, and read the same. -/
theorem parity_reports_nothing :
    ¬ DigestsFaithful id (fun _ _ => none) noPayload noPayload "main" 1 1 ∧
      (¬ SameRows noPayload nullPayload .transactions "main" 1 1 ∧
        digestText semanticTransactions
            (noPayload.range .renamed .transactions "main" 1 1) =
          digestText semanticTransactions
            (nullPayload.range .renamed .transactions "main" 1 1)) ∧
      ¬ SameRows shortPayload longPayload .transactions "main" 1 1 ∧
        digestText semanticTransactions
            (shortPayload.range .renamed .transactions "main" 1 1) =
          digestText semanticTransactions
            (longPayload.range .renamed .transactions "main" 1 1) := by
  refine ⟨?_, ⟨?_, ?_⟩, ?_, ?_⟩
  · rintro ⟨report, hreport, -⟩
    cases hreport
  · rw [SameRows]
    decide
  · decide
  · rw [SameRows]
    decide
  · decide

/-! ## Two schemas -/

open DigestField in
/-- The columns that only the C# lists have. -/
def legacyOnly : DigestTable → List DigestField
  | .blocks => [orNull (column "block" "PREVIOUS_HASH")]
  | .transactions =>
      [orNull (column "tx" "FEE"), orNull (column "tx" "GAS_PRICE"),
        orNull (column "tx" "GAS_LIMIT")]
  | _ => []

def isLegacyOnly (table : DigestTable) (field : DigestField) : Bool :=
  (legacyOnly table).contains field

/-- The columns of the C# list that the renamed list has too, in order. -/
def sharedFields (table : DigestTable) : List DigestField :=
  (digestFields .legacyCsharp .semantic table).filter fun field =>
    !isLegacyOnly table field

/-- The two hold the same rows of a table, in the columns that the renamed list
has. -/
def SameData (reference : LegacyCsharpDb) (candidate : RenamedDb)
    (chain : String) (first last : Int) (table : DigestTable) : Prop :=
  List.Forall₂ (fun row row' =>
      digestColumns (sharedFields table) row =
        digestColumns (digestFields .renamed .semantic table) row')
    (reference.range .legacyCsharp table chain first last)
    (candidate.range .renamed table chain first last)

/-- The tool reports equal digests of the blocks and the transactions. -/
def ReportsEqual (md5 : String → String) (legacyColumns : SqlColumns)
    (reference : LegacyCsharpDb) (candidate : RenamedDb) (chain : String)
    (first last : Int) : Prop :=
  ∃ report, blockRangeParity md5 legacyColumns reference.toParityDb
      candidate.toParityDb chain first last .semantic = .ok report ∧
    ∀ table ∈ report.tables,
      table.table = .blocks ∨ table.table = .transactions →
        table.referenceDigest = table.candidateDigest

/-- What a field adds to a line, with its separator. -/
def textLength : Option String → Nat
  | none => 0
  | some text => text.length + 1

theorem length_arrayToString {texts : List (Option String)}
    (h : ∃ text, some text ∈ texts) :
    (arrayToString texts).length + 1 = (texts.map textLength).sum := by
  have hne : texts.filterMap id ≠ [] := by
    obtain ⟨text, hmem⟩ := h
    exact List.ne_nil_of_mem (List.mem_filterMap.2 ⟨some text, hmem, rfl⟩)
  have hlen := @length_intercalate "|" _ hne
  rw [arrayToString]
  refine hlen.trans ?_
  clear hlen hne h
  induction texts with
  | nil => rfl
  | cons text rest ih =>
      cases text with
      | none =>
          rw [List.filterMap_cons_none (id_eq _), ih, List.map_cons,
            List.sum_cons, textLength, Nat.zero_add]
      | some text =>
          rw [List.filterMap_cons_some (id_eq _), List.map_cons, List.sum_cons,
            ih]
          rfl

theorem sum_lt_of_forall₂ {α β : Type} {f : α → Nat} {g : β → Nat}
    {l : List α} {l' : List β} (h : List.Forall₂ (fun a b => f a < g b) l l')
    (hne : l ≠ []) : (l.map f).sum < (l'.map g).sum := by
  induction h with
  | nil => exact absurd rfl hne
  | cons hab hrest ih =>
      rename_i a b rest rest'
      simp only [List.map_cons, List.sum_cons]
      by_cases hnil : rest = []
      · subst hnil
        cases hrest
        simpa using hab
      · have := ih hnil
        omega

section

variable {table : DigestTable} {row row' : SqlRow}

/-- Fields with the same values, and `NULL` written out in the same places,
read the same. -/
theorem eval_of_columns {fields fields' : List DigestField}
    (hshape : fields.map DigestField.isOrNull =
      fields'.map DigestField.isOrNull)
    (h : digestColumns fields row = digestColumns fields' row') :
    (fields.map fun field => field.eval row) =
      fields'.map fun field => field.eval row' := by
  induction fields generalizing fields' with
  | nil =>
      cases fields' with
      | nil => rfl
      | cons field' rest' => cases hshape
  | cons field rest ih =>
      cases fields' with
      | nil => cases hshape
      | cons field' rest' =>
          simp only [digestColumns, List.map_cons, List.cons.injEq] at hshape h
          rw [List.map_cons, List.map_cons, ih hshape.2 h.2,
            DigestField.eval_eq, DigestField.eval_eq, hshape.1, h.1]

/-- The line of the C# list is longer by what only it has. -/
theorem line_longer (htable : table = .blocks ∨ table = .transactions)
    (hheight : ∃ text, some text ∈
      (digestFields .renamed .semantic table).map fun field => field.eval row')
    (h : digestColumns (sharedFields table) row =
      digestColumns (digestFields .renamed .semantic table) row') :
    (arrayToString ((digestFields .renamed .semantic table).map
        fun field => field.eval row')).length <
      (arrayToString ((digestFields .legacyCsharp .semantic table).map
        fun field => field.eval row)).length := by
  have hshape : (sharedFields table).map DigestField.isOrNull =
      (digestFields .renamed .semantic table).map DigestField.isOrNull := by
    obtain rfl | rfl := htable <;> decide
  -- The C# fields are the ones it has alone and the shared ones.
  have hperm := ((digestFields .legacyCsharp .semantic table).filter_append_perm
    (isLegacyOnly table)).map fun field => textLength (field.eval row)
  have hsum := hperm.sum_eq
  rw [List.map_append, List.sum_append] at hsum
  have hshared : ((sharedFields table).map fun field =>
      textLength (field.eval row)).sum =
      (arrayToString ((digestFields .renamed .semantic table).map
        fun field => field.eval row')).length + 1 := by
    rw [length_arrayToString hheight, ← eval_of_columns hshape h, List.map_map]
    rfl
  obtain ⟨field, hmem, hnull⟩ : ∃ field ∈
      (digestFields .legacyCsharp .semantic table).filter (isLegacyOnly table),
      field.isOrNull = true := by
    obtain rfl | rfl := htable <;> decide
  have htext : field.eval row = some ((field.value row).getD "<NULL>") := by
    rw [DigestField.eval_eq, if_pos hnull]
  have honly : textLength (field.eval row) ≤
      (((digestFields .legacyCsharp .semantic table).filter
        (isLegacyOnly table)).map fun field =>
          textLength (field.eval row)).sum :=
    List.single_le_sum (by simp) _ (List.mem_map.2 ⟨field, hmem, rfl⟩)
  rw [htext, textLength] at honly
  have hlegacy := @length_arrayToString
    ((digestFields .legacyCsharp .semantic table).map fun field =>
      field.eval row)
    ⟨_, List.mem_map.2 ⟨field, List.mem_of_mem_filter hmem, htext⟩⟩
  rw [List.map_map] at hlegacy
  simp only [Function.comp_def] at hlegacy
  rw [sharedFields] at hshared
  omega

theorem length_digestText {fields : List DigestField} {rows : List SqlRow}
    (h : rows ≠ []) :
    (digestText fields rows).length + 1 =
      (rows.map fun row => (arrayToString
        (fields.map fun field => field.eval row)).length + 1).sum := by
  have hlen := @length_intercalate "\n" (rows.map fun row =>
    arrayToString (fields.map fun field => field.eval row)) (by simpa using h)
  rw [List.map_map] at hlen
  exact hlen

/-- A row in range has a height, so its line has a field. -/
theorem eval_height {chain : String} {first last : Int}
    (htable : table = .blocks ∨ table = .transactions)
    (h : inRange .renamed chain first last row = true) :
    ∃ text, some text ∈
      (digestFields .renamed .semantic table).map fun field =>
        field.eval row := by
  simp only [inRange, Bool.and_eq_true] at h
  have hheight := h.2
  cases hvalue : row "block" "height" with
  | none =>
      rw [hvalue] at hheight
      cases hheight
  | some value =>
      refine ⟨value.toText, List.mem_map.2 ⟨.cast "block" "height", ?_, ?_⟩⟩
      · obtain rfl | rfl := htable <;> decide
      · simp [DigestField.eval, DigestField.value, hvalue]

end

/-- The texts of the two lists agree on an empty range only. -/
theorem digestText_eq_iff_empty {reference : LegacyCsharpDb}
    {candidate : RenamedDb} {chain : String} {first last : Int}
    {table : DigestTable} (htable : table = .blocks ∨ table = .transactions)
    (h : SameData reference candidate chain first last table) :
    digestText (digestFields .legacyCsharp .semantic table)
        (reference.range .legacyCsharp table chain first last) =
      digestText (digestFields .renamed .semantic table)
        (candidate.range .renamed table chain first last) ↔
    candidate.range .renamed table chain first last = [] := by
  constructor
  · intro heq
    by_contra hne
    have hne' : reference.range .legacyCsharp table chain first last ≠ [] := by
      intro hnil
      rw [SameData, hnil] at h
      cases hrange : candidate.range .renamed table chain first last with
      | nil => exact hne hrange
      | cons row rest =>
          rw [hrange] at h
          cases h
    have hlonger : List.Forall₂ (fun row' row =>
        (arrayToString ((digestFields .renamed .semantic table).map
          fun field => field.eval row')).length + 1 <
        (arrayToString ((digestFields .legacyCsharp .semantic table).map
          fun field => field.eval row)).length + 1)
        (candidate.range .renamed table chain first last)
        (reference.range .legacyCsharp table chain first last) := by
      refine (List.Forall₂.flip ?_)
      refine (List.forall₂_iff_get.2 ⟨h.length_eq, fun i hi hi' => ?_⟩)
      have hrow' := List.get_mem
        (candidate.range .renamed table chain first last) ⟨i, hi'⟩
      exact Nat.succ_lt_succ (line_longer htable
        (eval_height htable (List.mem_filter.1 hrow').2) (h.get hi hi'))
    have hlt := sum_lt_of_forall₂ hlonger hne
    rw [← length_digestText hne, ← length_digestText hne', heq] at hlt
    exact lt_irrefl _ hlt
  · intro hnil
    rw [SameData, hnil] at h
    cases hrange : reference.range .legacyCsharp table chain first last with
    | nil =>
        rw [hnil]
        rfl
    | cons row rest =>
        rw [hrange] at h
        cases h

/-- For the same data the tool reports nothing, and the two lists by themselves
give the same text on empty ranges only. -/
theorem crossSchema_never_equal (md5 : String → String)
    (legacyColumns : SqlColumns) {reference : LegacyCsharpDb}
    {candidate : RenamedDb} {chain : String} {first last : Int}
    (h : ∀ table, table = .blocks ∨ table = .transactions →
      SameData reference candidate chain first last table) :
    ¬ ReportsEqual md5 legacyColumns reference candidate chain first last ∧
      ∀ table, table = .blocks ∨ table = .transactions →
        (digestText (digestFields .legacyCsharp .semantic table)
            (reference.range .legacyCsharp table chain first last) =
          digestText (digestFields .renamed .semantic table)
            (candidate.range .renamed table chain first last) ↔
        candidate.range .renamed table chain first last = []) := by
  refine ⟨?_, fun table htable =>
    digestText_eq_iff_empty htable (h table htable)⟩
  rintro ⟨report, hreport, -⟩
  obtain ⟨error, herror⟩ := blockRangeParity_candidate candidate
  rw [herror] at hreport
  cases hreport

/-! ### A block in both schemas -/

/-- The same block and transaction as the C# tables have it. -/
def legacyFirstTransaction : SqlRow :=
  rowOf [(("chain", "NAME"), .text "main"), (("block", "HEIGHT"), .int 1),
    (("block", "HASH"), .text "B1"), (("block", "PREVIOUS_HASH"), .text "B0"),
    (("block", "TIMESTAMP_UNIX_SECONDS"), .int 10),
    (("block", "PROTOCOL"), .int 18), (("tx", "INDEX"), .int 0),
    (("tx", "HASH"), .text "T1"), (("tx", "TIMESTAMP_UNIX_SECONDS"), .int 10),
    (("tx", "EXPIRATION"), .int 20), (("state", "NAME"), .text "Halt")]

def legacyDb : LegacyCsharpDb where
  hasBlocks := false
  hasLegacyBlocks := true
  rows
    | .blocks => [legacyFirstTransaction]
    | .transactions => [legacyFirstTransaction]
    | _ => []
  detected := rfl

theorem sameData_legacyDb (table : DigestTable)
    (htable : table = .blocks ∨ table = .transactions) :
    SameData legacyDb noPayload "main" 1 1 table := by
  have hlegacy : legacyDb.range .legacyCsharp table "main" 1 1 =
      [legacyFirstTransaction] := by
    obtain rfl | rfl := htable <;> rfl
  have hrenamed : noPayload.range .renamed table "main" 1 1 =
      [rowOf (firstTransaction [])] := by
    obtain rfl | rfl := htable <;> rfl
  rw [SameData, hlegacy, hrenamed]
  refine .cons ?_ .nil
  obtain rfl | rfl := htable <;> decide

theorem crossSchema_never_equal_legacyDb :
    (∀ table, table = .blocks ∨ table = .transactions →
      SameData legacyDb noPayload "main" 1 1 table) ∧
    ¬ ReportsEqual id (fun _ _ => some .text) legacyDb noPayload "main" 1 1 :=
  ⟨sameData_legacyDb,
    (crossSchema_never_equal id (fun _ _ => some .text) sameData_legacyDb).1⟩

/-- The block and the transaction are the same, and there is no report; nor are
the texts of the block. -/
theorem sameData_not_reported :
    (∀ table, table = .blocks ∨ table = .transactions →
      SameData legacyDb noPayload "main" 1 1 table) ∧
    ¬ ReportsEqual id (fun _ _ => some .text) legacyDb noPayload "main" 1 1 ∧
    digestText legacySemanticBlocks
        (legacyDb.range .legacyCsharp .blocks "main" 1 1) =
      "1|B1|B0|10|18|<NULL>|<NULL>|<NULL>" ∧
    digestText semanticBlocks
        (noPayload.range .renamed .blocks "main" 1 1) =
      "1|B1|10|18|<NULL>|<NULL>|<NULL>" := by
  refine ⟨sameData_legacyDb, ?_, by decide, by decide⟩
  rintro ⟨report, hreport, -⟩
  cases hreport

end Explorer.Ref
