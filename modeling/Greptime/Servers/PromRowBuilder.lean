import Mathlib
import Greptime.Foundations.Bytes
import Greptime.Foundations.Columns
import Greptime.Foundations.Except
import Greptime.Servers.PromWrite

/-!
# The rows a table builder gives (`servers::prom_row_builder`)

`TableBuilder` turns the series of a remote write into the rows of one table, a row a sample.
It keeps the column names with their positions, adds a tag column the first time a label name
is met, writes each label's value at the column of its name, and the sample's timestamp and
value in the first two columns.  A row written before a column existed is shorter than the
table; `as_row_insert_request` fills it with nulls.

This module states what the rows are meant to be, a table of named values (`TableSpec`): the
columns are `greptime_timestamp`, `greptime_value` and then each tag name in the order it was
first met, and a sample gives the row holding in each column `rowCell` of its name: the
timestamp, the value, the value of the last label of that name in its series, or null.  A
label named as one of the first two columns is overwritten by the sample and adds no column.

`addLabelsAndSamples_asRowInsertRequest`: for every run of series from a new builder, the
request the builder gives is the table's, and the run fails exactly when a label's name or value
does not decode, with the first such error.  The proof reads a row as a function from column
names to cells (`Columns`) and carries `TableBuilder.Refines` along the run.
-/

namespace Greptime

open Protobuf Columns

/-! ## The table a run of series should give -/

lemma greptimeTimestamp_ne_greptimeValue : greptimeTimestamp ≠ greptimeValue := by
  intro h
  have hlen := congrArg List.length h
  rw [greptimeTimestamp, greptimeValue, Bytes.length_toList_toUTF8,
    Bytes.length_toList_toUTF8] at hlen
  exact absurd hlen (by decide)

/-- The names and values of labels as `decode_string` reads them, in turn, or the first
error. -/
def decodeLabels (mode : PromValidationMode) (labels : List PromLabel) :
    Except DecodeError (List (Protobuf.Bytes × Protobuf.Bytes)) :=
  labels.mapM fun label => do
    let name ← mode.decodeString label.name
    let value ← mode.decodeString label.value
    pure (name, value)

/-- The cell of a sample's row in the column of a name: the timestamp and the value in the two
columns every table has, and in a tag column the value of the series' last label of that name,
or null. -/
def rowCell (labels : List (Protobuf.Bytes × Protobuf.Bytes)) (sample : Sample)
    (name : Protobuf.Bytes) : Option ValueData :=
  if name = greptimeTimestamp then some (.timestampMillisecondValue sample.timestamp)
  else if name = greptimeValue then some (.f64Value sample.value)
  else (labels.reverse.lookup name).map .stringValue

/-- A table as a run of series should leave it: its column names, and for each sample the
decoded labels of its series. -/
structure TableSpec where
  columns : List Protobuf.Bytes
  records : List (List (Protobuf.Bytes × Protobuf.Bytes) × Sample)

/-- A new table: the time index and the value column. -/
def TableSpec.init : TableSpec := ⟨[greptimeTimestamp, greptimeValue], []⟩

/-- A series added: its label names not met before become columns, and each sample a record. -/
def TableSpec.add (table : TableSpec) (labels : List (Protobuf.Bytes × Protobuf.Bytes))
    (samples : List Sample) : TableSpec :=
  ⟨addNew table.columns (labels.map Prod.fst), table.records ++ samples.map (labels, ·)⟩

/-- The request of the table: each record's cells, in the order of the columns. -/
def TableSpec.request (table : TableSpec) (tableName : Protobuf.Bytes) : RowInsertRequest :=
  ⟨tableName, table.columns, table.records.map fun r => table.columns.map (rowCell r.1 r.2)⟩

lemma rowCell_eq_none {labels : List (Protobuf.Bytes × Protobuf.Bytes)} {sample : Sample}
    {name : Protobuf.Bytes} (hts : name ≠ greptimeTimestamp) (hvalue : name ≠ greptimeValue)
    (hlabels : ∀ label ∈ labels, label.1 ≠ name) : rowCell labels sample name = none := by
  have hnone : labels.reverse.lookup name = none :=
    List.lookup_eq_none_iff.mpr fun label hl =>
      bne_iff_ne.mpr fun h => hlabels label (List.mem_reverse.mp hl) h.symm
  rw [rowCell, if_neg hts, if_neg hvalue, hnone, Option.map_none]

/-! ## The columns a builder keeps -/

/-- The builder with other columns, each at its position. -/
def TableBuilder.withColumns (table : TableBuilder) (columns : List Protobuf.Bytes) :
    TableBuilder :=
  { table with colIndexes := columns.zipIdx, schema := columns }

/-- What a builder keeps of its columns: each name at its position in `col_indexes`, and no
name twice. -/
structure TableBuilder.Indexed (table : TableBuilder) : Prop where
  colIndexes_eq : table.colIndexes = table.schema.zipIdx
  nodup : table.schema.Nodup

lemma TableBuilder.withColumns_schema {table : TableBuilder} (h : table.Indexed) :
    table.withColumns table.schema = table := by
  obtain ⟨hcol, -⟩ := h
  cases table
  simp only [TableBuilder.withColumns] at hcol ⊢
  rw [hcol]

lemma decodeLabels_cons (mode : PromValidationMode) (label : PromLabel)
    (labels : List PromLabel) :
    decodeLabels mode (label :: labels) =
      mode.decodeString label.name >>= fun name => mode.decodeString label.value >>= fun value =>
        (decodeLabels mode labels).map ((name, value) :: ·) := by
  unfold decodeLabels
  rw [List.mapM_cons]
  cases mode.decodeString label.name <;> cases mode.decodeString label.value <;> rfl

/-- The cells labels leave in a row, each value at its name, as a function of the column
names. -/
def labelCells (cell : Protobuf.Bytes → Option ValueData)
    (labels : List (Protobuf.Bytes × Protobuf.Bytes)) : Protobuf.Bytes → Option ValueData :=
  labels.foldl (fun f label => Function.update f label.1 (some (.stringValue label.2))) cell

/-- The label loop, with the row read as a function of the column names: the new label names
become columns, and each label's value is written at its name, the last one of a name last.  It
fails with the first label whose name or value does not decode. -/
lemma addLabels_eq (mode : PromValidationMode) :
    ∀ (labels : List PromLabel) {table : TableBuilder} (cell : Protobuf.Bytes → Option ValueData),
      table.Indexed →
      table.addLabels mode (table.schema.map cell) labels =
        (decodeLabels mode labels).map fun decoded =>
          (table.withColumns (addNew table.schema (decoded.map Prod.fst)),
            (addNew table.schema (decoded.map Prod.fst)).map (labelCells cell decoded))
  | [], table, cell, htable => by
    simp [TableBuilder.addLabels, decodeLabels, labelCells, Except.map, pure, Except.pure,
      TableBuilder.withColumns_schema htable]
  | label :: labels, table, cell, htable => by
    rw [decodeLabels_cons]
    cases hname : mode.decodeString label.name with
    | error e => simp [TableBuilder.addLabels, hname, Except.map, bind, Except.bind]
    | ok name =>
      cases hvalue : mode.decodeString label.value with
      | error e => simp [TableBuilder.addLabels, hname, hvalue, Except.map, bind, Except.bind]
      | ok value =>
        simp only [TableBuilder.addLabels, hname, hvalue, Except.ok_bind]
        cases hlook : table.colIndexes.lookup name with
        | some i =>
          -- a column of that name: its cell is overwritten
          rw [htable.colIndexes_eq] at hlook
          have hi := (getElem?_of_lookup_zipIdx hlook).2
          rw [Nat.sub_zero] at hi
          have hmem : name ∈ table.schema := List.mem_of_getElem? hi
          simp only
          rw [set_map_eq_map_update htable.nodup hi, addLabels_eq mode labels _ htable]
          cases decodeLabels mode labels with
          | error e => rfl
          | ok decoded =>
            simp only [Except.map]
            rw [List.map_cons, addNew_cons_of_mem hmem]
            rfl
        | none =>
          -- a new name: a column at the end, with the label's value in the row
          rw [htable.colIndexes_eq] at hlook
          have hnot : name ∉ table.schema := lookup_zipIdx_eq_none.mp hlook
          have hnew : { table with
              colIndexes := table.schema.zipIdx ++ [(name, table.schema.zipIdx.length)]
              schema := table.schema ++ [name] } = table.withColumns (table.schema ++ [name]) := by
            simp [TableBuilder.withColumns, List.zipIdx_append]
          have hrow : table.schema.map cell ++ [some (.stringValue value)] =
              (table.schema ++ [name]).map
                (Function.update cell name (some (.stringValue value))) := by
            rw [List.map_append, map_update_of_not_mem hnot]
            simp
          have hindexed : (table.withColumns (table.schema ++ [name])).Indexed :=
            ⟨rfl, List.nodup_append.mpr ⟨htable.nodup, List.nodup_singleton name, by
              simp only [List.mem_singleton]
              intro x hx b hb hxb
              subst hb hxb
              exact hnot hx⟩⟩
          simp only
          rw [htable.colIndexes_eq, hnew, hrow]
          refine (addLabels_eq mode labels _ hindexed).trans ?_
          cases decodeLabels mode labels with
          | error e => rfl
          | ok decoded =>
            simp only [Except.map]
            rw [List.map_cons, addNew_cons_of_not_mem hnot]
            rfl

/-- The row of a sample: the labels' cells, the timestamp in the first column and the value in
the second. -/
lemma addLabelsAndSamples_eq (mode : PromValidationMode) {table : TableBuilder}
    (htable : table.Indexed) (labels : List PromLabel) (samples : List Sample) :
    table.addLabelsAndSamples mode labels samples =
      (decodeLabels mode labels).map fun decoded =>
        { table.withColumns (addNew table.schema (decoded.map Prod.fst)) with
          rows := table.rows ++ samples.map fun sample =>
            (((addNew table.schema (decoded.map Prod.fst)).map
              (labelCells (fun _ => none) decoded)).set 0
                (some (.timestampMillisecondValue sample.timestamp))).set 1
              (some (.f64Value sample.value)) } := by
  have hrow : List.replicate table.colIndexes.length none =
      table.schema.map fun _ => (none : Option ValueData) := by
    rw [List.map_const', htable.colIndexes_eq, List.length_zipIdx]
  unfold TableBuilder.addLabelsAndSamples
  rw [hrow, addLabels_eq mode labels _ htable]
  cases decodeLabels mode labels with
  | error e => rfl
  | ok decoded => rfl

/-! ## The builder holds the table -/

/-- A row written for a record: no longer than the columns, the record's cells once filled with
nulls, and every label name of the record among the columns. -/
structure RowOf (columns : List Protobuf.Bytes) (row : List (Option ValueData))
    (record : List (Protobuf.Bytes × Protobuf.Bytes) × Sample) : Prop where
  length_le : row.length ≤ columns.length
  rightpad_eq : row.rightpad columns.length none = columns.map (rowCell record.1 record.2)
  names_mem : ∀ label ∈ record.1, label.1 ∈ columns

/-- A builder holds a table: its columns indexed, the same as the table's with the two of every
table first, and a row for each record. -/
structure TableBuilder.Refines (table : TableBuilder) (spec : TableSpec) : Prop where
  indexed : table.Indexed
  schema_eq : table.schema = spec.columns
  reserved : ∃ tags, spec.columns = greptimeTimestamp :: greptimeValue :: tags
  rows : List.Forall₂ (RowOf spec.columns) table.rows spec.records

lemma TableBuilder.refines_init : TableBuilder.withCapacity.Refines TableSpec.init where
  indexed := ⟨rfl, List.nodup_cons.mpr ⟨by simpa using greptimeTimestamp_ne_greptimeValue,
    List.nodup_singleton _⟩⟩
  schema_eq := rfl
  reserved := ⟨[], rfl⟩
  rows := List.Forall₂.nil

/-- Columns added after a row was written hold nulls in it: their names are new, so neither
of the first two nor one of its labels. -/
lemma RowOf.append {columns more : List Protobuf.Bytes} {row : List (Option ValueData)}
    {record : List (Protobuf.Bytes × Protobuf.Bytes) × Sample} (h : RowOf columns row record)
    (hts : greptimeTimestamp ∈ columns) (hvalue : greptimeValue ∈ columns)
    (hmore : ∀ name ∈ more, name ∉ columns) : RowOf (columns ++ more) row record where
  length_le := by
    have := h.length_le
    simp only [List.length_append]
    omega
  rightpad_eq := rightpad_append h.length_le h.rightpad_eq fun name hname =>
    rowCell_eq_none (fun he => hmore name hname (he ▸ hts))
      (fun he => hmore name hname (he ▸ hvalue))
      (fun label hl he => hmore name hname (he ▸ h.names_mem label hl))
  names_mem label hl := List.mem_append_left more (h.names_mem label hl)

/-- The row of a sample over the columns of the table after its series: the labels' cells, with
the timestamp and the value written over the first two, are the record's cells. -/
lemma sampleRow_eq {tags : List Protobuf.Bytes}
    (hnodup : (greptimeTimestamp :: greptimeValue :: tags).Nodup)
    (decoded : List (Protobuf.Bytes × Protobuf.Bytes)) (sample : Sample) :
    ((((greptimeTimestamp :: greptimeValue :: tags).map
        (labelCells (fun _ => none) decoded)).set 0
          (some (.timestampMillisecondValue sample.timestamp))).set 1
        (some (.f64Value sample.value))) =
      (greptimeTimestamp :: greptimeValue :: tags).map (rowCell decoded sample) := by
  obtain ⟨hts, hvalue, -⟩ : greptimeTimestamp ∉ greptimeValue :: tags ∧ greptimeValue ∉ tags ∧
      tags.Nodup := by
    simpa using hnodup
  have htags : ∀ tag ∈ tags, labelCells (fun _ => none) decoded tag = rowCell decoded sample tag :=
    fun tag htag => by
      have hne₁ : tag ≠ greptimeTimestamp := fun he => hts (List.mem_cons_of_mem _ (he ▸ htag))
      have hne₂ : tag ≠ greptimeValue := fun he => hvalue (he ▸ htag)
      rw [labelCells, foldl_update_apply, Option.or_none, rowCell, if_neg hne₁, if_neg hne₂]
  simp only [List.map_cons, List.set_cons_zero, List.set_cons_succ]
  rw [List.map_congr_left htags, rowCell, if_pos rfl, rowCell,
    if_neg (Ne.symm greptimeTimestamp_ne_greptimeValue), if_pos rfl]

/-- A series added to a builder that holds a table: the builder fails when the table does, with
the same error, and otherwise holds the table with the series added. -/
lemma TableBuilder.Refines.addLabelsAndSamples {table : TableBuilder} {spec : TableSpec}
    (h : table.Refines spec) (mode : PromValidationMode) (labels : List PromLabel)
    (samples : List Sample) :
    Except.Rel TableBuilder.Refines (table.addLabelsAndSamples mode labels samples)
      ((decodeLabels mode labels).map (spec.add · samples)) := by
  rw [addLabelsAndSamples_eq mode h.indexed]
  refine Except.rel_map_map fun decoded => ?_
  obtain ⟨tags, htags⟩ := h.reserved
  obtain ⟨more, hmore⟩ := prefix_addNew spec.columns (decoded.map Prod.fst)
  -- the columns after the series: the table's, then the names new to it
  have hadd : addNew table.schema (decoded.map Prod.fst) = spec.columns ++ more := by
    rw [h.schema_eq, hmore]
  have hnodup : (spec.columns ++ more).Nodup := hadd ▸ nodup_addNew _ h.indexed.nodup
  have hnew : ∀ name ∈ more, name ∉ spec.columns := fun name hname hmem =>
    (List.nodup_append.mp hnodup).2.2 name hmem name hname rfl
  have hts : greptimeTimestamp ∈ spec.columns := htags ▸ List.mem_cons_self
  have hvalue : greptimeValue ∈ spec.columns := htags ▸ List.mem_cons_of_mem _ List.mem_cons_self
  have hcolumns : spec.columns ++ more = greptimeTimestamp :: greptimeValue :: (tags ++ more) := by
    rw [htags]
    rfl
  refine ⟨⟨rfl, nodup_addNew _ h.indexed.nodup⟩, ?_, ⟨tags ++ more, ?_⟩, ?_⟩
  · show addNew table.schema _ = addNew spec.columns _
    rw [h.schema_eq]
  · show addNew spec.columns _ = _
    rw [← hmore, hcolumns]
  · -- the rows written before keep their cells, and each sample adds its own
    show List.Forall₂ (RowOf (addNew spec.columns (decoded.map Prod.fst))) (table.rows ++ _)
      (spec.records ++ _)
    rw [← hmore]
    refine List.rel_append (h.rows.imp fun _ _ hr => hr.append hts hvalue hnew) ?_
    rw [List.forall₂_map_left_iff, List.forall₂_map_right_iff, List.forall₂_same]
    intro sample _
    rw [hadd, hcolumns, sampleRow_eq (hcolumns ▸ hnodup)]
    refine ⟨le_of_eq (by simp), rightpad_of_length_eq (by simp), fun label hl => ?_⟩
    rw [← hcolumns, ← hadd]
    exact mem_addNew.mpr (.inr (List.mem_map_of_mem hl))

/-- The request of a builder that holds a table is the table's: filling a row with nulls up to
the schema gives the record's cells. -/
lemma TableBuilder.Refines.asRowInsertRequest_eq {table : TableBuilder} {spec : TableSpec}
    (h : table.Refines spec) (tableName : Protobuf.Bytes) :
    table.asRowInsertRequest tableName = spec.request tableName := by
  have hpad : ∀ row : List (Option ValueData),
      (if row.length < table.schema.length then
        row ++ List.replicate (table.schema.length - row.length) none else row) =
        row.rightpad table.schema.length none := by
    intro row
    split_ifs with hlt
    · rfl
    · simp [List.rightpad, show table.schema.length - row.length = 0 by omega]
  have hrows : (table.rows.map fun row => row.rightpad table.schema.length none) =
      spec.records.map fun r => spec.columns.map (rowCell r.1 r.2) := by
    have hrel : List.Forall₂ (· = ·)
        (table.rows.map fun row => row.rightpad table.schema.length none)
        (spec.records.map fun r => spec.columns.map (rowCell r.1 r.2)) := by
      rw [List.forall₂_map_left_iff, List.forall₂_map_right_iff, h.schema_eq]
      exact h.rows.imp fun _ _ hr => hr.rightpad_eq
    rwa [List.forall₂_eq_eq_eq] at hrel
  unfold TableBuilder.asRowInsertRequest TableSpec.request
  simp only [hpad]
  rw [hrows, h.schema_eq]

/-- For every run of series from a new builder, the request the builder gives is the table of
named values the series make: the time index, the value and every tag name in the order first
met as columns, and for each sample the row holding its timestamp, its value and the value of
its series' last label of each tag name, or null.  The run fails exactly when a label's name or
value does not decode, with the first such error. -/
theorem addLabelsAndSamples_asRowInsertRequest (mode : PromValidationMode)
    (series : List (List PromLabel × List Sample)) (tableName : Protobuf.Bytes) :
    (series.foldlM (fun (table : TableBuilder) s => table.addLabelsAndSamples mode s.1 s.2)
        TableBuilder.withCapacity).map (·.asRowInsertRequest tableName) =
      (series.foldlM (fun (spec : TableSpec) s => (decodeLabels mode s.1).map (spec.add · s.2))
        TableSpec.init).map (·.request tableName) := by
  have hrun := Except.rel_foldlM (R := TableBuilder.Refines)
    (fun _ _ s h => h.addLabelsAndSamples mode s.1 s.2) series TableBuilder.refines_init
  exact hrun.map_eq fun _ _ h => h.asRowInsertRequest_eq tableName

/-! ## The tables of a request -/

/-- The table a series goes to: its context and its table name, as `add_to_table_data` takes
them. -/
def PromTimeSeries.tableKey (series : PromTimeSeries) : PromCtx × Protobuf.Bytes :=
  (⟨series.schema, series.physicalTable⟩, series.tableName)

/-- The table at a key after a log of series with their decoded labels: the table the series
of that key make, in their order, if there is one. -/
def tableAt (log : List (PromTimeSeries × List (Protobuf.Bytes × Protobuf.Bytes)))
    (key : PromCtx × Protobuf.Bytes) : Option TableSpec :=
  if log.any (fun d => d.1.tableKey = key) then
    some ((log.filter (fun d => d.1.tableKey = key)).foldl (fun t d => t.add d.2 d.1.samples)
      TableSpec.init)
  else none

/-- A series logged: the table at its key gains it, the others stay. -/
lemma tableAt_append (log : List (PromTimeSeries × List (Protobuf.Bytes × Protobuf.Bytes)))
    (series : PromTimeSeries) (decoded : List (Protobuf.Bytes × Protobuf.Bytes))
    (key : PromCtx × Protobuf.Bytes) :
    tableAt (log ++ [(series, decoded)]) key =
      if series.tableKey = key then
        some (((tableAt log key).getD TableSpec.init).add decoded series.samples)
      else tableAt log key := by
  unfold tableAt
  by_cases hkey : series.tableKey = key
  · -- a log without the key filters to nothing
    have hnone : log.any (fun d => d.1.tableKey = key) = false →
        log.filter (fun d => d.1.tableKey = key) = [] := fun h => by
      simpa [List.filter_eq_nil_iff] using h
    by_cases hany : log.any (fun d => d.1.tableKey = key)
    · simp [hkey, hany, List.filter_append, List.foldl_append]
    · simp [hkey, hany, List.filter_append, hnone (by simpa using hany)]
  · have hany : [(series, decoded)].any (fun d => d.1.tableKey = key) = false := by simp [hkey]
    have hfilter : [(series, decoded)].filter (fun d => d.1.tableKey = key) = [] := by simp [hkey]
    simp only [List.any_append, hany, Bool.or_false, List.filter_append, hfilter, List.append_nil,
      if_neg hkey]

/-- A `TablesBuilder` holds the tables of a log: at each key, a builder holding the table there,
or no builder where no series went. -/
def TablesBuilder.Refines (tables : TablesBuilder)
    (log : List (PromTimeSeries × List (Protobuf.Bytes × Protobuf.Bytes))) : Prop :=
  ∀ key, Option.Rel TableBuilder.Refines (tables.tables.lookup key) (tableAt log key)

lemma TablesBuilder.refines_empty : TablesBuilder.Refines ⟨[]⟩ [] := fun _ => Option.Rel.none

/-- The builder `get_or_create_table_builder` gives holds the table at the key. -/
lemma TablesBuilder.Refines.getD {tables : TablesBuilder}
    {log : List (PromTimeSeries × List (Protobuf.Bytes × Protobuf.Bytes))}
    (h : tables.Refines log) (key : PromCtx × Protobuf.Bytes) :
    ((tables.tables.lookup key).getD TableBuilder.withCapacity).Refines
      ((tableAt log key).getD TableSpec.init) := by
  have hkey := h key
  revert hkey
  generalize tables.tables.lookup key = table
  generalize tableAt log key = spec
  intro hkey
  cases hkey with
  | none => exact TableBuilder.refines_init
  | some hr => exact hr

/-- A series added to the tables: they fail when its labels do, with the same error, and
otherwise hold the tables of the log with the series added. -/
lemma TablesBuilder.Refines.addToTableData {tables : TablesBuilder}
    {log : List (PromTimeSeries × List (Protobuf.Bytes × Protobuf.Bytes))}
    (h : tables.Refines log) (mode : PromValidationMode) (series : PromTimeSeries) :
    Except.Rel TablesBuilder.Refines ((series.addToTableData mode tables).map Prod.fst)
      (((decodeLabels mode series.labels).map (series, ·)).map (log ++ [·])) := by
  have hstep := (h.getD series.tableKey).addLabelsAndSamples mode series.labels series.samples
  unfold PromTimeSeries.addToTableData
  simp only [← PromTimeSeries.tableKey.eq_1]
  cases hadd : ((tables.tables.lookup series.tableKey).getD TableBuilder.withCapacity).addLabelsAndSamples
      mode series.labels series.samples with
  | error e =>
    rw [hadd] at hstep
    cases hd : decodeLabels mode series.labels with
    | error e' =>
      rw [hd] at hstep
      exact hstep
    | ok decoded =>
      rw [hd] at hstep
      exact hstep.elim
  | ok table =>
    rw [hadd] at hstep
    cases hd : decodeLabels mode series.labels with
    | error e' =>
      rw [hd] at hstep
      exact hstep.elim
    | ok decoded =>
      rw [hd] at hstep
      -- the builder at the series' key is replaced or added; the others stay
      intro key
      have hlookup : (if (tables.tables.lookup series.tableKey).isSome then
            tables.tables.map fun entry => if entry.1 = series.tableKey then
              (series.tableKey, table) else entry
          else tables.tables ++ [(series.tableKey, table)]).lookup key =
          if key = series.tableKey then some table else tables.tables.lookup key := by
        split_ifs with hsome hkey hkey
        · subst hkey
          exact lookup_map_replace_self table hsome
        · exact lookup_map_replace_of_ne table hkey _
        · rw [lookup_append_new (Option.not_isSome_iff_eq_none.mp hsome), if_pos hkey]
        · rw [lookup_append_new (Option.not_isSome_iff_eq_none.mp hsome), if_neg hkey]
      show Option.Rel TableBuilder.Refines (List.lookup key (if _ then _ else _))
        (tableAt (log ++ [(series, decoded)]) key)
      rw [hlookup, tableAt_append]
      by_cases hkey : key = series.tableKey
      · subst hkey
        rw [if_pos rfl, if_pos rfl]
        exact Option.Rel.some hstep
      · rw [if_neg hkey, if_neg (Ne.symm hkey)]
        exact h key

/-- The request of each table of the builders that hold a log's tables is the table's. -/
lemma TablesBuilder.Refines.lookup_request {tables : TablesBuilder}
    {log : List (PromTimeSeries × List (Protobuf.Bytes × Protobuf.Bytes))}
    (h : tables.Refines log) (key : PromCtx × Protobuf.Bytes) :
    (tables.tables.lookup key).map (·.asRowInsertRequest key.2) =
      (tableAt log key).map (·.request key.2) := by
  have hkey := h key
  revert hkey
  generalize tables.tables.lookup key = table
  generalize tableAt log key = spec
  intro hkey
  cases hkey with
  | none => rfl
  | some hr => exact congrArg some (hr.asRowInsertRequest_eq key.2)

/-- For every run of series handed to the tables, each table receives exactly the series of its
context and name, in their order: the request of the table at a key is the table those series
make, and there is a table at a key only if a series went to it.  The run fails exactly when a
series' label does not decode, with the first such error. -/
theorem addToTableData_tables (mode : PromValidationMode) (series : List PromTimeSeries)
    (key : PromCtx × Protobuf.Bytes) :
    (series.foldlM
        (fun (tables : TablesBuilder) (s : PromTimeSeries) => (s.addToTableData mode tables).map Prod.fst)
        ⟨[]⟩).map (fun tables => (tables.tables.lookup key).map (·.asRowInsertRequest key.2)) =
      (series.mapM fun s => (decodeLabels mode s.labels).map (s, ·)).map fun log =>
        (tableAt log key).map (·.request key.2) := by
  have hrun := Except.rel_foldlM (R := TablesBuilder.Refines)
    (fun _ _ s h => h.addToTableData mode s) series TablesBuilder.refines_empty
  rw [Except.foldlM_append_eq_mapM] at hrun
  have hobs := hrun.map_eq (fun _ _ h => h.lookup_request key)
  simpa [Function.comp_def] using hobs

end Greptime
