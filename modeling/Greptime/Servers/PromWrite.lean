import Greptime.Foundations.I64
import Greptime.Foundations.Protobuf
import Greptime.Foundations.Utf8

/-!
# Decoding a Prometheus remote-write body (`servers::proto`)

`PromWriteRequest::merge` decodes the protobuf body of a remote write without building the
prost message: it reads the keys of the `WriteRequest` itself, decodes each time series into a
reused `PromTimeSeries`, and hands the series to a `TablesBuilder`, which keeps one row per
sample in the table the series names.  The labels `__name__`, `__schema__`, `__database__` and
`__physical_table__` choose the table and its context and are not kept as tags.  Strings are
decoded in one of three validation modes.

The decoders of `prost::encoding` it calls are the parameter `prost`, a `Protobuf.Decoder`;
the code `prost` derives for `Sample` is written over them, as is `merge_loop`.

Each top-level key is checked with `assert_eq!(WireType::LengthDelimited, wire_type)`, a
panic where every other malformed input gives a `DecodeError`.  `merge_panics_of_key` says
that any body whose first key has another wire type panics, for every request state and mode;
`merge_panics_on_varint_field` is the two-byte body `08 00`, a varint field of tag 1, which
every decoder reads as such a key.

The series are handed to the table builder, not to a pipeline: the pipeline path of
`PromSeriesProcessor` is left out.
-/

namespace Greptime

open Protobuf

variable (prost : Decoder)

/-- `PromValidationMode`. -/
inductive PromValidationMode
  | strict
  | lossy
  | unchecked
  deriving DecidableEq, Repr

/-- `PromValidationMode::decode_string`, on the bytes of the string. -/
def PromValidationMode.decodeString :
    PromValidationMode → Protobuf.Bytes → Except DecodeError Protobuf.Bytes
  | .strict, bytes => if Utf8.valid bytes then .ok bytes else .error (.new "invalid utf-8")
  | .lossy, bytes => .ok (Utf8.lossy bytes)
  | .unchecked, bytes => .ok bytes

/-- `METRIC_NAME_LABEL_BYTES`. -/
def metricNameLabel : Protobuf.Bytes := "__name__".toUTF8.toList

/-- `SCHEMA_LABEL_BYTES`. -/
def schemaLabel : Protobuf.Bytes := "__schema__".toUTF8.toList

/-- `DATABASE_LABEL_BYTES`. -/
def databaseLabel : Protobuf.Bytes := "__database__".toUTF8.toList

/-- `PHYSICAL_TABLE_LABEL_BYTES`. -/
def physicalTableLabel : Protobuf.Bytes := "__physical_table__".toUTF8.toList

/-- `GREPTIME_TIMESTAMP`. -/
def greptimeTimestamp : Protobuf.Bytes := "greptime_timestamp".toUTF8.toList

/-- `GREPTIME_VALUE`. -/
def greptimeValue : Protobuf.Bytes := "greptime_value".toUTF8.toList

/-! ## Labels and samples -/

/-- `PromLabel`; the default is a cleared label. -/
structure PromLabel where
  name : Protobuf.Bytes
  value : Protobuf.Bytes
  deriving DecidableEq, Repr

/-- `merge_bytes`: a length prefix and that many bytes. -/
def mergeBytes (buf : Protobuf.Bytes) : Except DecodeError (Protobuf.Bytes × Protobuf.Bytes) :=
  match prost.decodeVarint buf with
  | .error e => .error e
  | .ok (len, buf) =>
    if len > buf.length then
      .error (.new ("buffer underflow, len: " ++ toString len ++ ", remaining: " ++
        toString buf.length))
    else .ok (buf.take len, buf.drop len)

/-- `PromLabel::merge_field`: the wire type of the name and the value is not checked. -/
def PromLabel.mergeField (label : PromLabel) (tag : ℕ) (wireType : WireType)
    (buf : Protobuf.Bytes) :
    Except DecodeError (PromLabel × Protobuf.Bytes) :=
  match tag with
  | 1 =>
    match mergeBytes prost buf with
    | .ok (name, rest) => .ok ({ label with name }, rest)
    | .error e => .error (e.push "PromLabel" "name")
  | 2 =>
    match mergeBytes prost buf with
    | .ok (value, rest) => .ok ({ label with value }, rest)
    | .error e => .error (e.push "PromLabel" "value")
  | _ =>
    match prost.skipField wireType tag buf with
    | .ok rest => .ok (label, rest)
    | .error e => .error e

/-- `Sample`: the bits of the `f64` value, and the timestamp. -/
structure Sample where
  value : ℕ
  timestamp : I64
  deriving DecidableEq

/-- The default sample, and a cleared one. -/
def Sample.default : Sample := ⟨0, I64.wrap 0⟩

/-- `Sample::merge_field` as prost derives it: `double` and `int64` check their wire types. -/
def Sample.mergeField (sample : Sample) (tag : ℕ) (wireType : WireType)
    (buf : Protobuf.Bytes) : Except DecodeError (Sample × Protobuf.Bytes) :=
  match tag with
  | 1 =>
    match checkWireType .sixtyFourBit wireType, prost.decodeFixed64 buf with
    | .error e, _ | .ok (), .error e => .error (e.push "Sample" "value")
    | .ok (), .ok (value, rest) => .ok ({ sample with value }, rest)
  | 2 =>
    match checkWireType .varint wireType, prost.decodeVarint buf with
    | .error e, _ | .ok (), .error e => .error (e.push "Sample" "timestamp")
    | .ok (), .ok (v, rest) => .ok ({ sample with timestamp := I64.wrap v }, rest)
  | _ =>
    match prost.skipField wireType tag buf with
    | .ok rest => .ok (sample, rest)
    | .error e => .error e

/-- `prost::encoding::message::merge` of a cleared sample. -/
def Sample.merge (buf : Protobuf.Bytes) : Except DecodeError (Sample × Protobuf.Bytes) :=
  prost.mergeLoop (Sample.mergeField prost) Sample.default buf

/-! ## A time series -/

/-- `PromTimeSeries`: the table and context its labels chose, the other labels, and the
samples. -/
structure PromTimeSeries where
  tableName : Protobuf.Bytes
  schema : Option Protobuf.Bytes
  physicalTable : Option Protobuf.Bytes
  labels : List PromLabel
  samples : List Sample

/-- `PromTimeSeries::default`. -/
def PromTimeSeries.default : PromTimeSeries := ⟨[], none, none, [], []⟩

/-- The `match label.name` of `PromTimeSeries::merge_field` after a label is decoded: the
four labels of the table and its context are decoded as strings and removed, the others
kept.  `__database__` sets the schema only where `__schema__` has not. -/
def PromTimeSeries.addLabel (mode : PromValidationMode) (series : PromTimeSeries)
    (label : PromLabel) : Except DecodeError PromTimeSeries :=
  if label.name = metricNameLabel then
    (mode.decodeString label.value).map fun tableName => { series with tableName }
  else if label.name = schemaLabel then
    (mode.decodeString label.value).map fun s => { series with schema := some s }
  else if label.name = databaseLabel then
    if series.schema.isNone then
      (mode.decodeString label.value).map fun s => { series with schema := some s }
    else .ok series
  else if label.name = physicalTableLabel then
    (mode.decodeString label.value).map fun s => { series with physicalTable := some s }
  else .ok { series with labels := series.labels ++ [label] }

/-- `PromTimeSeries::merge_field`.  A label is read as a length-delimited message and a
sample through `message::merge` with the wire type `LengthDelimited`, whatever the key
says; exemplars (tag 3) and unknown fields are skipped. -/
def PromTimeSeries.mergeField (mode : PromValidationMode) (series : PromTimeSeries) (tag : ℕ)
    (wireType : WireType) (buf : Protobuf.Bytes) :
    Except DecodeError (PromTimeSeries × Protobuf.Bytes) :=
  match tag with
  | 1 =>
    match prost.decodeVarint buf with
    | .error e => .error (e.push "PromTimeSeries" "labels")
    | .ok (len, buf) =>
      if len > buf.length then .error (.new "buffer underflow")
      else
        match prost.fieldsUntil id (PromLabel.mergeField prost) (buf.length - len) ⟨[], []⟩
            buf with
        | .error e => .error e
        | .ok (label, rest) =>
          if rest.length ≠ buf.length - len then .error (.new "delimited length exceeded")
          else (series.addLabel mode label).map (·, rest)
  | 2 =>
    match Sample.merge prost buf with
    | .error e => .error (e.push "PromTimeSeries" "samples")
    | .ok (sample, rest) => .ok ({ series with samples := series.samples ++ [sample] }, rest)
  | _ =>
    match prost.skipField wireType tag buf with
    | .ok rest => .ok (series, rest)
    | .error e => .error e

/-! ## Tables -/

/-- The values of a row: `ValueData::StringValue` for a tag, `TimestampMillisecondValue` and
`F64Value` for the two columns of every table. -/
inductive ValueData
  | stringValue (s : Protobuf.Bytes)
  | timestampMillisecondValue (v : I64)
  | f64Value (bits : ℕ)
  deriving DecidableEq

/-- `TableBuilder`: its column names, in order (the column schemas), with their indices
(`col_indexes`), and its rows. -/
structure TableBuilder where
  colIndexes : List (Protobuf.Bytes × ℕ)
  schema : List Protobuf.Bytes
  rows : List (List (Option ValueData))

/-- `TableBuilder::with_capacity`: the time index and the value column. -/
def TableBuilder.withCapacity : TableBuilder :=
  ⟨[(greptimeTimestamp, 0), (greptimeValue, 1)], [greptimeTimestamp, greptimeValue], []⟩

/-- The label loop of `TableBuilder::add_labels_and_samples`: each tag goes to its column,
and a new tag name adds a column at the end. -/
def TableBuilder.addLabels (mode : PromValidationMode) :
    TableBuilder → List (Option ValueData) → List PromLabel →
      Except DecodeError (TableBuilder × List (Option ValueData))
  | table, row, [] => .ok (table, row)
  | table, row, label :: labels =>
    match mode.decodeString label.name, mode.decodeString label.value with
    | .error e, _ | .ok _, .error e => .error e
    | .ok tagName, .ok tagValue =>
      match table.colIndexes.lookup tagName with
      | some i =>
        addLabels mode table (row.set i (some (.stringValue tagValue))) labels
      | none =>
        addLabels mode
          { table with
            colIndexes := table.colIndexes ++ [(tagName, table.colIndexes.length)]
            schema := table.schema ++ [tagName] }
          (row ++ [some (.stringValue tagValue)]) labels

/-- `TableBuilder::add_labels_and_samples`: one row per sample, the tags and then the
sample's timestamp and value in the first two columns.  The source builds the row of a single
sample without a copy; it is the same row. -/
def TableBuilder.addLabelsAndSamples (mode : PromValidationMode) (table : TableBuilder)
    (labels : List PromLabel) (samples : List Sample) : Except DecodeError TableBuilder :=
  match table.addLabels mode (List.replicate table.colIndexes.length none) labels with
  | .error e => .error e
  | .ok (table, row) =>
    .ok { table with
      rows := table.rows ++ samples.map fun sample =>
        (row.set 0 (some (.timestampMillisecondValue sample.timestamp))).set 1
          (some (.f64Value sample.value)) }

/-- `RowInsertRequest`: the table's name, its column names (the column schemas) and its
rows. -/
structure RowInsertRequest where
  tableName : Protobuf.Bytes
  schema : List Protobuf.Bytes
  rows : List (List (Option ValueData))

/-- `TableBuilder::as_row_insert_request`: a row written before some of the columns existed is
filled with nulls up to the schema. -/
def TableBuilder.asRowInsertRequest (table : TableBuilder) (tableName : Protobuf.Bytes) :
    RowInsertRequest :=
  { tableName
    schema := table.schema
    rows := table.rows.map fun row =>
      if row.length < table.schema.length then
        row ++ List.replicate (table.schema.length - row.length) none
      else row }

/-- `PromCtx`. -/
structure PromCtx where
  schema : Option Protobuf.Bytes
  physicalTable : Option Protobuf.Bytes
  deriving DecidableEq

/-- `TablesBuilder`: a table builder for each context and table name, in the order they
were created (the maps' own order is not modelled). -/
structure TablesBuilder where
  tables : List ((PromCtx × Protobuf.Bytes) × TableBuilder)

/-- `PromTimeSeries::add_to_table_data`: the series' context and table name are taken, and
its labels and samples added to the table, which is created if new. -/
def PromTimeSeries.addToTableData (mode : PromValidationMode) (series : PromTimeSeries)
    (tableData : TablesBuilder) : Except DecodeError (TablesBuilder × PromTimeSeries) :=
  let key := (⟨series.schema, series.physicalTable⟩, series.tableName)
  let table := (tableData.tables.lookup key).getD TableBuilder.withCapacity
  match table.addLabelsAndSamples mode series.labels series.samples with
  | .error e => .error e
  | .ok table =>
    let tables :=
      if (tableData.tables.lookup key).isSome then
        tableData.tables.map fun entry => if entry.1 = key then (key, table) else entry
      else tableData.tables ++ [(key, table)]
    .ok (⟨tables⟩, { series with tableName := [], schema := none, physicalTable := none })

/-! ## The request -/

/-- How `PromWriteRequest::merge` ends other than with `Ok`: a `DecodeError`, or the panic
of its `assert_eq!`. -/
inductive MergeError
  | decode (e : DecodeError)
  | panic
  deriving DecidableEq

/-- `PromWriteRequest`. -/
structure PromWriteRequest where
  tableData : TablesBuilder
  series : PromTimeSeries

/-- `PromWriteRequest::default`. -/
def PromWriteRequest.default : PromWriteRequest := ⟨⟨[]⟩, PromTimeSeries.default⟩

/-- One top-level field of `PromWriteRequest::merge`, after its key: a time series (tag 1),
decoded and added to the tables, or a field that is skipped, metadata (tag 3) among them.
The wire type must be `LengthDelimited`. -/
def PromWriteRequest.mergeField (mode : PromValidationMode) (req : PromWriteRequest)
    (tag : ℕ) (wireType : WireType) (buf : Protobuf.Bytes) :
    Except MergeError (PromWriteRequest × Protobuf.Bytes) :=
  if wireType ≠ .lengthDelimited then .error .panic
  else match tag with
  | 1 =>
    match prost.decodeVarint buf with
    | .error e => .error (.decode (e.push "PromWriteRequest" "timeseries"))
    | .ok (len, buf) =>
      if len > buf.length then .error (.decode (.new "buffer underflow"))
      else
        match prost.fieldsUntil id (PromTimeSeries.mergeField prost mode) (buf.length - len)
            req.series buf with
        | .error e => .error (.decode e)
        | .ok (series, rest) =>
          if rest.length ≠ buf.length - len then
            .error (.decode (.new "delimited length exceeded"))
          else
            match series.addToTableData mode req.tableData with
            | .error e => .error (.decode e)
            | .ok (tableData, series) =>
              -- the labels and samples are cleared for the next series
              .ok (⟨tableData, { series with labels := [], samples := [] }⟩, rest)
  | _ =>
    match prost.skipField wireType tag buf with
    | .ok rest => .ok (req, rest)
    | .error e => .error (.decode e)

/-- `PromWriteRequest::merge`: the fields of the whole body. -/
def PromWriteRequest.merge (req : PromWriteRequest) (mode : PromValidationMode)
    (buf : Protobuf.Bytes) :
    Except MergeError PromWriteRequest :=
  (prost.fieldsUntil MergeError.decode (PromWriteRequest.mergeField prost mode) 0 req buf).map
    Prod.fst

/-- A body whose first key is not of a length-delimited field panics. -/
lemma merge_panics_of_key {req : PromWriteRequest} {mode : PromValidationMode}
    {buf rest : Protobuf.Bytes} {tag : ℕ} {wireType : WireType}
    (hkey : prost.decodeKey buf = .ok (tag, wireType, rest))
    (hwire : wireType ≠ .lengthDelimited) :
    req.merge prost mode buf = .error .panic := by
  have hlen : buf.length > 0 :=
    Nat.lt_of_le_of_lt (Nat.zero_le _) (prost.decodeKey_length_lt hkey)
  unfold PromWriteRequest.merge
  rw [Decoder.fieldsUntil, if_pos hlen]
  split
  · rename_i e he
    rw [hkey] at he
    cases he
  · rename_i tag' wireType' rest' he
    rw [hkey] at he
    cases he
    simp [PromWriteRequest.mergeField, hwire, Except.map]

theorem merge_panics_on_varint_field (req : PromWriteRequest) (mode : PromValidationMode) :
    req.merge prost mode [0x08, 0x00] = .error .panic :=
  merge_panics_of_key prost (prost.decodeKey_encodeKey (by decide : ValidTag 1) .varint [0x00])
    (by decide)

end Greptime
