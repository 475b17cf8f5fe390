import Mathlib
import Greptime.Foundations.Except
import Greptime.Foundations.Prost
import Greptime.Servers.PromRowBuilder

/-!
# The remote-write body, as the `prost` encoder writes it

`PromWriteRequest::merge` reads a Prometheus `WriteRequest` without building the message.  This
module states what the bodies it reads are, the `WriteRequest` messages as the code `prost`
generates for them encodes them, and proves that the hand-written decoder reads every such body
as the message's time series, one after the other, handed to the tables (`merge_encode`).  It
is the agreement that `test_decode_write_request` checks on one body against the decoder
`prost` generates.

* A label is a `PromLabel`; a sample holds the bits of its `double` and its `int64` timestamp;
  exemplars and metadata, which the decoder skips, are the bytes of their messages.
* proto3 leaves out a field that holds its default: an empty name or value, a value equal to
  `0.0` (so `-0.0` as well), a zero timestamp.  The decoder reads the default back, so a sample
  comes back with `-0.0` as `0.0` (`SampleMsg.decoded`).
* The decoder reuses one `PromTimeSeries` for every series: `add_to_table_data` and the
  clearing after it leave it as the default, so each series starts afresh.

The decoders of `prost::encoding` are any `Protobuf.Decoder`: the proofs use only what its
fields say of them.  The one premise is that the body is shorter than `2 ^ 64` bytes, so that
every length in it fits a varint.
-/

namespace Greptime

open Protobuf

variable (prost : Decoder)

/-! ## The message and its encoding -/

/-- `value == 0.0` on the bits of a `double`: the bits of `0.0` and of `-0.0`. -/
def f64EqZero (bits : UInt64) : Prop := bits = 0 ∨ bits = 0x8000000000000000

instance : DecidablePred f64EqZero := fun bits =>
  inferInstanceAs (Decidable (bits = 0 ∨ bits = 0x8000000000000000))

/-- A `Sample` of the message: the bits of its value, and its timestamp. -/
structure SampleMsg where
  value : UInt64
  timestamp : I64
  deriving DecidableEq

/-- A `TimeSeries`: its labels, its samples, and its exemplars as the bytes of their
messages. -/
structure TimeSeriesMsg where
  labels : List PromLabel
  samples : List SampleMsg
  exemplars : List Protobuf.Bytes
  deriving DecidableEq

/-- A `WriteRequest`: its time series, and its metadata as the bytes of their messages. -/
structure WriteRequestMsg where
  timeseries : List TimeSeriesMsg
  metadata : List Protobuf.Bytes
  deriving DecidableEq

/-- `Label::encode_raw`: the name and the value, each unless it is empty. -/
def PromLabel.encode (label : PromLabel) : Protobuf.Bytes :=
  encodeBytesField 1 label.name ++ encodeBytesField 2 label.value

/-- `Sample::encode_raw`: the value as its eight bytes, little-endian, unless it equals `0.0`,
and the timestamp as the varint of its bits unless it is zero. -/
def SampleMsg.encode (sample : SampleMsg) : Protobuf.Bytes :=
  (if f64EqZero sample.value then []
    else encodeKey 1 .sixtyFourBit ++ Bytes.toLE 8 sample.value.toNat) ++
  (if sample.timestamp.val = 0 then []
    else encodeKey 2 .varint ++ encodeVarint sample.timestamp.toUsize)

/-- `TimeSeries::encode_raw`: every label, then every sample, then every exemplar. -/
def TimeSeriesMsg.encode (series : TimeSeriesMsg) : Protobuf.Bytes :=
  (series.labels.map fun label => encodeMessageField 1 label.encode).flatten ++
  (series.samples.map fun sample => encodeMessageField 2 sample.encode).flatten ++
  (series.exemplars.map fun exemplar => encodeMessageField 3 exemplar).flatten

/-- `WriteRequest::encode_raw`: every time series, then every metadata. -/
def WriteRequestMsg.encode (req : WriteRequestMsg) : Protobuf.Bytes :=
  (req.timeseries.map fun series => encodeMessageField 1 series.encode).flatten ++
  (req.metadata.map fun metadata => encodeMessageField 3 metadata).flatten

/-! ## What the decoder should make of it -/

/-- The sample read back: a value equal to `0.0` is read as `0.0`. -/
def SampleMsg.decoded (sample : SampleMsg) : Sample :=
  ⟨if f64EqZero sample.value then 0 else sample.value.toNat, sample.timestamp⟩

/-- A time series message decoded into a series: its labels as `merge_field` takes them, in
turn, and its samples after the series' own. -/
def TimeSeriesMsg.decodeInto (mode : PromValidationMode) (series : PromTimeSeries)
    (ts : TimeSeriesMsg) : Except DecodeError PromTimeSeries :=
  (ts.labels.foldlM (PromTimeSeries.addLabel mode) series).map fun series =>
    { series with samples := series.samples ++ ts.samples.map SampleMsg.decoded }

/-- A time series message handed to the tables: decoded into a fresh series, which
`add_to_table_data` adds to its table. -/
def TimeSeriesMsg.addTo (mode : PromValidationMode) (tables : TablesBuilder)
    (ts : TimeSeriesMsg) : Except DecodeError TablesBuilder :=
  ts.decodeInto mode PromTimeSeries.default >>= fun series =>
    (series.addToTableData mode tables).map Prod.fst

/-! ## Labels and samples -/

lemma mergeBytes_lengthDelimited {value : Protobuf.Bytes} (hlen : value.length < 2 ^ 64)
    (rest : Protobuf.Bytes) :
    mergeBytes prost (lengthDelimited value ++ rest) = .ok (value, rest) := by
  unfold mergeBytes
  rw [prost.decodeVarint_lengthDelimited hlen]
  simp only [List.length_append]
  rw [if_neg (by omega), List.take_left, List.drop_left]

/-- The fields of a label's encoding give the label, from a cleared one. -/
lemma fieldsUntil_label_encode {label : PromLabel} (hlen : label.encode.length < 2 ^ 64)
    (tail : Protobuf.Bytes) :
    prost.fieldsUntil id (PromLabel.mergeField prost) tail.length ⟨[], []⟩
      (label.encode ++ tail) = .ok (label, tail) := by
  have hname := length_le_encodeBytesField 1 label.name
  have hvalue := length_le_encodeBytesField 2 label.value
  simp only [PromLabel.encode, List.length_append] at hlen
  unfold PromLabel.encode encodeBytesField
  rw [List.append_assoc]
  -- the name, then the value, each written unless it is empty
  refine (prost.fieldsUntil_optional (by decide : ValidTag 1) ⟨label.name, []⟩ ?_ ?_ ?_).trans
    ?_
  · intro _
    simp [PromLabel.mergeField,
      mergeBytes_lengthDelimited prost (show label.name.length < 2 ^ 64 by omega)]
  · intro h
    rw [h]
  · simp
  refine (prost.fieldsUntil_optional (by decide : ValidTag 2) label ?_ ?_ le_rfl).trans ?_
  · intro _
    simp [PromLabel.mergeField,
      mergeBytes_lengthDelimited prost (show label.value.length < 2 ^ 64 by omega)]
  · intro h
    rw [← h]
  exact prost.fieldsUntil_of_length_le le_rfl

lemma length_sampleMsg_encode_le (sample : SampleMsg) : sample.encode.length ≤ 38 := by
  have hkey₁ := length_encodeVarint_le (1 * 8 + WireType.sixtyFourBit.code)
  have hkey₂ := length_encodeVarint_le (2 * 8 + WireType.varint.code)
  have hts := length_encodeVarint_le sample.timestamp.toUsize
  unfold SampleMsg.encode encodeKey
  split_ifs <;> simp only [List.length_append, List.length_nil, Bytes.length_toLE] <;> omega

/-- `message::merge` of a cleared sample reads the sample back. -/
lemma Sample.merge_lengthDelimited_encode (sample : SampleMsg) (tail : Protobuf.Bytes) :
    Sample.merge prost (lengthDelimited sample.encode ++ tail) = .ok (sample.decoded, tail) := by
  unfold Sample.merge
  refine prost.mergeLoop_lengthDelimited (x := .ok sample.decoded)
    (by have := length_sampleMsg_encode_le sample; omega) ?_
  unfold SampleMsg.encode
  rw [List.append_assoc]
  -- the value, then the timestamp, each written unless it holds its default
  refine (prost.fieldsUntil_optional (by decide : ValidTag 1)
    ⟨sample.decoded.value, Sample.default.timestamp⟩ ?_ ?_ ?_).trans ?_
  · intro h
    simp [Sample.mergeField, SampleMsg.decoded, checkWireType, prost.decodeFixed64_toLE, h]
  · intro h
    simp [SampleMsg.decoded, h, Sample.default]
  · simp
  refine (prost.fieldsUntil_optional (by decide : ValidTag 2) sample.decoded ?_ ?_ le_rfl).trans ?_
  · intro _
    simp [Sample.mergeField, checkWireType, SampleMsg.decoded,
      prost.decodeVarint_encodeVarint (I64.toUsize_lt _), I64.wrap_toUsize]
  · -- a zero timestamp is the default one
    intro h
    have hts : sample.timestamp = Sample.default.timestamp := by
      ext
      rw [h]
      rfl
    simp [SampleMsg.decoded, hts]
  rw [prost.fieldsUntil_of_length_le le_rfl]
  rfl

/-! ## A time series -/

section Series

variable (mode : PromValidationMode) (series : PromTimeSeries) (tail : Protobuf.Bytes)

/-- A label field: the label is read from a cleared one and taken by the series. -/
lemma PromTimeSeries.mergeField_label {label : PromLabel} (hlen : label.encode.length < 2 ^ 64) :
    series.mergeField prost mode 1 .lengthDelimited (lengthDelimited label.encode ++ tail) =
      (series.addLabel mode label).map (·, tail) := by
  simp only [PromTimeSeries.mergeField, prost.decodeVarint_lengthDelimited hlen,
    List.length_append]
  rw [if_neg (by omega), show label.encode.length + tail.length - label.encode.length =
    tail.length by omega, fieldsUntil_label_encode prost hlen]
  simp

/-- A sample field: the sample is read from a cleared one and kept after the others. -/
lemma PromTimeSeries.mergeField_sample (sample : SampleMsg) :
    series.mergeField prost mode 2 .lengthDelimited (lengthDelimited sample.encode ++ tail) =
      .ok ({ series with samples := series.samples ++ [sample.decoded] }, tail) := by
  simp [PromTimeSeries.mergeField, Sample.merge_lengthDelimited_encode]

/-- An exemplar field is skipped. -/
lemma PromTimeSeries.mergeField_exemplar {exemplar : Protobuf.Bytes}
    (hlen : exemplar.length < 2 ^ 64) :
    series.mergeField prost mode 3 .lengthDelimited (lengthDelimited exemplar ++ tail) =
      .ok (series, tail) := by
  simp [PromTimeSeries.mergeField, prost.skipField_lengthDelimited 3 hlen]

lemma foldl_appendSample (samples : List SampleMsg) :
    samples.foldl (fun series (sample : SampleMsg) =>
        { series with samples := series.samples ++ [sample.decoded] }) series =
      { series with samples := series.samples ++ samples.map SampleMsg.decoded } := by
  induction samples generalizing series with
  | nil => simp
  | cons sample samples ih => simp [ih]

/-- The fields of a time series' encoding, read into any series, give what the message makes
of it: its labels, then its samples, then its exemplars, which are skipped. -/
lemma fieldsUntil_timeSeries_encode {ts : TimeSeriesMsg} (hlen : ts.encode.length < 2 ^ 64) :
    prost.fieldsUntil id (PromTimeSeries.mergeField prost mode) tail.length series
        (ts.encode ++ tail) =
      (ts.decodeInto mode series).map (·, tail) := by
  -- every label and exemplar is shorter than the series
  simp only [TimeSeriesMsg.encode, List.length_append] at hlen
  have hlabels : ∀ label ∈ ts.labels, label.encode.length < 2 ^ 64 := fun label hl =>
    Nat.lt_trans (length_lt_of_mem_messageFields 1 PromLabel.encode hl) (by omega)
  have hexemplars : ∀ exemplar ∈ ts.exemplars, exemplar.length < 2 ^ 64 := fun exemplar he =>
    Nat.lt_trans (length_lt_of_mem_messageFields 3 (fun e => e) he) (by omega)
  unfold TimeSeriesMsg.encode encodeMessageField
  simp only [List.append_assoc]
  rw [prost.fieldsUntil_encoded (fun _ => True) (fun _ => 1) (fun _ => .lengthDelimited)
      (fun label => lengthDelimited label.encode) (PromTimeSeries.addLabel mode)
      (fun _ _ => by decide)
      (fun m _ label hl tail => m.mergeField_label prost mode tail (hlabels label hl))
      (fun _ _ _ _ _ _ => trivial) trivial (by simp only [List.length_append]; omega)]
  unfold TimeSeriesMsg.decodeInto
  cases ts.labels.foldlM (PromTimeSeries.addLabel mode) series with
  | error e => rfl
  | ok labelled =>
    -- the samples are appended in order, and the exemplars skipped
    rw [Except.ok_bind, prost.fieldsUntil_encoded (fun _ => True) (fun _ => 2)
        (fun _ => .lengthDelimited) (fun sample => lengthDelimited sample.encode)
        (fun m (sample : SampleMsg) => pure { m with samples := m.samples ++ [sample.decoded] })
        (fun _ _ => by decide) (fun m _ sample _ tail => m.mergeField_sample prost mode tail sample)
        (fun _ _ _ _ _ _ => trivial) trivial (by simp only [List.length_append]; omega),
      List.foldlM_pure, foldl_appendSample]
    rw [pure_bind, prost.fieldsUntil_encoded (fun _ => True) (fun _ => 3)
        (fun _ => .lengthDelimited) lengthDelimited (fun m (_ : Protobuf.Bytes) => pure m)
        (fun _ _ => by decide)
        (fun m _ exemplar he tail => m.mergeField_exemplar prost mode tail (hexemplars exemplar he))
        (fun _ _ _ _ _ _ => trivial) trivial le_rfl,
      List.foldlM_pure, List.foldl_fixed, pure_bind,
      prost.fieldsUntil_of_length_le le_rfl]
    rfl

end Series

/-! ## The request -/

/-- `add_to_table_data` takes the series' table and context, and the clearing after it its
labels and samples: the reused series is the default again. -/
lemma addToTableData_cleared {mode : PromValidationMode} {series series' : PromTimeSeries}
    {tables tables' : TablesBuilder} (h : series.addToTableData mode tables = .ok (tables', series')) :
    { series' with labels := [], samples := [] } = PromTimeSeries.default := by
  simp only [PromTimeSeries.addToTableData] at h
  split at h
  · cases h
  · cases h
    rfl

section Request

variable (mode : PromValidationMode) (tail : Protobuf.Bytes)

/-- The request a time series message leaves: its tables, with the series added, and a
cleared series. -/
def TimeSeriesMsg.mergeInto (req : PromWriteRequest) (ts : TimeSeriesMsg) :
    Except MergeError PromWriteRequest :=
  ((ts.addTo mode req.tableData).map fun tableData =>
    (⟨tableData, PromTimeSeries.default⟩ : PromWriteRequest)).mapError MergeError.decode

lemma TimeSeriesMsg.mergeInto_series {req req' : PromWriteRequest} {ts : TimeSeriesMsg}
    (h : ts.mergeInto mode req = .ok req') : req'.series = PromTimeSeries.default := by
  unfold TimeSeriesMsg.mergeInto at h
  cases hadd : ts.addTo mode req.tableData with
  | error e =>
    rw [hadd] at h
    cases h
  | ok tableData =>
    rw [hadd] at h
    cases h
    rfl

/-- A time series field, read into the cleared series: the series goes to the tables, and the
series is cleared again. -/
lemma PromWriteRequest.mergeField_timeSeries {req : PromWriteRequest}
    (hseries : req.series = PromTimeSeries.default) {ts : TimeSeriesMsg}
    (hlen : ts.encode.length < 2 ^ 64) :
    req.mergeField prost mode 1 .lengthDelimited (lengthDelimited ts.encode ++ tail) =
      (ts.mergeInto mode req).map (·, tail) := by
  simp only [PromWriteRequest.mergeField, ne_eq, not_true_eq_false, if_false,
    prost.decodeVarint_lengthDelimited hlen, List.length_append]
  rw [if_neg (by omega), show ts.encode.length + tail.length - ts.encode.length = tail.length by
    omega, hseries, fieldsUntil_timeSeries_encode prost mode _ tail hlen]
  unfold TimeSeriesMsg.mergeInto TimeSeriesMsg.addTo
  cases ts.decodeInto mode PromTimeSeries.default with
  | error e => rfl
  | ok series =>
    -- the series is whole; it goes to its table, and the reused one is cleared
    simp only [Except.map, not_true_eq_false, if_false, Except.ok_bind]
    cases hadd : series.addToTableData mode req.tableData with
    | error e => rfl
    | ok r =>
      obtain ⟨tableData, series'⟩ := r
      simp only [Except.mapError]
      rw [addToTableData_cleared hadd]

/-- A metadata field is skipped. -/
lemma PromWriteRequest.mergeField_metadata (req : PromWriteRequest) {metadata : Protobuf.Bytes}
    (hlen : metadata.length < 2 ^ 64) :
    req.mergeField prost mode 3 .lengthDelimited (lengthDelimited metadata ++ tail) =
      .ok (req, tail) := by
  simp [PromWriteRequest.mergeField, prost.skipField_lengthDelimited 3 hlen]

/-- The body of a `WriteRequest`, merged into a request whose reused series is cleared, read
series by series: the series is cleared again between them, so each is decoded afresh and
handed to the tables the request holds. -/
lemma PromWriteRequest.merge_encode_of_cleared {req₀ : PromWriteRequest}
    (hcleared : req₀.series = PromTimeSeries.default) {req : WriteRequestMsg}
    (hlen : req.encode.length < 2 ^ 64) :
    req₀.merge prost mode req.encode =
      ((req.timeseries.foldlM (TimeSeriesMsg.addTo mode) req₀.tableData).map fun tableData =>
        (⟨tableData, PromTimeSeries.default⟩ : PromWriteRequest)).mapError MergeError.decode := by
  -- every time series and metadata is shorter than the body
  simp only [WriteRequestMsg.encode, List.length_append] at hlen
  have hseries : ∀ ts ∈ req.timeseries, ts.encode.length < 2 ^ 64 := fun ts h =>
    Nat.lt_trans (length_lt_of_mem_messageFields 1 TimeSeriesMsg.encode h) (by omega)
  have hmetadata : ∀ metadata ∈ req.metadata, metadata.length < 2 ^ 64 := fun metadata h =>
    Nat.lt_trans (length_lt_of_mem_messageFields 3 (fun m => m) h) (by omega)
  obtain ⟨tables, series⟩ := req₀
  obtain rfl : series = PromTimeSeries.default := hcleared
  unfold PromWriteRequest.merge WriteRequestMsg.encode encodeMessageField
  -- the series are read with the reused series cleared between them
  rw [← List.append_nil (_ ++ _), List.append_assoc,
    prost.fieldsUntil_encoded (fun r => r.series = PromTimeSeries.default) (fun _ => 1)
      (fun _ => .lengthDelimited) (fun ts => lengthDelimited ts.encode)
      (TimeSeriesMsg.mergeInto mode) (fun _ _ => by decide)
      (fun r hr ts hts tail =>
        PromWriteRequest.mergeField_timeSeries prost mode tail hr (hseries ts hts))
      (fun _ _ _ _ _ h => TimeSeriesMsg.mergeInto_series mode h) rfl (by simp)]
  unfold TimeSeriesMsg.mergeInto
  rw [Except.foldlM_map_mapError (TimeSeriesMsg.addTo mode) _ PromWriteRequest.tableData
    (fun _ => rfl)]
  cases req.timeseries.foldlM (TimeSeriesMsg.addTo mode) tables with
  | error e => rfl
  | ok tables =>
    -- then the metadata, skipped
    simp only [Except.map, Except.mapError, Except.ok_bind]
    rw [prost.fieldsUntil_encoded (fun _ => True) (fun _ => 3) (fun _ => .lengthDelimited)
        lengthDelimited (fun r (_ : Protobuf.Bytes) => pure r) (fun _ _ => by decide)
        (fun r _ metadata hm tail =>
          PromWriteRequest.mergeField_metadata prost mode tail r (hmetadata metadata hm))
        (fun _ _ _ _ _ _ => trivial) trivial (Nat.zero_le _),
      List.foldlM_pure, List.foldl_fixed, pure_bind, prost.fieldsUntil_of_length_le (Nat.zero_le _)]

/-- `PromWriteRequest::merge` reads the body of every `WriteRequest` as its time series handed
one after the other to the tables, each decoded into a fresh series, and fails with the first
series the tables refuse. -/
theorem merge_encode {req : WriteRequestMsg} (hlen : req.encode.length < 2 ^ 64) :
    PromWriteRequest.default.merge prost mode req.encode =
      ((req.timeseries.foldlM (TimeSeriesMsg.addTo mode) ⟨[]⟩).map fun tableData =>
        (⟨tableData, PromTimeSeries.default⟩ : PromWriteRequest)).mapError MergeError.decode :=
  PromWriteRequest.merge_encode_of_cleared prost mode rfl hlen

theorem merge_encode_oneSample :
    PromWriteRequest.default.merge Prost.decoder .strict
        (WriteRequestMsg.encode
          ⟨[⟨[⟨[0x6a, 0x6f, 0x62], [0x61]⟩], [⟨0x3FF0000000000000, I64.wrap 1000⟩], []⟩], []⟩) =
      (([⟨[⟨[0x6a, 0x6f, 0x62], [0x61]⟩], [⟨0x3FF0000000000000, I64.wrap 1000⟩], []⟩].foldlM
          (TimeSeriesMsg.addTo .strict) ⟨[]⟩).map fun tableData =>
        (⟨tableData, PromTimeSeries.default⟩ : PromWriteRequest)).mapError MergeError.decode :=
  merge_encode Prost.decoder .strict (by decide)

/-- For every remote-write body as the `prost` encoder writes it, the request of each table
after `PromWriteRequest::merge` is the table that the body's series of that context and table
name make, in their order, and there is a table only where a series went.  The merge fails with
the first error of a series, in the order of the series. -/
theorem merge_encode_tables {req : WriteRequestMsg} (hlen : req.encode.length < 2 ^ 64)
    (key : PromCtx × Protobuf.Bytes) :
    (PromWriteRequest.default.merge prost mode req.encode).map
        (fun r => (r.tableData.tables.lookup key).map (·.asRowInsertRequest key.2)) =
      ((req.timeseries.foldlM (fun log ts =>
          ts.decodeInto mode PromTimeSeries.default >>= fun series =>
            (decodeLabels mode series.labels).map fun decoded => log ++ [(series, decoded)])
          []).map fun log => (tableAt log key).map (·.request key.2)).mapError
        MergeError.decode := by
  rw [PromWriteRequest.merge_encode_of_cleared prost mode rfl hlen, Except.map_mapError,
    Except.map_map]
  -- each series, once decoded, goes to the tables as the log records it
  have hstep : ∀ (tables : TablesBuilder) log (ts : TimeSeriesMsg), tables.Refines log →
      Except.Rel TablesBuilder.Refines (TimeSeriesMsg.addTo mode tables ts)
        (ts.decodeInto mode PromTimeSeries.default >>= fun series =>
          (decodeLabels mode series.labels).map fun decoded => log ++ [(series, decoded)]) :=
    fun _ _ _ h => Except.rel_bind_left fun series => by
      simpa [Function.comp_def] using h.addToTableData mode series
  have hrun := Except.rel_foldlM hstep req.timeseries TablesBuilder.refines_empty
  exact congrArg (Except.mapError MergeError.decode)
    (hrun.map_eq fun _ _ h => h.lookup_request key)

theorem merge_encode_tables_oneSample :
    (PromWriteRequest.default.merge Prost.decoder .strict
        (WriteRequestMsg.encode
          ⟨[⟨[⟨[0x6a, 0x6f, 0x62], [0x61]⟩], [⟨0x3FF0000000000000, I64.wrap 1000⟩], []⟩], []⟩)).map
        (fun r => (r.tableData.tables.lookup (⟨none, none⟩, [])).map (·.asRowInsertRequest [])) =
      (([⟨[⟨[0x6a, 0x6f, 0x62], [0x61]⟩], [⟨0x3FF0000000000000, I64.wrap 1000⟩], []⟩].foldlM
          (fun log (ts : TimeSeriesMsg) =>
            ts.decodeInto .strict PromTimeSeries.default >>= fun series =>
              (decodeLabels .strict series.labels).map fun decoded => log ++ [(series, decoded)])
          []).map fun log => (tableAt log (⟨none, none⟩, [])).map (·.request [])).mapError
        MergeError.decode :=
  merge_encode_tables Prost.decoder .strict (by decide) (⟨none, none⟩, [])

end Request

end Greptime
