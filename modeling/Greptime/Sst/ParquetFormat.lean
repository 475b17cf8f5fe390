import Greptime.Read.Batch
import Greptime.Foundations.Grouping
import Greptime.Foundations.Except

/-!
# The primary key format of SST files (`mito2::sst::parquet::format`)

An SST file stores its rows in Parquet, one Arrow record batch at a time, in the layout
`to_sst_arrow_schema` gives: the field columns of the region in their order, then the time
index, then three internal columns: the encoded primary key of each row (a dictionary array
whose values are the primary keys), its sequence and its op type.  `FIXED_POS_COLUMN_NUM`
counts the last four.  Arrow's `RecordBatch::try_new` is a parameter (`RecordBatch.TryNew`):
the facts of it that the format relies on are its fields.

`PrimaryKeyWriteFormat::convert_batch` lays a `Batch` (the rows of one primary key) out this
way: its field columns, checked one by one against the metadata's, its timestamps, a dictionary
whose one value is its primary key, its sequences (or the override sequence on every row) and
its op types.  `PrimaryKeyReadFormat::convert_record_batch` reads a record batch back: it finds
the ids of the field columns by name in the metadata, computes the offsets where the dictionary
key changes (`primary_key_offsets`) and builds one batch from each slice between consecutive
offsets with a `BatchBuilder`, whose `build` checks that every column has the length of the
timestamps.

An Arrow array is modelled by the kinds the format tells apart (`ArrowArray`): the field
columns' values are one abstract type `V`, so a field column is a `field` array.  A
`RecordBatch` carries as fields what `RecordBatch::try_new` checks: its schema names every
column, and its columns have one length.  A `Batch` of the source is the row model `Batch` with
the ids of its field columns beside it.

The reader's offsets cut the rows into their maximal runs of one dictionary key
(`Grouping.slices_changeOffsets`), so reading a record batch in the SST layout gives one batch
for each such run, in order (`convertRecordBatch_of_layout`).  From it: the reader keeps every
row in order, in non-empty batches whose neighbours have different primary keys when the
dictionary's values are distinct (`convertRecordBatch_rows`); reading back what `convert_batch`
wrote gives the batch written (`convertRecordBatch_convertBatch`); and `convert_batch` fails
exactly when the batch's field ids do not begin with the metadata's (`convertBatch_ok_iff_prefix`).

Left out: the Arrow data types beyond these kinds (a field column whose type is that of an
internal column is a field to the source, a conversion error here), null values (the source
asserts the internal columns have none), the projection of the read format and the statistics
of row groups, and the flat format.
-/

namespace Greptime

namespace Sst

open Grouping (changeOffsets offsetPairs slices)

variable {K V : Type}

/-- `FIXED_POS_COLUMN_NUM`: the time index and the three internal columns. -/
def fixedPosColumnNum : ℕ := 4

/-- `PRIMARY_KEY_COLUMN_NAME`. -/
def primaryKeyColumnName : String := "__primary_key"

/-- `SEQUENCE_COLUMN_NAME`. -/
def sequenceColumnName : String := "__sequence"

/-- `OP_TYPE_COLUMN_NAME`. -/
def opTypeColumnName : String := "__op_type"

/-! ## Region metadata -/

/-- `api::v1::SemanticType`. -/
inductive SemanticType
  | tag
  | field
  | timestamp
  deriving DecidableEq, Repr

/-- The part of `ColumnMetadata` the format reads. -/
structure ColumnMetadata where
  name : String
  columnId : ℕ
  semanticType : SemanticType
  deriving DecidableEq, Repr

/-- The part of `RegionMetadata` the format reads: the columns in their order, and the name of
the time index column (`time_index_field`). -/
structure RegionMetadata where
  columnMetadatas : List ColumnMetadata
  timeIndexName : String
  deriving DecidableEq, Repr

namespace RegionMetadata

/-- `RegionMetadata::field_columns`. -/
def fieldColumns (metadata : RegionMetadata) : List ColumnMetadata :=
  metadata.columnMetadatas.filter (·.semanticType == .field)

/-- `RegionMetadata::column_by_name`: the column of a name (the names of a region's columns
are distinct, and the source looks the name up in the schema's index). -/
def columnByName (metadata : RegionMetadata) (name : String) : Option ColumnMetadata :=
  metadata.columnMetadatas.find? (·.name == name)

/-- Among distinct names, the name of a column finds that column. -/
lemma columnByName_of_mem {metadata : RegionMetadata}
    (hnames : (metadata.columnMetadatas.map ColumnMetadata.name).Nodup) {column : ColumnMetadata}
    (hc : column ∈ metadata.columnMetadatas) : metadata.columnByName column.name = some column := by
  obtain ⟨found, hfind⟩ :
      ∃ found, metadata.columnMetadatas.find? (·.name == column.name) = some found :=
    Option.isSome_iff_exists.mp (List.find?_isSome.mpr ⟨column, hc, by simp⟩)
  have hname : found.name = column.name := by simpa using List.find?_some hfind
  -- the column found has the name, and no two columns share one
  rw [columnByName, hfind, List.inj_on_of_nodup_map hnames (List.mem_of_find?_eq_some hfind) hc hname]

end RegionMetadata

/-- `to_sst_arrow_schema`: the names of the columns of an SST file. -/
def toSstArrowSchema (metadata : RegionMetadata) : List String :=
  metadata.fieldColumns.map (·.name) ++
    [metadata.timeIndexName, primaryKeyColumnName, sequenceColumnName, opTypeColumnName]

/-! ## Arrow arrays and record batches -/

/-- An Arrow array of an SST record batch, by the types the format tells apart: a timestamp
array (the values of the time index, in its unit), a `UInt64` array (sequences), a `UInt8`
array (op types, `OpType as u8`), a dictionary of `UInt32` keys into binary values (the encoded
primary keys; Arrow builds one only with keys in range) and a field column. -/
inductive ArrowArray (K V : Type)
  | timestamp (values : List ℤ)
  | uint64 (values : List ℕ)
  | uint8 (values : List OpType)
  | dictionary (keys : List ℕ) (values : List K)
  | field (values : List (Option V))
  deriving DecidableEq, Repr

namespace ArrowArray

/-- `Array::len`. -/
def len : ArrowArray K V → ℕ
  | timestamp values => values.length
  | uint64 values => values.length
  | uint8 values => values.length
  | dictionary keys _ => keys.length
  | field values => values.length

/-- `Array::slice(offset, length)`: `length` values from `offset`; a dictionary keeps its
values.  Arrow panics past the end of the array; the format slices only within it. -/
def slice (array : ArrowArray K V) (offset length : ℕ) : ArrowArray K V :=
  match array with
  | timestamp values => timestamp ((values.drop offset).take length)
  | uint64 values => uint64 ((values.drop offset).take length)
  | uint8 values => uint8 ((values.drop offset).take length)
  | dictionary keys values => dictionary ((keys.drop offset).take length) values
  | field values => field ((values.drop offset).take length)

@[simp] lemma len_timestamp (values : List ℤ) :
    (timestamp values : ArrowArray K V).len = values.length := rfl
@[simp] lemma len_uint64 (values : List ℕ) :
    (uint64 values : ArrowArray K V).len = values.length := rfl
@[simp] lemma len_uint8 (values : List OpType) :
    (uint8 values : ArrowArray K V).len = values.length := rfl
@[simp] lemma len_dictionary (keys : List ℕ) (values : List K) :
    (dictionary keys values : ArrowArray K V).len = keys.length := rfl
@[simp] lemma len_field (values : List (Option V)) :
    (field values : ArrowArray K V).len = values.length := rfl

end ArrowArray

/-- `arrow::record_batch::RecordBatch`: named columns of one length.  The two fields after the
row count are what `RecordBatch::try_new` checks. -/
structure RecordBatch (K V : Type) where
  schema : List String
  columns : List (ArrowArray K V)
  numRows : ℕ
  schema_length : schema.length = columns.length
  len_eq : ∀ array ∈ columns, array.len = numRows

/-- The checks of `RecordBatch::try_new` that the format can fail. -/
inductive ArrowError
  /-- the schema has another number of fields than there are columns -/
  | columnCount (columns fields : ℕ)
  /-- no column, and so no row count -/
  | noColumns
  /-- a column has another length than the first -/
  | columnLength
  deriving DecidableEq, Repr

namespace RecordBatch

/-- `RecordBatch::try_new`: the columns under the schema's names, once there are as many as
names and all have the length of the first. -/
def tryNew (schema : List String) (columns : List (ArrowArray K V)) :
    Except ArrowError (RecordBatch K V) :=
  if hs : schema.length = columns.length then
    match columns, hs with
    | [], _ => .error .noColumns
    | first :: rest, hs =>
      if hl : ∀ array ∈ first :: rest, array.len = first.len then
        .ok ⟨schema, first :: rest, first.len, hs, hl⟩
      else .error .columnLength
  else .error (.columnCount columns.length schema.length)

/-- `try_new` keeps the schema and the columns it is given. -/
lemma tryNew_eq_ok {schema : List String} {columns : List (ArrowArray K V)} {rb : RecordBatch K V}
    (h : tryNew schema columns = .ok rb) : rb.schema = schema ∧ rb.columns = columns := by
  unfold tryNew at h
  split at h
  · split at h
    · cases h
    · split at h
      · cases h
        exact ⟨rfl, rfl⟩
      · cases h
  · cases h

/-- `try_new` succeeds on as many columns as names, of one length. -/
lemma tryNew_isOk {schema : List String} {columns : List (ArrowArray K V)} {n : ℕ}
    (hs : schema.length = columns.length) (hne : columns ≠ [])
    (hl : ∀ array ∈ columns, array.len = n) :
    ∃ rb, tryNew schema columns = .ok rb ∧ rb.schema = schema ∧ rb.columns = columns := by
  obtain ⟨first, rest, rfl⟩ := List.exists_cons_of_ne_nil hne
  have hfirst : first.len = n := hl first List.mem_cons_self
  have hl' : ∀ array ∈ first :: rest, array.len = first.len := fun a ha => hfirst ▸ hl a ha
  have hrest : ∀ array ∈ rest, array.len = first.len := fun a ha =>
    hl' a (List.mem_cons_of_mem _ ha)
  refine ⟨⟨schema, first :: rest, first.len, hs, hl'⟩, ?_, rfl, rfl⟩
  simp only [tryNew, hs, dite_true, List.forall_mem_cons, true_and]
  exact dif_pos hrest

/-- What the format takes of arrow's `RecordBatch::try_new`: a batch it returns has the schema
and the columns it was given, and it returns one for as many columns as the schema has fields,
all of one length, which carry their fields' data types and nullability.  The model's schema
holds the names only, so that last condition is not stated: a `TryNew` is `try_new` on columns
that carry their fields' types, as the columns `convert_batch` builds from a batch of the
metadata's types do. -/
structure TryNew (K V : Type) where
  run : List String → List (ArrowArray K V) → Except ArrowError (RecordBatch K V)
  eq_ok : ∀ {schema columns rb}, run schema columns = .ok rb →
    rb.schema = schema ∧ rb.columns = columns
  isOk : ∀ {schema columns n}, schema.length = columns.length → columns ≠ [] →
    (∀ array ∈ columns, array.len = n) → ∃ rb, run schema columns = .ok rb

/-- `try_new` with the checks the model can state: the count and the length of the columns. -/
def TryNew.lengths : TryNew K V where
  run := tryNew
  eq_ok := tryNew_eq_ok
  isOk hs hne hl := (tryNew_isOk hs hne hl).imp fun _ h => h.1

end RecordBatch

/-! ## Errors -/

/-- The `reason` of an `Error::InvalidBatch` of the format and of `BatchBuilder`. -/
inductive InvalidBatchReason
  /-- "Batch has column {} but metadata has column {}" -/
  | columnMismatch (batchColumnId metadataColumnId : ℕ)
  /-- "{:?} is not a timestamp type" -/
  | notTimestamp
  /-- "sequence array is not UInt64 type" -/
  | sequenceNotUInt64
  /-- "sequence array is not UInt8 type": the check of the op type array, in the words of the
  sequence array's -/
  | opTypeNotUInt8
  /-- "missing timestamps" -/
  | missingTimestamps
  /-- "missing sequences" -/
  | missingSequences
  /-- "missing op_types" -/
  | missingOpTypes
  /-- "sequence have different len {} != {}" -/
  | sequenceLen (len tsLen : ℕ)
  /-- "op type have different len {} != {}" -/
  | opTypeLen (len tsLen : ℕ)
  /-- "column {} has different len {} != {}" -/
  | columnLen (columnId len tsLen : ℕ)
  deriving DecidableEq, Repr

/-- The `reason` of an `Error::InvalidRecordBatch` of the reader. -/
inductive InvalidRecordBatchReason
  /-- "record batch only has {} columns" -/
  | columnCount (numColumns : ℕ)
  /-- "column {} not found in metadata" -/
  | columnNotFound (name : String)
  /-- "primary key array should not be {:?}" -/
  | primaryKeyArray
  deriving DecidableEq, Repr

/-- The errors of `mito2::error::Error` the format raises. -/
inductive FormatError
  | invalidBatch (reason : InvalidBatchReason)
  | invalidRecordBatch (reason : InvalidRecordBatchReason)
  /-- `NewRecordBatch`: `RecordBatch::try_new` failed. -/
  | newRecordBatch (error : ArrowError)
  /-- `ConvertVector`: `Helper::try_into_vector` could not read a column as field values. -/
  | convertVector
  deriving DecidableEq, Repr

/-! ## Building batches -/

/-- `BatchColumn`: a field column of a batch. -/
structure BatchColumn (V : Type) where
  columnId : ℕ
  data : List (Option V)
  deriving DecidableEq, Repr

/-- The entries of columns of one length: entry `i` takes the `i`-th value of each column. -/
def entriesOf (timestamps : List ℤ) (sequences : List ℕ) (opTypes : List OpType)
    (fields : List (List (Option V))) : List (Entry V) :=
  (List.range timestamps.length).map fun i =>
    ⟨timestamps.getD i 0, sequences.getD i 0, opTypes.getD i .put, fields.map (·.getD i none)⟩

@[simp] lemma length_entriesOf (timestamps : List ℤ) (sequences : List ℕ) (opTypes : List OpType)
    (fields : List (List (Option V))) :
    (entriesOf timestamps sequences opTypes fields).length = timestamps.length := by
  simp [entriesOf]

/-- Slicing every column slices the entries. -/
lemma entriesOf_slice (timestamps : List ℤ) (sequences : List ℕ) (opTypes : List OpType)
    (fields : List (List (Option V))) (offset length : ℕ) :
    entriesOf ((timestamps.drop offset).take length) ((sequences.drop offset).take length)
        ((opTypes.drop offset).take length) (fields.map fun c => (c.drop offset).take length) =
      ((entriesOf timestamps sequences opTypes fields).drop offset).take length := by
  apply List.ext_getElem (by simp)
  intro i hi _
  simp only [length_entriesOf, List.length_take, List.length_drop] at hi
  simp only [entriesOf, List.getElem_take, List.getElem_drop, List.getElem_map, List.getElem_range,
    List.map_map, Function.comp_def, List.getD_eq_getElem?_getD, List.getElem?_take,
    List.getElem?_drop]
  simp [show i < length by omega]

/-- `BatchBuilder`. -/
structure BatchBuilder (K V : Type) where
  primaryKey : K
  timestamps : Option (List ℤ)
  sequences : Option (List ℕ)
  opTypes : Option (List OpType)
  fields : List (BatchColumn V)

namespace BatchBuilder

/-- `BatchBuilder::new`. -/
def new (primaryKey : K) : BatchBuilder K V := ⟨primaryKey, none, none, none, []⟩

/-- `BatchBuilder::timestamps_array`. -/
def timestampsArray (builder : BatchBuilder K V) :
    ArrowArray K V → Except FormatError (BatchBuilder K V)
  | .timestamp values => .ok { builder with timestamps := some values }
  | _ => .error (.invalidBatch .notTimestamp)

/-- `BatchBuilder::sequences_array`. -/
def sequencesArray (builder : BatchBuilder K V) :
    ArrowArray K V → Except FormatError (BatchBuilder K V)
  | .uint64 values => .ok { builder with sequences := some values }
  | _ => .error (.invalidBatch .sequenceNotUInt64)

/-- `BatchBuilder::op_types_array`. -/
def opTypesArray (builder : BatchBuilder K V) :
    ArrowArray K V → Except FormatError (BatchBuilder K V)
  | .uint8 values => .ok { builder with opTypes := some values }
  | _ => .error (.invalidBatch .opTypeNotUInt8)

/-- `BatchBuilder::push_field`. -/
def pushField (builder : BatchBuilder K V) (column : BatchColumn V) : BatchBuilder K V :=
  { builder with fields := builder.fields ++ [column] }

/-- `BatchBuilder::build`: the batch, with the ids of its field columns, once all three
internal columns are set and every column has the length of the timestamps. -/
def build (builder : BatchBuilder K V) : Except FormatError (Batch K V × List ℕ) :=
  match builder.timestamps, builder.sequences, builder.opTypes with
  | none, _, _ => .error (.invalidBatch .missingTimestamps)
  | some _, none, _ => .error (.invalidBatch .missingSequences)
  | some _, some _, none => .error (.invalidBatch .missingOpTypes)
  | some timestamps, some sequences, some opTypes =>
    if sequences.length ≠ timestamps.length then
      .error (.invalidBatch (.sequenceLen sequences.length timestamps.length))
    else if opTypes.length ≠ timestamps.length then
      .error (.invalidBatch (.opTypeLen opTypes.length timestamps.length))
    else
      match builder.fields.find? (·.data.length != timestamps.length) with
      | some column =>
        .error (.invalidBatch (.columnLen column.columnId column.data.length timestamps.length))
      | none =>
        .ok (⟨builder.primaryKey,
            entriesOf timestamps sequences opTypes (builder.fields.map (·.data))⟩,
          builder.fields.map (·.columnId))

/-- A builder whose columns all have the length of its timestamps builds the batch of their
entries. -/
lemma build_eq_ok (primaryKey : K) {timestamps : List ℤ} {sequences : List ℕ}
    {opTypes : List OpType} {fields : List (BatchColumn V)}
    (hseq : sequences.length = timestamps.length) (hop : opTypes.length = timestamps.length)
    (hfields : ∀ c ∈ fields, c.data.length = timestamps.length) :
    build ⟨primaryKey, some timestamps, some sequences, some opTypes, fields⟩ =
      .ok (⟨primaryKey, entriesOf timestamps sequences opTypes (fields.map (·.data))⟩,
        fields.map (·.columnId)) := by
  have hnone : fields.find? (·.data.length != timestamps.length) = none := by
    rw [List.find?_eq_none]
    intro c hc
    simp [hfields c hc]
  simp [build, hseq, hop, hnone]

/-- Pushing the images of columns one after another. -/
lemma foldl_pushField {α : Type} (f : α → BatchColumn V) (builder : BatchBuilder K V)
    (columns : List α) :
    columns.foldl (fun builder column => builder.pushField (f column)) builder =
      { builder with fields := builder.fields ++ columns.map f } := by
  induction columns generalizing builder with
  | nil => simp
  | cons c columns ih =>
    rw [List.foldl_cons, ih]
    simp [pushField]

end BatchBuilder

/-! ## Writing -/

/-- `new_primary_key_array`: `num_rows` keys `0` into the one value `primary_key`. -/
def newPrimaryKeyArray (primaryKey : K) (numRows : ℕ) : ArrowArray K V :=
  .dictionary (List.replicate numRows 0) [primaryKey]

/-- The values of the field column at position `j` of a batch. -/
def fieldData (batch : Batch K V) (j : ℕ) : List (Option V) :=
  batch.entries.map fun e => e.fields.getD j none

/-- `Batch::fields`: the field columns of a batch whose field columns have the ids `fieldIds`. -/
def batchFields (fieldIds : List ℕ) (batch : Batch K V) : List (BatchColumn V) :=
  fieldIds.zipIdx.map fun (columnId, j) => ⟨columnId, fieldData batch j⟩

/-- One pass of the loop of `convert_batch` over the field columns: the array of a column whose
id is the one of the metadata's column beside it. -/
def fieldArray (column : BatchColumn V) (columnMetadata : ColumnMetadata) :
    Except FormatError (ArrowArray K V) :=
  if column.columnId = columnMetadata.columnId then .ok (.field column.data)
  else .error (.invalidBatch (.columnMismatch column.columnId columnMetadata.columnId))

/-- `PrimaryKeyWriteFormat::convert_batch`, with the format's `override_sequence`: the record
batch of a batch whose field columns have the ids `fieldIds`. -/
def convertBatch (tryNew : RecordBatch.TryNew K V) (metadata : RegionMetadata)
    (overrideSequence : Option ℕ) (fieldIds : List ℕ) (batch : Batch K V) :
    Except FormatError (RecordBatch K V) := do
  -- the batch's fields zipped with the metadata's: the shorter list sets how many are stored
  let fields ← ((batchFields fieldIds batch).zip metadata.fieldColumns).mapM fun p =>
    fieldArray p.1 p.2
  let sequences := (overrideSequence.map (List.replicate batch.numRows)).getD
    (batch.entries.map Entry.seq)
  (tryNew.run (toSstArrowSchema metadata)
    (fields ++ [.timestamp (batch.entries.map Entry.ts),
      newPrimaryKeyArray batch.primaryKey batch.numRows, .uint64 sequences,
      .uint8 (batch.entries.map Entry.op)])).mapError .newRecordBatch

/-! ## Reading -/

/-- `Helper::try_into_vector` on a field column. -/
def tryIntoVector : ArrowArray K V → Except FormatError (List (Option V))
  | .field values => .ok values
  | _ => .error .convertVector

/-- `PrimaryKeyReadFormat::get_field_batch_columns`: every column before the fixed ones, with
the id the metadata gives its name. -/
def getFieldBatchColumns (metadata : RegionMetadata) (recordBatch : RecordBatch K V) :
    Except FormatError (List (BatchColumn V)) :=
  ((recordBatch.columns.zip recordBatch.schema).take
      (recordBatch.columns.length - fixedPosColumnNum)).mapM fun (array, name) => do
    let vector ← tryIntoVector array
    match metadata.columnByName name with
    | some column => pure ⟨column.columnId, vector⟩
    | none => throw (.invalidRecordBatch (.columnNotFound name))

/-- `primary_key_offsets`: `0`, each `i + 1` whose key differs from the key at `i`, and the
number of keys; nothing for no key. -/
def primaryKeyOffsets (keys : List ℕ) : List ℕ := changeOffsets keys

/-- One pass of the loop of `convert_record_batch`: the batch of the rows from `start` to
`stop`, under the primary key the dictionary gives the key at `start`. -/
def convertSlice [Inhabited K] (keys : List ℕ) (pkValues : List K)
    (tsArray sequenceArray opTypeArray : ArrowArray K V) (fieldBatchColumns : List (BatchColumn V))
    (start stop : ℕ) : Except FormatError (Batch K V × List ℕ) := do
  let rowsInBatch := stop - start
  let primaryKey := pkValues.getD (keys.getD start 0) default
  let builder ← (BatchBuilder.new primaryKey).timestampsArray (tsArray.slice start rowsInBatch)
  let builder ← builder.sequencesArray (sequenceArray.slice start rowsInBatch)
  let builder ← builder.opTypesArray (opTypeArray.slice start rowsInBatch)
  let builder := fieldBatchColumns.foldl (fun builder column =>
    builder.pushField ⟨column.columnId, (column.data.drop start).take rowsInBatch⟩) builder
  builder.build

/-- `PrimaryKeyReadFormat::convert_record_batch`: the batches of a record batch, one for each
slice between consecutive primary key offsets.  An override sequence array replaces the
sequences; the source asserts it is at least as long as the record batch. -/
def convertRecordBatch [Inhabited K] (metadata : RegionMetadata)
    (overrideSequenceArray : Option (List ℕ)) (recordBatch : RecordBatch K V) :
    Except FormatError (List (Batch K V × List ℕ)) := do
  if recordBatch.columns.length < fixedPosColumnNum then
    throw (.invalidRecordBatch (.columnCount recordBatch.columns.length))
  match recordBatch.columns.reverse with
  | opTypeArray :: sequenceArray :: pkArray :: tsArray :: _ =>
    let fieldBatchColumns ← getFieldBatchColumns metadata recordBatch
    let sequenceArray := (overrideSequenceArray.map fun overrideArray =>
      ArrowArray.uint64 (overrideArray.take sequenceArray.len)).getD sequenceArray
    match pkArray with
    | .dictionary keys pkValues =>
      -- no key gives no offset, and so no batch
      (offsetPairs (primaryKeyOffsets keys)).mapM fun (start, stop) =>
        convertSlice keys pkValues tsArray sequenceArray opTypeArray fieldBatchColumns start stop
    | _ => throw (.invalidRecordBatch .primaryKeyArray)
  -- the check of the column count leaves at least four columns
  | _ => pure []

/-! ## Reading a record batch in the SST layout -/

/-- The entries of a record batch in the SST layout, each with its dictionary key. -/
def keyedEntries (keys : List ℕ) (timestamps : List ℤ) (sequences : List ℕ)
    (opTypes : List OpType) (fieldBatchColumns : List (BatchColumn V)) : List (ℕ × Entry V) :=
  keys.zip (entriesOf timestamps sequences opTypes (fieldBatchColumns.map (·.data)))

/-- The batch of a run of entries: the primary key the dictionary gives the run's key, the
run's entries, and the ids of the field columns. -/
def runBatch [Inhabited K] (pkValues : List K) (fieldIds : List ℕ) (run : List (ℕ × Entry V)) :
    Batch K V × List ℕ :=
  (⟨pkValues.getD ((run.head?.map Prod.fst).getD 0) default, run.map Prod.snd⟩, fieldIds)

lemma tryIntoVector_eq_ok {array : ArrowArray K V} {vector : List (Option V)}
    (h : tryIntoVector array = .ok vector) : array = .field vector := by
  cases array <;> cases h
  rfl

/-- The field columns the reader finds have the length of the record batch. -/
lemma length_data_of_getFieldBatchColumns {metadata : RegionMetadata}
    {recordBatch : RecordBatch K V} {fieldBatchColumns : List (BatchColumn V)}
    (h : getFieldBatchColumns metadata recordBatch = .ok fieldBatchColumns) :
    ∀ c ∈ fieldBatchColumns, c.data.length = recordBatch.numRows := by
  intro c hc
  obtain ⟨⟨array, name⟩, hmem, hstep⟩ := Except.exists_mem_of_mapM_eq_ok h hc
  obtain ⟨vector, hvector, hcolumn⟩ := Except.bind_eq_ok.mp hstep
  have harray : array ∈ recordBatch.columns := (List.of_mem_zip (List.mem_of_mem_take hmem)).1
  -- the column is the field array of the vector, and every column has the batch's length
  have hlen := recordBatch.len_eq array harray
  rw [tryIntoVector_eq_ok hvector, ArrowArray.len_field] at hlen
  split at hcolumn
  · cases hcolumn
    exact hlen
  · cases hcolumn

/-- Field columns named as columns of the metadata, before the four fixed ones, are read back
with the ids of those columns. -/
lemma getFieldBatchColumns_of_layout {metadata : RegionMetadata}
    (hnames : (metadata.columnMetadatas.map ColumnMetadata.name).Nodup)
    {recordBatch : RecordBatch K V} {fields : List (ColumnMetadata × List (Option V))}
    {fixed : List (ArrowArray K V)} {fixedNames : List String}
    (hmem : ∀ p ∈ fields, p.1 ∈ metadata.columnMetadatas)
    (hfixed : fixed.length = fixedPosColumnNum)
    (hcolumns : recordBatch.columns = fields.map (fun p => .field p.2) ++ fixed)
    (hschema : recordBatch.schema = fields.map (·.1.name) ++ fixedNames) :
    getFieldBatchColumns metadata recordBatch = .ok (fields.map fun p => ⟨p.1.columnId, p.2⟩) := by
  -- the columns before the fixed ones, with their names, are the fields
  have hzip : (recordBatch.columns.zip recordBatch.schema).take
      (recordBatch.columns.length - fixedPosColumnNum) =
      fields.map fun p => ((.field p.2 : ArrowArray K V), p.1.name) := by
    rw [hcolumns, hschema, List.zip_append (by simp), List.take_left' (by simp [hfixed]),
      List.zip_map']
  rw [getFieldBatchColumns, hzip, List.mapM_map]
  apply Except.mapM_eq_ok_map
  intro p hp
  simp [tryIntoVector, RegionMetadata.columnByName_of_mem hnames (hmem p hp)]

/-- The rows from `start` of keyed entries, as many as `length`. -/
lemma drop_take_keyedEntries (keys : List ℕ) (timestamps : List ℤ) (sequences : List ℕ)
    (opTypes : List OpType) (fieldBatchColumns : List (BatchColumn V)) (start length : ℕ) :
    ((keyedEntries keys timestamps sequences opTypes fieldBatchColumns).drop start).take length =
      ((keys.drop start).take length).zip
        (((entriesOf timestamps sequences opTypes (fieldBatchColumns.map (·.data))).drop start).take
          length) := by
  simp only [keyedEntries, List.zip_eq_zipWith, List.drop_zipWith, List.take_zipWith]

/-- One pass of the loop over columns of one length builds the batch of the rows between its
offsets, under the key of the first of them. -/
lemma convertSlice_eq [Inhabited K] {keys : List ℕ} (pkValues : List K) {timestamps : List ℤ}
    {sequences : List ℕ} {opTypes : List OpType} {fieldBatchColumns : List (BatchColumn V)} {n : ℕ}
    (hkeys : keys.length = n) (hts : timestamps.length = n) (hseq : sequences.length = n)
    (hop : opTypes.length = n) (hfields : ∀ c ∈ fieldBatchColumns, c.data.length = n)
    {start stop : ℕ}
    (hne : ((keyedEntries keys timestamps sequences opTypes fieldBatchColumns).drop start).take
      (stop - start) ≠ []) :
    convertSlice keys pkValues (.timestamp timestamps) (.uint64 sequences) (.uint8 opTypes)
        fieldBatchColumns start stop =
      .ok (runBatch pkValues (fieldBatchColumns.map (·.columnId))
        (((keyedEntries keys timestamps sequences opTypes fieldBatchColumns).drop start).take
          (stop - start))) := by
  -- the piece is not empty: it starts within the columns and has a row
  have hpos : stop - start ≠ 0 ∧ start < n := by
    constructor
    · rintro h0
      exact hne (by rw [h0, List.take_zero])
    · by_contra hge
      apply hne
      simp [keyedEntries, hkeys, hts]
      omega
  set piece := ((keyedEntries keys timestamps sequences opTypes fieldBatchColumns).drop start).take
    (stop - start) with hpiece
  rw [drop_take_keyedEntries] at hpiece
  -- every sliced column has the length of the sliced timestamps
  have hfields' : ∀ c ∈ fieldBatchColumns.map (fun column : BatchColumn V =>
      (⟨column.columnId, (column.data.drop start).take (stop - start)⟩ : BatchColumn V)),
      c.data.length = ((timestamps.drop start).take (stop - start)).length := by
    simp only [List.mem_map]
    rintro _ ⟨c, hc, rfl⟩
    simp [hfields c hc, hts]
  simp only [convertSlice, ArrowArray.slice, BatchBuilder.new, BatchBuilder.timestampsArray,
    BatchBuilder.sequencesArray, BatchBuilder.opTypesArray, Except.ok_bind,
    BatchBuilder.foldl_pushField, List.nil_append]
  rw [BatchBuilder.build_eq_ok _ (by simp [hseq, hts]) (by simp [hop, hts]) hfields']
  -- the piece holds the sliced entries, under the keys from `start`
  have hsnd : piece.map Prod.snd =
      ((entriesOf timestamps sequences opTypes (fieldBatchColumns.map (·.data))).drop start).take
        (stop - start) := by
    rw [hpiece, List.map_snd_zip (by simp [hkeys, hts])]
  have hfst : (piece.head?.map Prod.fst).getD 0 = keys.getD start 0 := by
    rw [← List.head?_map, hpiece, List.map_fst_zip (by simp [hkeys, hts]), List.head?_take,
      if_neg hpos.1, List.head?_drop, List.getD_eq_getElem?_getD]
  simp only [runBatch, hsnd, hfst, ← entriesOf_slice, List.map_map, Function.comp_def]

/-- The sequences the reader uses: the override array cut to the record batch's length, or the
sequence column. -/
lemma overrideSequences_eq {sequences : List ℕ} {overrideSequenceArray : Option (List ℕ)} :
    (overrideSequenceArray.map fun overrideArray =>
        (ArrowArray.uint64 (overrideArray.take (ArrowArray.uint64 sequences : ArrowArray K V).len))).getD
        (.uint64 sequences) =
      (.uint64 ((overrideSequenceArray.map (·.take sequences.length)).getD sequences) :
        ArrowArray K V) := by
  cases overrideSequenceArray <;> rfl

/-- Reading a record batch in the SST layout gives, in order, the batch of each maximal run of
rows with one dictionary key. -/
theorem convertRecordBatch_of_layout [Inhabited K] (metadata : RegionMetadata)
    (overrideSequenceArray : Option (List ℕ)) {recordBatch : RecordBatch K V}
    {fieldArrays : List (ArrowArray K V)} {timestamps : List ℤ} {keys : List ℕ} {pkValues : List K}
    {sequences : List ℕ} {opTypes : List OpType} {fieldBatchColumns : List (BatchColumn V)}
    (hcolumns : recordBatch.columns = fieldArrays ++
      [.timestamp timestamps, .dictionary keys pkValues, .uint64 sequences, .uint8 opTypes])
    (hfields : getFieldBatchColumns metadata recordBatch = .ok fieldBatchColumns)
    (hoverride : ∀ a ∈ overrideSequenceArray, recordBatch.numRows ≤ a.length) :
    convertRecordBatch metadata overrideSequenceArray recordBatch =
      .ok (((keyedEntries keys timestamps
          ((overrideSequenceArray.map (·.take recordBatch.numRows)).getD sequences) opTypes
          fieldBatchColumns).splitBy fun a b => a.1 == b.1).map
        (runBatch pkValues (fieldBatchColumns.map (·.columnId)))) := by
  -- the fixed columns have the record batch's length, and so do the sequences read
  have hlen := recordBatch.len_eq
  rw [hcolumns] at hlen
  have hts : timestamps.length = recordBatch.numRows := by
    simpa using hlen (.timestamp timestamps) (by simp)
  have hkeys : keys.length = recordBatch.numRows := by
    simpa using hlen (.dictionary keys pkValues) (by simp)
  have hseq : sequences.length = recordBatch.numRows := by
    simpa using hlen (.uint64 sequences) (by simp)
  have hop : opTypes.length = recordBatch.numRows := by
    simpa using hlen (.uint8 opTypes) (by simp)
  have hseq' : ((overrideSequenceArray.map (·.take recordBatch.numRows)).getD sequences).length =
      recordBatch.numRows := by
    cases overrideSequenceArray with
    | none => exact hseq
    | some a => simpa using hoverride a rfl
  -- the offsets of the dictionary keys are those of the keyed entries
  set entries := keyedEntries keys timestamps
    ((overrideSequenceArray.map (·.take recordBatch.numRows)).getD sequences) opTypes
    fieldBatchColumns with hentries
  have hoffsets : primaryKeyOffsets keys = changeOffsets (entries.map Prod.fst) := by
    rw [primaryKeyOffsets, hentries, keyedEntries, List.map_fst_zip (by simp [hkeys, hts])]
  have hslices := Grouping.slices_changeOffsets Prod.fst entries
  rw [← hoffsets] at hslices
  have hnotlt : ¬ recordBatch.columns.length < fixedPosColumnNum := by
    simp [hcolumns, fixedPosColumnNum]
  have hrev : recordBatch.columns.reverse = .uint8 opTypes :: .uint64 sequences ::
      .dictionary keys pkValues :: .timestamp timestamps :: fieldArrays.reverse := by
    simp [hcolumns]
  simp only [convertRecordBatch, hnotlt, if_false, hrev, hfields, overrideSequences_eq, hseq,
    Except.ok_bind]
  rw [← hslices, Grouping.slices, List.map_map]
  apply Except.mapM_eq_ok_map
  rintro ⟨start, stop⟩ hp
  -- each piece is a run of `splitBy`, and so not empty
  have hmem : (entries.drop start).take (stop - start) ∈ entries.splitBy fun a b => a.1 == b.1 := by
    rw [← hslices]
    exact List.mem_map_of_mem (f := fun p : ℕ × ℕ => (entries.drop p.1).take (p.2 - p.1)) hp
  exact convertSlice_eq pkValues hkeys hts hseq' hop (length_data_of_getFieldBatchColumns hfields)
    (List.ne_nil_of_mem_splitBy hmem)

/-- A region with a tag, one field and the time index. -/
def cpuMetadata : RegionMetadata :=
  ⟨[⟨"host", 0, .tag⟩, ⟨"cpu", 1, .field⟩, ⟨"ts", 2, .timestamp⟩], "ts"⟩

/-- Three rows of two primary keys, as a reader gets them from an SST file. -/
def twoKeysRecordBatch : RecordBatch ℕ ℕ where
  schema := ["cpu", "ts", primaryKeyColumnName, sequenceColumnName, opTypeColumnName]
  columns := [.field [some 5, some 6, some 7], .timestamp [1, 2, 3], .dictionary [0, 0, 1] [10, 20],
    .uint64 [1, 2, 3], .uint8 [.put, .put, .delete]]
  numRows := 3
  schema_length := rfl
  len_eq := by decide

example : convertRecordBatch cpuMetadata none twoKeysRecordBatch =
    .ok [(⟨10, [⟨1, 1, .put, [some 5]⟩, ⟨2, 2, .put, [some 6]⟩]⟩, [1]),
      (⟨20, [⟨3, 3, .delete, [some 7]⟩]⟩, [1])] := by
  decide

/-- The primary key of a run of one key is the one the dictionary gives the key of any of its
entries. -/
lemma primaryKey_runBatch [Inhabited K] (pkValues : List K) (fieldIds : List ℕ)
    {run : List (ℕ × Entry V)} (hrun : run.IsChain fun a b => a.1 == b.1) {ke : ℕ × Entry V}
    (hke : ke ∈ run) : (runBatch pkValues fieldIds run).1.primaryKey = pkValues.getD ke.1 default := by
  cases run with
  | nil => cases hke
  | cons a rest => simp [runBatch, Grouping.key_eq_of_isChain Prod.fst hrun ke hke]

/-- The rows of a run of one key are its entries, each under the primary key of its key. -/
lemma rows_runBatch [Inhabited K] (pkValues : List K) (fieldIds : List ℕ)
    {run : List (ℕ × Entry V)} (hrun : run.IsChain fun a b => a.1 == b.1) :
    (runBatch pkValues fieldIds run).1.rows =
      run.map fun ke => ke.2.toRow (pkValues.getD ke.1 default) := by
  rw [Batch.rows, show (runBatch pkValues fieldIds run).1.entries = run.map Prod.snd from rfl,
    List.map_map]
  apply List.map_congr_left
  intro ke hke
  simp [primaryKey_runBatch pkValues fieldIds hrun hke]

/-- Reading a record batch in the SST layout succeeds, and keeps every row, in order, under the
primary key the dictionary gives its key, in non-empty batches that carry the ids of the field
columns. -/
theorem convertRecordBatch_rows [Inhabited K] (metadata : RegionMetadata)
    (overrideSequenceArray : Option (List ℕ)) {recordBatch : RecordBatch K V}
    {fieldArrays : List (ArrowArray K V)} {timestamps : List ℤ} {keys : List ℕ} {pkValues : List K}
    {sequences : List ℕ} {opTypes : List OpType} {fieldBatchColumns : List (BatchColumn V)}
    (hcolumns : recordBatch.columns = fieldArrays ++
      [.timestamp timestamps, .dictionary keys pkValues, .uint64 sequences, .uint8 opTypes])
    (hfields : getFieldBatchColumns metadata recordBatch = .ok fieldBatchColumns)
    (hoverride : ∀ a ∈ overrideSequenceArray, recordBatch.numRows ≤ a.length) :
    ∃ batches, convertRecordBatch metadata overrideSequenceArray recordBatch = .ok batches ∧
      batches.flatMap (·.1.rows) =
        (keyedEntries keys timestamps
          ((overrideSequenceArray.map (·.take recordBatch.numRows)).getD sequences) opTypes
          fieldBatchColumns).map (fun ke => ke.2.toRow (pkValues.getD ke.1 default)) ∧
      ∀ b ∈ batches, b.1.entries ≠ [] ∧ b.2 = fieldBatchColumns.map (·.columnId) := by
  refine ⟨_, convertRecordBatch_of_layout metadata overrideSequenceArray hcolumns hfields hoverride,
    ?_⟩
  set entries := keyedEntries keys timestamps
    ((overrideSequenceArray.map (·.take recordBatch.numRows)).getD sequences) opTypes
    fieldBatchColumns
  constructor
  · -- each run gives its rows, and the runs hold the entries in order
    calc ((entries.splitBy fun a b => a.1 == b.1).map
            (runBatch pkValues (fieldBatchColumns.map (·.columnId)))).flatMap (·.1.rows)
        = (entries.splitBy fun a b => a.1 == b.1).flatMap
            (List.map fun ke => ke.2.toRow (pkValues.getD ke.1 default)) := by
          rw [List.flatMap_map]
          exact List.flatMap_congr fun run hrun =>
            rows_runBatch _ _ (List.isChain_of_mem_splitBy hrun)
      _ = entries.map (fun ke => ke.2.toRow (pkValues.getD ke.1 default)) := by
          rw [List.flatMap_def, ← List.map_flatten, List.flatten_splitBy]
  · intro b hb
    obtain ⟨run, hrun, rfl⟩ := List.mem_map.mp hb
    exact ⟨by simpa [runBatch] using List.ne_nil_of_mem_splitBy hrun, rfl⟩

theorem convertRecordBatch_rows_twoKeys :
    twoKeysRecordBatch.columns = [.field [some 5, some 6, some 7]] ++
        [.timestamp [1, 2, 3], .dictionary [0, 0, 1] [10, 20], .uint64 [1, 2, 3],
          .uint8 [.put, .put, .delete]] ∧
      getFieldBatchColumns cpuMetadata twoKeysRecordBatch = .ok [⟨1, [some 5, some 6, some 7]⟩] ∧
      ∃ batches, convertRecordBatch cpuMetadata none twoKeysRecordBatch = .ok batches ∧
        batches.flatMap (·.1.rows) =
          (keyedEntries [0, 0, 1] [1, 2, 3] [1, 2, 3] [.put, .put, .delete]
            [(⟨1, [some 5, some 6, some 7]⟩ : BatchColumn ℕ)]).map
            (fun ke => ke.2.toRow ([10, 20].getD ke.1 default)) ∧
        ∀ b ∈ batches, b.1.entries ≠ [] ∧ b.2 = [1] :=
  ⟨rfl, by decide, @convertRecordBatch_rows ℕ ℕ _ cpuMetadata none twoKeysRecordBatch
    [.field [some 5, some 6, some 7]] [1, 2, 3] [0, 0, 1] [10, 20] [1, 2, 3] [.put, .put, .delete]
    [⟨1, [some 5, some 6, some 7]⟩] rfl (by decide) (by simp)⟩

/-- Over a dictionary of distinct primary keys, neighbouring batches read from a record batch in
the SST layout have different primary keys. -/
theorem convertRecordBatch_primaryKey_ne [Inhabited K] (metadata : RegionMetadata)
    (overrideSequenceArray : Option (List ℕ)) {recordBatch : RecordBatch K V}
    {fieldArrays : List (ArrowArray K V)} {timestamps : List ℤ} {keys : List ℕ} {pkValues : List K}
    {sequences : List ℕ} {opTypes : List OpType} {fieldBatchColumns : List (BatchColumn V)}
    (hcolumns : recordBatch.columns = fieldArrays ++
      [.timestamp timestamps, .dictionary keys pkValues, .uint64 sequences, .uint8 opTypes])
    (hfields : getFieldBatchColumns metadata recordBatch = .ok fieldBatchColumns)
    (hoverride : ∀ a ∈ overrideSequenceArray, recordBatch.numRows ≤ a.length)
    (hdistinct : pkValues.Nodup) (hvalid : ∀ k ∈ keys, k < pkValues.length)
    {batches : List (Batch K V × List ℕ)}
    (hread : convertRecordBatch metadata overrideSequenceArray recordBatch = .ok batches) :
    batches.IsChain fun b b' => b.1.primaryKey ≠ b'.1.primaryKey := by
  rw [convertRecordBatch_of_layout metadata overrideSequenceArray hcolumns hfields hoverride] at hread
  cases hread
  set entries := keyedEntries keys timestamps
    ((overrideSequenceArray.map (·.take recordBatch.numRows)).getD sequences) opTypes
    fieldBatchColumns with hentries
  -- every entry has a key of the dictionary
  have hkey : ∀ ke ∈ entries, ke.1 < pkValues.length := fun ke hke =>
    hvalid _ (List.of_mem_zip (by rwa [hentries, keyedEntries] at hke)).1
  rw [List.isChain_map]
  -- the last entry of a run and the first of the next have different keys
  refine (List.IsChain.iff_mem.mp (List.isChain_getLast_head_splitBy _ entries)).imp ?_
  rintro g g' ⟨hg, hg', hne, hne', hlast⟩
  have hmem : ∀ {run}, run ∈ entries.splitBy (fun a b => a.1 == b.1) →
      ∀ ke ∈ run, ke ∈ entries := by
    intro run hrun ke hke
    rw [← List.flatten_splitBy (fun a b => a.1 == b.1) entries]
    exact List.mem_flatten_of_mem hrun hke
  rw [primaryKey_runBatch _ _ (List.isChain_of_mem_splitBy hg) (List.getLast_mem hne),
    primaryKey_runBatch _ _ (List.isChain_of_mem_splitBy hg') (List.head_mem hne'),
    List.getD_eq_getElem _ _ (hkey _ (hmem hg _ (List.getLast_mem hne))),
    List.getD_eq_getElem _ _ (hkey _ (hmem hg' _ (List.head_mem hne')))]
  intro heq
  rw [hdistinct.getElem_inj_iff] at heq
  simp [heq] at hlast

theorem convertRecordBatch_primaryKey_ne_twoKeys :
    [10, 20].Nodup ∧
      ∃ batches, convertRecordBatch cpuMetadata none twoKeysRecordBatch = .ok batches ∧
      batches.IsChain fun b b' => b.1.primaryKey ≠ b'.1.primaryKey :=
  ⟨by decide, _, rfl, @convertRecordBatch_primaryKey_ne ℕ ℕ _ cpuMetadata none twoKeysRecordBatch
    [.field [some 5, some 6, some 7]] [1, 2, 3] [0, 0, 1] [10, 20] [1, 2, 3] [.put, .put, .delete]
    [⟨1, [some 5, some 6, some 7]⟩] rfl (by decide) (by simp) (by decide) (by decide) _ rfl⟩

/-! ## Writing, and reading back -/

/-- The batch an override sequence makes of a batch: every row takes that sequence. -/
def withOverrideSequence (overrideSequence : Option ℕ) (batch : Batch K V) : Batch K V :=
  { batch with entries := batch.entries.map fun e => { e with seq := overrideSequence.getD e.seq } }

/-- Every field column of a batch has its length. -/
lemma length_data_of_mem_batchFields {fieldIds : List ℕ} {batch : Batch K V} {column : BatchColumn V}
    (hc : column ∈ batchFields fieldIds batch) : column.data.length = batch.numRows := by
  obtain ⟨⟨columnId, j⟩, -, rfl⟩ := List.mem_map.mp hc
  simp [fieldData, Batch.numRows]

@[simp] lemma map_columnId_batchFields (fieldIds : List ℕ) (batch : Batch K V) :
    (batchFields fieldIds batch).map (·.columnId) = fieldIds := by
  simp [batchFields, Function.comp_def]

@[simp] lemma length_batchFields (fieldIds : List ℕ) (batch : Batch K V) :
    (batchFields fieldIds batch).length = fieldIds.length := by
  simp [batchFields]

/-- A list begins with another exactly when it is as long or longer and agrees with it wherever
both have an element. -/
lemma prefix_iff_forall_mem_zip {α : Type} :
    ∀ {m l : List α}, m <+: l ↔ m.length ≤ l.length ∧ ∀ q ∈ l.zip m, q.1 = q.2
  | [], l => by simp
  | b :: m, [] => by simp
  | b :: m, a :: l => by
    rw [List.cons_prefix_cons, prefix_iff_forall_mem_zip]
    simp only [List.length_cons, List.zip_cons_cons, List.forall_mem_cons, Nat.add_le_add_iff_right]
    constructor
    · rintro ⟨rfl, hlen, hzip⟩
      exact ⟨hlen, rfl, hzip⟩
    · rintro ⟨hlen, hab, hzip⟩
      exact ⟨hab.symm, hlen, hzip⟩

/-- The field columns pass the checks of `convert_batch` exactly where the batch's field ids
agree with the metadata's. -/
lemma forall_columnId_eq_iff {metadata : RegionMetadata} {fieldIds : List ℕ} (batch : Batch K V) :
    (∀ p ∈ (batchFields fieldIds batch).zip metadata.fieldColumns, p.1.columnId = p.2.columnId) ↔
      ∀ q ∈ fieldIds.zip (metadata.fieldColumns.map (·.columnId)), q.1 = q.2 := by
  conv_rhs => rw [← map_columnId_batchFields fieldIds batch, List.zip_map, List.forall_mem_map]
  rfl

/-- A batch whose field ids begin with the metadata's is written as its field columns and the
four fixed ones. -/
lemma convertBatch_eq_ok (tryNew : RecordBatch.TryNew K V) (metadata : RegionMetadata)
    (overrideSequence : Option ℕ) {fieldIds : List ℕ} (batch : Batch K V)
    (hbegin : metadata.fieldColumns.map (·.columnId) <+: fieldIds) :
    ∃ recordBatch, convertBatch tryNew metadata overrideSequence fieldIds batch = .ok recordBatch ∧
      recordBatch.schema = toSstArrowSchema metadata ∧
      recordBatch.columns =
        ((batchFields fieldIds batch).zip metadata.fieldColumns).map (fun p => .field p.1.data) ++
          [.timestamp (batch.entries.map Entry.ts), newPrimaryKeyArray batch.primaryKey batch.numRows,
            .uint64 ((overrideSequence.map (List.replicate batch.numRows)).getD
              (batch.entries.map Entry.seq)),
            .uint8 (batch.entries.map Entry.op)] := by
  obtain ⟨hlen, hzip⟩ := prefix_iff_forall_mem_zip.mp hbegin
  have hcheck := (forall_columnId_eq_iff batch).mpr hzip
  -- every field column passes its check
  have hfields : ((batchFields fieldIds batch).zip metadata.fieldColumns).mapM
      (fun p => fieldArray p.1 p.2) =
      .ok (((batchFields fieldIds batch).zip metadata.fieldColumns).map fun p =>
        (.field p.1.data : ArrowArray K V)) :=
    Except.mapM_eq_ok_map fun p hp => by simp [fieldArray, hcheck p hp]
  -- and `try_new` finds as many columns as names, all of the batch's length
  simp only [convertBatch, hfields, Except.ok_bind, Except.mapError_eq_ok]
  refine (tryNew.isOk (n := batch.numRows) ?_ (by simp) ?_).elim fun recordBatch hrun =>
    ⟨recordBatch, hrun, tryNew.eq_ok hrun⟩
  · simp only [List.length_map] at hlen
    simp [toSstArrowSchema, hlen]
  · intro array harray
    simp only [List.mem_append, List.mem_map, List.mem_cons, List.not_mem_nil, or_false] at harray
    rcases harray with ⟨p, hp, rfl⟩ | rfl | rfl | rfl | rfl
    · exact length_data_of_mem_batchFields (List.of_mem_zip hp).1
    · simp [Batch.numRows]
    · simp [newPrimaryKeyArray]
    · cases overrideSequence <;> simp [Batch.numRows]
    · simp [Batch.numRows]

/-- `convert_batch` succeeds exactly when the ids of the batch's field columns begin with the
metadata's: a batch with another id fails its check, and one with fewer fields fails in
`try_new`, while the fields past the metadata's are dropped.  This is for any `try_new` that
accepts columns carrying their fields' types (`TryNew`), that is for batches whose columns carry
the metadata's types and nullability. -/
theorem convertBatch_ok_iff_prefix (tryNew : RecordBatch.TryNew K V) (metadata : RegionMetadata)
    (overrideSequence : Option ℕ) (fieldIds : List ℕ) (batch : Batch K V) :
    (∃ recordBatch, convertBatch tryNew metadata overrideSequence fieldIds batch = .ok recordBatch) ↔
      metadata.fieldColumns.map (·.columnId) <+: fieldIds := by
  constructor
  · rintro ⟨recordBatch, hconvert⟩
    obtain ⟨fields, hfields, htry⟩ := Except.bind_eq_ok.mp hconvert
    -- every field column passed its check
    have hcheck : ∀ p ∈ (batchFields fieldIds batch).zip metadata.fieldColumns,
        p.1.columnId = p.2.columnId := by
      intro p hp
      obtain ⟨array, harray⟩ := Except.forall_ok_of_mapM_eq_ok hfields p hp
      unfold fieldArray at harray
      split at harray
      · assumption
      · cases harray
    -- and `try_new` found a name for each column
    obtain ⟨hschema, hcolumns⟩ := tryNew.eq_ok (Except.mapError_eq_ok.mp htry)
    have hlen := recordBatch.schema_length
    rw [hschema, hcolumns] at hlen
    have hcount := Except.length_of_mapM_eq_ok hfields
    simp only [toSstArrowSchema, List.length_append, List.length_map, List.length_cons,
      List.length_nil, hcount, List.length_zip, length_batchFields] at hlen
    exact prefix_iff_forall_mem_zip.mpr ⟨by simp only [List.length_map]; omega,
      (forall_columnId_eq_iff batch).mp hcheck⟩
  · intro hbegin
    obtain ⟨recordBatch, hconvert, -⟩ :=
      convertBatch_eq_ok tryNew metadata overrideSequence batch hbegin
    exact ⟨recordBatch, hconvert⟩

/-- The entries of the columns `convert_batch` writes are the rows of the batch, with the
override sequence if there is one. -/
lemma entriesOf_batchFields (overrideSequence : Option ℕ) {fieldIds : List ℕ} {batch : Batch K V}
    (hfields : ∀ e ∈ batch.entries, e.fields.length = fieldIds.length) :
    entriesOf (batch.entries.map Entry.ts)
        ((overrideSequence.map (List.replicate batch.numRows)).getD (batch.entries.map Entry.seq))
        (batch.entries.map Entry.op) ((batchFields fieldIds batch).map (·.data)) =
      (withOverrideSequence overrideSequence batch).entries := by
  apply List.ext_getElem (by simp [Batch.numRows, withOverrideSequence])
  intro i hlen _
  have hi : i < batch.entries.length := by simpa using hlen
  -- row `i` of every field column is a field of the batch's `i`-th entry
  have hrow : (batchFields fieldIds batch).map (fun c => c.data[i]?.getD none) =
      batch.entries[i].fields := by
    apply List.ext_getElem (by simp [hfields _ (List.getElem_mem hi)])
    intro j _ hj
    simp [batchFields, fieldData, hi, List.getElem?_eq_getElem hj]
  cases overrideSequence <;>
    simp [entriesOf, withOverrideSequence, Function.comp_def, hrow, hi, Batch.numRows]

/-- Reading back what `convert_batch` wrote for a non-empty batch whose field ids are the
metadata's gives that batch, with the override sequence on every row if there is one. -/
theorem convertRecordBatch_convertBatch [Inhabited K] (tryNew : RecordBatch.TryNew K V)
    (metadata : RegionMetadata) (overrideSequence : Option ℕ) (batch : Batch K V)
    (hnames : (metadata.columnMetadatas.map ColumnMetadata.name).Nodup)
    (hfields : ∀ e ∈ batch.entries, e.fields.length = metadata.fieldColumns.length)
    (hne : batch.entries ≠ []) :
    (convertBatch tryNew metadata overrideSequence (metadata.fieldColumns.map (·.columnId)) batch >>=
        convertRecordBatch metadata none) =
      .ok [(withOverrideSequence overrideSequence batch, metadata.fieldColumns.map (·.columnId))] := by
  set ids := metadata.fieldColumns.map (·.columnId) with hids
  obtain ⟨recordBatch, hconvert, hschema, hcolumns⟩ :=
    convertBatch_eq_ok tryNew metadata overrideSequence batch (List.prefix_refl ids)
  rw [hconvert, Except.ok_bind]
  -- the written field columns passed their checks, beside the metadata's field columns
  set pairs := (batchFields ids batch).zip metadata.fieldColumns with hpairs
  have hcheck : ∀ p ∈ pairs, p.1.columnId = p.2.columnId :=
    (forall_columnId_eq_iff batch).mpr (prefix_iff_forall_mem_zip.mp (List.prefix_refl ids)).2
  have hsnd : pairs.map Prod.snd = metadata.fieldColumns := List.map_snd_zip (by simp [hids])
  have hfst : pairs.map Prod.fst = batchFields ids batch := List.map_fst_zip (by simp [hids])
  -- so they are read back as the batch's field columns
  have hcolumns' : recordBatch.columns = (pairs.map fun p => (p.2, p.1.data)).map
      (fun p => (.field p.2 : ArrowArray K V)) ++
      [.timestamp (batch.entries.map Entry.ts), newPrimaryKeyArray batch.primaryKey batch.numRows,
        .uint64 ((overrideSequence.map (List.replicate batch.numRows)).getD
          (batch.entries.map Entry.seq)),
        .uint8 (batch.entries.map Entry.op)] := by
    rw [hcolumns, List.map_map]
    rfl
  have hschema' : recordBatch.schema = (pairs.map fun p => (p.2, p.1.data)).map (·.1.name) ++
      [metadata.timeIndexName, primaryKeyColumnName, sequenceColumnName, opTypeColumnName] := by
    rw [hschema, toSstArrowSchema, List.map_map, ← hsnd, List.map_map]
    rfl
  have hread : getFieldBatchColumns metadata recordBatch = .ok (batchFields ids batch) := by
    rw [getFieldBatchColumns_of_layout hnames (fun p hp => ?_) rfl hcolumns' hschema', List.map_map,
      ← hfst]
    · congr 1
      apply List.map_congr_left
      intro p hp
      simp only [Function.comp_apply]
      rw [← hcheck p hp]
    · obtain ⟨q, hq, rfl⟩ := List.mem_map.mp hp
      exact List.mem_of_mem_filter (List.of_mem_zip hq).2
  rw [newPrimaryKeyArray] at hcolumns
  rw [convertRecordBatch_of_layout metadata none hcolumns hread (by simp), map_columnId_batchFields]
  -- every row has the dictionary key `0`, so the rows are one run
  have hfields' : ∀ e ∈ batch.entries, e.fields.length = ids.length := by simpa [hids] using hfields
  simp only [Option.map_none, Option.getD_none, keyedEntries,
    entriesOf_batchFields overrideSequence hfields']
  obtain ⟨e, es, hes⟩ := List.exists_cons_of_ne_nil hne
  have hchain : ((List.replicate batch.numRows 0).zip
      (withOverrideSequence overrideSequence batch).entries).IsChain fun a b => a.1 == b.1 :=
    List.Pairwise.isChain (List.pairwise_of_forall_mem_list fun a ha b hb => by
      simp [List.eq_of_mem_replicate (List.of_mem_zip ha).1,
        List.eq_of_mem_replicate (List.of_mem_zip hb).1])
  rw [List.splitBy_of_isChain (by simp [hes, Batch.numRows, withOverrideSequence]) hchain]
  simp [runBatch, hes, Batch.numRows, withOverrideSequence, List.replicate_succ]
  exact List.map_snd_zip (by simp)

/-- Two rows of one field under one primary key. -/
def twoRowBatch : Batch ℕ ℕ := ⟨10, [⟨1, 1, .put, [some 5]⟩, ⟨2, 2, .put, [some 6]⟩]⟩

theorem convertRecordBatch_convertBatch_twoRows :
    (cpuMetadata.columnMetadatas.map ColumnMetadata.name).Nodup ∧
      (convertBatch .lengths cpuMetadata (some 7) (cpuMetadata.fieldColumns.map (·.columnId))
          twoRowBatch >>= convertRecordBatch cpuMetadata none) =
        .ok [(withOverrideSequence (some 7) twoRowBatch, cpuMetadata.fieldColumns.map (·.columnId))] :=
  ⟨by decide, convertRecordBatch_convertBatch .lengths cpuMetadata (some 7) twoRowBatch (by decide)
    (by decide) (by simp [twoRowBatch])⟩

end Sst

end Greptime
