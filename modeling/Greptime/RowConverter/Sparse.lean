import Mathlib.Data.List.Induction
import Greptime.RowConverter.Memcomparable

/-!
# The sparse primary-key codec

The metric engine keys the series of a physical region with `SparsePrimaryKeyCodec`: the id of
the logical table and the tsid of the series, then the labels, each value after its column id
(`encode_to_vec`), and `decode_sparse` reads a key back into a map of column ids to values.  Its
write path takes a short cut to the same bytes: `encode_internal` writes the table id and the
tsid with their column ids, and `encode_raw_tag_value` writes the raw bytes of each label with a
copy of memcomparable's byte-string encoding unrolled by hand.

`rawTagBytes_eq_groupsSer` says the hand-rolled groups are memcomparable's for a value of any
length.  The two paths write the same key when the codec knows the columns of the table id and
the tsid (`encodeToVec_eq_shortCut`): a codec built from a set of columns without them skips
them in `encode_to_vec`, while `encode_internal` writes them always.  `decode_sparse` reads such
a key as the map of the table id, the tsid and the last value of each label.

`has_column` walks a key once and records in a map the offset after each column id, skipping
each value with its field's `skip_deserialize`; a later call with the same map only looks the
column up, and `decode_value_at` reads the value at an offset with the column's field.  On a key
that `encode_to_vec` writes for the table id, the tsid and labels of columns the codec knows
(which puts no label at the table id's or the tsid's column, whose fields refuse a string),
every column of the key gets the offset of its last value, where `decode_value_at` reads what
`decode_sparse` reads for it, and any other column gets none (`hasColumn_decodeValueAt`).  The
walk is `hasColumnLoop_entries`, one column after the other: each moves the offset by the four
bytes of its id and the bytes `deserialize` reads of its value.

The codec reads and writes through memcomparable, a parameter `p` here.  That the loop of
`decode_sparse` ends needs nothing of it (each label read takes its tag byte); the two theorems
take `Memcomparable.Lawful`, whose laws say that `serialize_u32`, `serialize_u64` and
`serialize_bytes` write what `put_u32`, `put_u64` and the hand-rolled groups write.
-/

namespace Greptime

open Datatypes Memcmp Bytes

variable (p : Memcomparable)

/-! ## Column ids -/

/-- `ReservedColumnId::BASE`: the most significant bit of a column id. -/
def ReservedColumnId.base : UInt32 := (1 : UInt32) <<< 31

/-- `ReservedColumnId::tsid`. -/
def ReservedColumnId.tsid : UInt32 := ReservedColumnId.base ||| 3

/-- `ReservedColumnId::table_id`. -/
def ReservedColumnId.tableId : UInt32 := ReservedColumnId.base ||| 4

/-- `ReservedColumnId::is_reserved`. -/
def ReservedColumnId.isReserved (columnId : UInt32) : Bool :=
  columnId &&& ReservedColumnId.base != 0

/-- `RESERVED_COLUMN_ID_TSID`. -/
def reservedColumnIdTsid : UInt32 := ReservedColumnId.tsid

/-- `RESERVED_COLUMN_ID_TABLE_ID`. -/
def reservedColumnIdTableId : UInt32 := ReservedColumnId.tableId

/-! ## The codec -/

/-- `SparsePrimaryKeyCodec`: the columns of the primary key, or `None` for a codec that takes
every column for a part of the key.  The fields of the table id, the tsid and the labels are the
same in every codec. -/
structure SparsePrimaryKeyCodec where
  columns : Option (List UInt32)

namespace SparsePrimaryKeyCodec

def tableIdField : SortField := ⟨.uint32⟩

def tsidField : SortField := ⟨.uint64⟩

def labelField : SortField := ⟨.string⟩

/-- `SparsePrimaryKeyCodec::from_columns`. -/
def fromColumns (columnsIds : List UInt32) : SparsePrimaryKeyCodec := ⟨some columnsIds⟩

/-- `SparsePrimaryKeyCodec::schemaless`. -/
def schemaless : SparsePrimaryKeyCodec := ⟨none⟩

/-- `SparsePrimaryKeyCodec::with_fields`: only the ids of the fields are kept. -/
def withFields (fields : List (UInt32 × SortField)) : SparsePrimaryKeyCodec :=
  ⟨some (fields.map Prod.fst)⟩

variable (codec : SparsePrimaryKeyCodec)

/-- `get_field`: a column outside the codec's columns has no field; the reserved columns have
theirs, and every other column is a label. -/
def getField (columnId : UInt32) : Option SortField :=
  if codec.columns.all (·.contains columnId) then
    if columnId = reservedColumnIdTableId then some tableIdField
    else if columnId = reservedColumnIdTsid then some tsidField
    else some labelField
  else none

/-- `encode_to_vec`: each value that is not `NULL` after its column id, with the field of its
column; a column without a field is skipped. -/
def encodeToVec : List (UInt32 × Value) → Except CodecError (List UInt8)
  | [] => .ok []
  | (columnId, value) :: row =>
    if value = .null then encodeToVec row
    else
      match codec.getField columnId with
      | some field => do
        let bytes ← field.serialize p value
        let rest ← encodeToVec row
        pure (p.u32.ser columnId ++ bytes ++ rest)
      | none => encodeToVec row

/-- `BufMut::put_u32`: four bytes, most significant first. -/
def putU32 (n : UInt32) : List UInt8 := toBE 4 n.toNat

/-- `BufMut::put_u64`. -/
def putU64 (n : UInt64) : List UInt8 := toBE 8 n.toNat

/-- The chunk loop of `encode_raw_tag_value` from chunk `idx` on, with `count` chunks left:
each chunk's eight bytes, then `8` if the chunk ends the value and `9` if more follows (`len`
of the source is `idx * 8 + 8` there). -/
def rawChunks (tagValue : List UInt8) (valueLen : ℕ) : ℕ → ℕ → List UInt8
  | _, 0 => []
  | idx, count + 1 =>
    slice tagValue (idx * 8) (idx * 8 + 8) ++ [if idx * 8 + 8 = valueLen then 8 else 9] ++
      rawChunks tagValue valueLen (idx + 1) count

/-- What `encode_raw_tag_value` writes of a value after its flag: the whole chunks, and the
bytes left over padded with zeros to eight and followed by their number. -/
def rawTagBytes (tagValue : List UInt8) : List UInt8 :=
  let valueLen := tagValue.length
  let numChucks := valueLen / 8
  let remainder := valueLen % 8
  rawChunks tagValue valueLen 0 numChucks ++
    if remainder ≠ 0 then
      slice tagValue (numChucks * 8) valueLen ++ List.replicate (8 - remainder) 0 ++
        [UInt8.ofNat remainder]
    else []

/-- `encode_raw_tag_value`: each label's column id, `1` for `Some`, the flag of a value that is
not empty, and the value's groups. -/
def encodeRawTagValue : List (UInt32 × List UInt8) → List UInt8
  | [] => []
  | (tagColumnId, tagValue) :: row =>
    putU32 tagColumnId ++ [1, if tagValue.isEmpty then 0 else 1] ++ rawTagBytes tagValue ++
      encodeRawTagValue row

/-- `encode_internal`: the table id and the tsid after their column ids, each as `Some`. -/
def encodeInternal (tableId : UInt32) (tsid : UInt64) : List UInt8 :=
  putU32 reservedColumnIdTableId ++ [1] ++ putU32 tableId ++ putU32 reservedColumnIdTsid ++ [1] ++
    putU64 tsid

/-- A codec whose columns leave out the table id and the tsid writes nothing for them, while
`encode_internal` writes their 22 bytes. -/
theorem encodeToVec_skipsInternalColumns :
    (fromColumns [1]).encodeToVec .memcmp
        [(reservedColumnIdTableId, .uint32 0), (reservedColumnIdTsid, .uint64 0)] = .ok [] ∧
      (encodeInternal 0 0 ++ encodeRawTagValue []).length = 22 :=
  ⟨by decide, by decide⟩

end SparsePrimaryKeyCodec

/-! ## Reading a key -/

/-- `SparseValues`: a map of column ids to values, kept as its inserts, the latest first. -/
structure SparseValues where
  values : List (UInt32 × Value)

namespace SparseValues

/-- `SparseValues::new`. -/
def new (values : List (UInt32 × Value)) : SparseValues := ⟨values⟩

/-- `SparseValues::get`: the value last inserted for the column. -/
def get (sparseValues : SparseValues) (columnId : UInt32) : Option Value :=
  sparseValues.values.lookup columnId

/-- `SparseValues::insert`: the value replaces the one the column had. -/
def insert (sparseValues : SparseValues) (columnId : UInt32) (value : Value) : SparseValues :=
  ⟨(columnId, value) :: sparseValues.values⟩

@[simp] lemma get_new_nil (columnId : UInt32) : (new []).get columnId = none := rfl

@[simp] lemma get_insert (sparseValues : SparseValues) (columnId other : UInt32) (value : Value) :
    (sparseValues.insert columnId value).get other =
      if other = columnId then some value else sparseValues.get other := by
  simp only [get, insert, List.lookup_cons]
  by_cases h : other = columnId
  · simp [h]
  · rw [if_neg h, beq_false_of_ne h]

/-- After inserting labels in order, a column has its last label's value, or the value it had
before. -/
lemma get_foldl_insert (tags : List (UInt32 × String)) (sparseValues : SparseValues)
    (columnId : UInt32) :
    (tags.foldl (fun values tag => values.insert tag.1 (.string tag.2)) sparseValues).get columnId =
      ((tags.reverse.lookup columnId).map .string).or (sparseValues.get columnId) := by
  induction tags using List.reverseRecOn with
  | nil => simp
  | append_singleton tags tag ih =>
    obtain ⟨k, v⟩ := tag
    rw [List.foldl_append, List.foldl_cons, List.foldl_nil, get_insert, List.reverse_append,
      List.reverse_singleton, List.singleton_append, List.lookup_cons]
    by_cases h : columnId = k
    · simp [h]
    · rw [if_neg h, beq_false_of_ne h, ih]

/-- The inserts of labels in order, the latest first, on top of what the map had. -/
lemma values_foldl_insert (tags : List (UInt32 × String)) (sparseValues : SparseValues) :
    (tags.foldl (fun values tag => values.insert tag.1 (.string tag.2)) sparseValues).values =
      (tags.map fun tag => (tag.1, Value.string tag.2)).reverse ++ sparseValues.values := by
  induction tags generalizing sparseValues with
  | nil => rfl
  | cons tag tags ih =>
    rw [List.foldl_cons, ih]
    simp [insert]

end SparseValues

/-- `u32::deserialize`: a column id, or an error when fewer than four bytes are left. -/
def deserializeColumnId (bytes : List UInt8) : Except CodecError (UInt32 × List UInt8) :=
  match p.u32.de bytes with
  | some (columnId, rest) => .ok (columnId, rest)
  | none => .error .deserializeField

lemma deserializeColumnId_ser {p : Memcomparable} (columnId : UInt32) (rest : List UInt8) :
    deserializeColumnId p (p.u32.ser columnId ++ rest) = .ok (columnId, rest) := by
  simp [deserializeColumnId, Codec.de_ser]

/-- A read of an `Option` takes its tag byte at least. -/
lemma deserializeWith_length_lt {α : Type} {c : Codec α} {mk : α → Value} {bytes : List UInt8}
    {value : Value} {rest : List UInt8} (h : deserializeWith c mk bytes = .ok (value, rest)) :
    rest.length < bytes.length := by
  unfold deserializeWith at h
  split at h
  · rename_i a rest' hde
    simp only [Except.ok.injEq, Prod.mk.injEq] at h
    rw [← h.2]
    exact c.optionDe_length_lt hde
  · cases h

/-- A read of an `Option` from the bytes of `Some a`. -/
lemma deserializeWith_some {α : Type} (c : Codec α) (mk : α → Value) (a : α) (rest : List UInt8) :
    deserializeWith c mk (1 :: c.ser a ++ rest) = .ok (mk a, rest) := by
  rw [deserializeWith, show 1 :: c.ser a ++ rest = c.option.ser (some a) ++ rest from rfl,
    Codec.de_ser]
  rfl

namespace SparsePrimaryKeyCodec

/-- Each label read takes the tag byte of the label's `Option` at least, whatever the reads of
the crate: the loop ends for every `p`. -/
lemma decodeLabels_progress {p : Memcomparable} {bytes rest rest' : List UInt8} {columnId : UInt32}
    {value : Value} (hid : deserializeColumnId p bytes = .ok (columnId, rest))
    (hvalue : labelField.deserialize p rest = .ok (value, rest')) :
    rest'.length < bytes.length := by
  unfold deserializeColumnId at hid
  split at hid
  · rename_i columnId' rest'' hde
    simp only [Except.ok.injEq, Prod.mk.injEq] at hid
    have hle : rest''.length ≤ bytes.length := p.u32.de_length_le hde
    have hlt : rest'.length < rest.length := deserializeWith_length_lt hvalue
    rw [← hid.2] at hlt
    omega
  · cases hid

/-- The loop of `decode_sparse` over the labels: while bytes are left, a column id and a label. -/
def decodeLabels (values : SparseValues) (bytes : List UInt8) : Except CodecError SparseValues :=
  match bytes with
  | [] => .ok values
  | b :: bs =>
    match _hid : deserializeColumnId p (b :: bs) with
    | .error e => .error e
    | .ok (columnId, rest) =>
      match _hvalue : labelField.deserialize p rest with
      | .error e => .error e
      | .ok (value, rest') => decodeLabels (values.insert columnId value) rest'
termination_by bytes.length
decreasing_by exact decodeLabels_progress _hid _hvalue

/-- `decode_sparse`: the table id and the tsid after their column ids, then the labels. -/
def decodeSparse (bytes : List UInt8) : Except CodecError SparseValues := do
  let (columnId, rest) ← deserializeColumnId p bytes
  let (value, rest) ← tableIdField.deserialize p rest
  let values := (SparseValues.new []).insert columnId value
  let (columnId, rest) ← deserializeColumnId p rest
  let (value, rest) ← tsidField.deserialize p rest
  decodeLabels p (values.insert columnId value) rest

end SparsePrimaryKeyCodec

/-! ## The hand-rolled byte strings -/

namespace SparsePrimaryKeyCodec

/-- The chunks from chunk `idx + 1` on are those of the value after its first eight bytes. -/
lemma rawChunks_succ {tagValue : List UInt8} {valueLen : ℕ} (h : 8 ≤ valueLen) :
    ∀ count idx, rawChunks tagValue valueLen (idx + 1) count =
      rawChunks (tagValue.drop 8) (valueLen - 8) idx count
  | 0, _ => rfl
  | count + 1, idx => by
    have hend : (idx + 1) * 8 + 8 = valueLen ↔ idx * 8 + 8 = valueLen - 8 := by omega
    rw [rawChunks, rawChunks, rawChunks_succ h count (idx + 1), slice_drop,
      show 8 + idx * 8 = (idx + 1) * 8 by omega, show 8 + (idx * 8 + 8) = (idx + 1) * 8 + 8 by omega]
    simp only [hend]

/-- A value of one to eight bytes is one group, padded and followed by its length. -/
lemma rawTagBytes_of_le {tagValue : List UInt8} (h0 : tagValue ≠ []) (h8 : tagValue.length ≤ 8) :
    rawTagBytes tagValue = group tagValue ++ [groupEnd tagValue] := by
  have hpos : 0 < tagValue.length := List.length_pos_of_ne_nil h0
  rw [groupEnd_of_le h8, group, List.take_of_length_le h8]
  rcases Nat.lt_or_ge tagValue.length 8 with hlt | hge
  · -- no whole chunk: the remainder is the value
    simp [rawTagBytes, rawChunks, Nat.div_eq_of_lt hlt, Nat.mod_eq_of_lt hlt, hpos.ne', slice,
      List.take_of_length_le]
  · -- one whole chunk that ends the value
    have h8' : tagValue.length = 8 := by omega
    simp [rawTagBytes, rawChunks, h8', slice, List.take_of_length_le]

/-- A value of more than eight bytes is its first eight after `9`, then the groups of the
rest. -/
lemma rawTagBytes_of_lt {tagValue : List UInt8} (h : 8 < tagValue.length) :
    rawTagBytes tagValue = tagValue.take 8 ++ 9 :: rawTagBytes (tagValue.drop 8) := by
  obtain ⟨k, hk⟩ : ∃ k, tagValue.length / 8 = k + 1 := ⟨tagValue.length / 8 - 1, by omega⟩
  have hk' : (tagValue.length - 8) / 8 = k := by omega
  have hr : (tagValue.length - 8) % 8 = tagValue.length % 8 := by omega
  simp only [rawTagBytes, List.length_drop, hk, hk', hr]
  rw [rawChunks, rawChunks_succ (by omega), if_neg (by omega), slice_drop,
    show 8 + k * 8 = (k + 1) * 8 by omega, show 8 + (tagValue.length - 8) = tagValue.length by omega]
  simp [slice]

/-- The hand-rolled groups are memcomparable's, for a value of every length. -/
theorem rawTagBytes_eq_groupsSer (tagValue : List UInt8) :
    rawTagBytes tagValue = groupsSer tagValue := by
  fun_induction groupsSer tagValue with
  | case1 => rfl
  | case2 b bs ih =>
    by_cases h : 8 < (b :: bs).length
    · rw [rawTagBytes_of_lt h, ih, group, groupEnd_of_lt h, Nat.sub_eq_zero_of_le h.le]
      simp
    · rw [rawTagBytes_of_le (List.cons_ne_nil b bs) (by omega),
        List.drop_eq_nil_of_le (by omega), groupsSer_nil]

/-! ## The two paths -/

variable (codec : SparsePrimaryKeyCodec)

lemma getField_of_isSome {columnId : UInt32} (h : (codec.getField columnId).isSome) :
    codec.getField columnId = some (if columnId = reservedColumnIdTableId then tableIdField
      else if columnId = reservedColumnIdTsid then tsidField else labelField) := by
  unfold getField at h ⊢
  split_ifs at h ⊢ <;> simp_all

/-- A column the codec knows and that is not reserved is a label. -/
lemma getField_label {columnId : UInt32} (h : (codec.getField columnId).isSome)
    (hreserved : ReservedColumnId.isReserved columnId = false) :
    codec.getField columnId = some labelField := by
  have htableId : columnId ≠ reservedColumnIdTableId := by
    rintro rfl
    exact absurd hreserved (by decide)
  have htsid : columnId ≠ reservedColumnIdTsid := by
    rintro rfl
    exact absurd hreserved (by decide)
  rw [getField_of_isSome codec h, if_neg htableId, if_neg htsid]

/-- Writing a row after a row that was written writes the first row's bytes, then what the
second row writes or its failure. -/
lemma encodeToVec_append_of_ok {p : Memcomparable} {row₁ row₂ : List (UInt32 × Value)}
    {bytes₁ : List UInt8} (h₁ : codec.encodeToVec p row₁ = .ok bytes₁) :
    codec.encodeToVec p (row₁ ++ row₂) = (codec.encodeToVec p row₂).map (bytes₁ ++ ·) := by
  induction row₁ generalizing bytes₁ with
  | nil =>
    cases h₁
    rw [List.nil_append]
    cases codec.encodeToVec p row₂ <;> rfl
  | cons entry row₁ ih =>
    obtain ⟨columnId, value⟩ := entry
    simp only [List.cons_append, encodeToVec] at h₁ ⊢
    split_ifs at h₁ ⊢
    · exact ih h₁
    · split at h₁
      · rename_i field _
        cases hser : field.serialize p value with
        | error e => simp [hser, bind, Except.bind] at h₁
        | ok bytes =>
          cases hrest : codec.encodeToVec p row₁ with
          | error e => simp [hser, hrest, bind, Except.bind] at h₁
          | ok rest =>
            simp only [hser, hrest, bind, Except.bind, pure, Except.pure, Except.ok.injEq] at h₁
            rw [← h₁, ih hrest]
            cases codec.encodeToVec p row₂ <;> simp [bind, Except.bind, pure, Except.pure, Except.map]
      · exact ih h₁

/-- Writing two rows one after the other writes the row of both. -/
lemma encodeToVec_append {p : Memcomparable} {row₁ row₂ : List (UInt32 × Value)}
    {bytes₁ bytes₂ : List UInt8} (h₁ : codec.encodeToVec p row₁ = .ok bytes₁)
    (h₂ : codec.encodeToVec p row₂ = .ok bytes₂) :
    codec.encodeToVec p (row₁ ++ row₂) = .ok (bytes₁ ++ bytes₂) := by
  rw [encodeToVec_append_of_ok codec h₁, h₂]
  rfl

lemma tableIdField_serialize (p : Memcomparable) (tableId : UInt32) :
    tableIdField.serialize p (.uint32 tableId) = .ok (1 :: p.u32.ser tableId) := rfl

lemma tsidField_serialize (p : Memcomparable) (tsid : UInt64) :
    tsidField.serialize p (.uint64 tsid) = .ok (1 :: p.u64.ser tsid) := rfl

lemma putU32_eq_ser {p : Memcomparable} (hp : p.Lawful) (n : UInt32) : putU32 n = p.u32.ser n :=
  (hp.u32_ser n).symm

lemma putU64_eq_ser {p : Memcomparable} (hp : p.Lawful) (n : UInt64) : putU64 n = p.u64.ser n :=
  (hp.u64_ser n).symm

/-- `encode_to_vec` of the table id and the tsid writes what `encode_internal` writes, when the
codec knows both columns. -/
lemma encodeToVec_internal {p : Memcomparable} (hp : p.Lawful)
    (htableId : (codec.getField reservedColumnIdTableId).isSome)
    (htsid : (codec.getField reservedColumnIdTsid).isSome) (tableId : UInt32) (tsid : UInt64) :
    codec.encodeToVec p [(reservedColumnIdTableId, .uint32 tableId), (reservedColumnIdTsid, .uint64 tsid)] =
      .ok (encodeInternal tableId tsid) := by
  have hne : reservedColumnIdTsid ≠ reservedColumnIdTableId := by decide
  simp only [encodeToVec, reduceCtorEq, if_false, getField_of_isSome codec htableId,
    getField_of_isSome codec htsid, if_true, if_neg hne, tableIdField_serialize, tsidField_serialize]
  simp [encodeInternal, putU32_eq_ser hp, putU64_eq_ser hp, bind, Except.bind, pure, Except.pure]

/-- A label is written as `Some` of what the crate writes of the string. -/
lemma labelField_serialize (p : Memcomparable) (v : String) :
    labelField.serialize p (.string v) = .ok (1 :: p.str.ser v) := rfl

/-- `encode_to_vec` of labels writes what `encode_raw_tag_value` writes of their UTF-8 bytes. -/
lemma encodeToVec_labels {p : Memcomparable} (hp : p.Lawful) (tags : List (UInt32 × String))
    (htags : ∀ tag ∈ tags, codec.getField tag.1 = some labelField) :
    codec.encodeToVec p (tags.map fun tag => (tag.1, .string tag.2)) =
      .ok (encodeRawTagValue (tags.map fun tag => (tag.1, utf8 tag.2))) := by
  induction tags with
  | nil => rfl
  | cons tag tags ih =>
    have hlabel := htags tag List.mem_cons_self
    simp only [List.map_cons, encodeToVec, reduceCtorEq, if_false, hlabel, labelField_serialize,
      hp.str_ser, ih fun tag htag => htags tag (List.mem_cons_of_mem _ htag), encodeRawTagValue,
      rawTagBytes_eq_groupsSer, putU32_eq_ser hp, bind, Except.bind, pure, Except.pure, bytesSer]
    simp

/-- The fields of the table id and the tsid do not take a string, so `encode_to_vec` of labels
that the codec knows writes them only at label columns. -/
lemma getField_of_encodeToVec_labels {tags : List (UInt32 × String)}
    (htags : ∀ tag ∈ tags, (codec.getField tag.1).isSome) {p : Memcomparable} {bytes : List UInt8}
    (h : codec.encodeToVec p (tags.map fun tag => (tag.1, .string tag.2)) = .ok bytes) :
    ∀ tag ∈ tags, codec.getField tag.1 = some labelField := by
  induction tags generalizing bytes with
  | nil => simp
  | cons tag tags ih =>
    have hfield := getField_of_isSome codec (htags tag List.mem_cons_self)
    simp only [List.map_cons, encodeToVec, reduceCtorEq, if_false, hfield] at h
    split_ifs at hfield h with htableId htsid
    · simp [tableIdField, SortField.serialize, serializeWith, Value.asU32, Value.cast, Except.map,
        bind, Except.bind] at h
    · simp [tsidField, SortField.serialize, serializeWith, Value.asU64, Value.cast, Except.map,
        bind, Except.bind] at h
    · cases hrest : codec.encodeToVec p (tags.map fun tag => (tag.1, .string tag.2)) with
      | error e => simp [hrest, labelField_serialize, bind, Except.bind] at h
      | ok rest =>
        intro t ht
        rcases List.mem_cons.mp ht with rfl | ht
        · exact hfield
        · exact ih (fun t ht => htags t (List.mem_cons_of_mem _ ht)) hrest t ht

/-! ## Reading the key back -/

section
variable {p : Memcomparable} (hp : p.Lawful)
include hp

lemma tableIdField_deserialize (tableId : UInt32) (rest : List UInt8) :
    tableIdField.deserialize p (1 :: putU32 tableId ++ rest) = .ok (.uint32 tableId, rest) := by
  rw [putU32_eq_ser hp]
  exact deserializeWith_some p.u32 .uint32 tableId rest

lemma tsidField_deserialize (tsid : UInt64) (rest : List UInt8) :
    tsidField.deserialize p (1 :: putU64 tsid ++ rest) = .ok (.uint64 tsid, rest) := by
  rw [putU64_eq_ser hp]
  exact deserializeWith_some p.u64 .uint64 tsid rest

lemma labelField_deserialize (v : String) (rest : List UInt8) :
    labelField.deserialize p (1 :: bytesSer (utf8 v) ++ rest) = .ok (.string v, rest) := by
  rw [← hp.str_ser]
  exact deserializeWith_some p.str .string v rest

end

lemma decodeLabels_nil {p : Memcomparable} (values : SparseValues) :
    decodeLabels p values [] = .ok values := by
  rw [decodeLabels]

/-- One turn of the loop: a column id and a label read, the label is inserted. -/
lemma decodeLabels_of_ok {p : Memcomparable} {values : SparseValues} {bytes rest rest' : List UInt8}
    {columnId : UInt32} {value : Value} (hne : bytes ≠ [])
    (hid : deserializeColumnId p bytes = .ok (columnId, rest))
    (hvalue : labelField.deserialize p rest = .ok (value, rest')) :
    decodeLabels p values bytes = decodeLabels p (values.insert columnId value) rest' := by
  obtain ⟨b, bs, rfl⟩ := List.exists_cons_of_ne_nil hne
  rw [decodeLabels]
  split
  · rename_i e he
    rw [hid] at he
    cases he
  · rename_i columnId₂ rest₂ he
    rw [hid, Except.ok.injEq, Prod.mk.injEq] at he
    obtain ⟨rfl, rfl⟩ := he
    split
    · rename_i e he
      rw [hvalue] at he
      cases he
    · rename_i value₂ rest₃ he
      rw [hvalue, Except.ok.injEq, Prod.mk.injEq] at he
      obtain ⟨rfl, rfl⟩ := he
      rfl

/-- The loop reads the labels `encode_raw_tag_value` writes, and inserts them in order. -/
lemma decodeLabels_encodeRawTagValue {p : Memcomparable} (hp : p.Lawful)
    (tags : List (UInt32 × String)) (values : SparseValues) :
    decodeLabels p values (encodeRawTagValue (tags.map fun tag => (tag.1, utf8 tag.2))) =
      .ok (tags.foldl (fun values tag => values.insert tag.1 (.string tag.2)) values) := by
  induction tags generalizing values with
  | nil => exact decodeLabels_nil values
  | cons tag tags ih =>
    obtain ⟨columnId, v⟩ := tag
    have hbytes : encodeRawTagValue (((columnId, v) :: tags).map fun tag => (tag.1, utf8 tag.2)) =
        p.u32.ser columnId ++
          (1 :: bytesSer (utf8 v) ++ encodeRawTagValue (tags.map fun tag => (tag.1, utf8 tag.2))) := by
      simp [encodeRawTagValue, rawTagBytes_eq_groupsSer, putU32_eq_ser hp, bytesSer]
    have hne : p.u32.ser columnId ++
        (1 :: bytesSer (utf8 v) ++ encodeRawTagValue (tags.map fun tag => (tag.1, utf8 tag.2))) ≠ [] :=
      by simp
    rw [hbytes, decodeLabels_of_ok hne (deserializeColumnId_ser _ _) (labelField_deserialize hp v _),
      List.foldl_cons]
    exact ih _

/-- `decode_sparse` reads the short cut's key: the table id, the tsid, then the labels. -/
lemma decodeSparse_shortCut {p : Memcomparable} (hp : p.Lawful) (tableId : UInt32) (tsid : UInt64)
    (tags : List (UInt32 × String)) :
    decodeSparse p (encodeInternal tableId tsid ++
        encodeRawTagValue (tags.map fun tag => (tag.1, utf8 tag.2))) =
      .ok (tags.foldl (fun values tag => values.insert tag.1 (.string tag.2))
        (((SparseValues.new []).insert reservedColumnIdTableId (.uint32 tableId)).insert
          reservedColumnIdTsid (.uint64 tsid))) := by
  have hbytes : encodeInternal tableId tsid ++
      encodeRawTagValue (tags.map fun tag => (tag.1, utf8 tag.2)) =
        p.u32.ser reservedColumnIdTableId ++ (1 :: putU32 tableId ++
          (p.u32.ser reservedColumnIdTsid ++ (1 :: putU64 tsid ++
            encodeRawTagValue (tags.map fun tag => (tag.1, utf8 tag.2))))) := by
    simp [encodeInternal, putU32_eq_ser hp]
  rw [hbytes]
  simp only [decodeSparse, deserializeColumnId_ser, tableIdField_deserialize hp,
    tsidField_deserialize hp, bind, Except.bind]
  exact decodeLabels_encodeRawTagValue hp tags _

/-- No label of a key is at a reserved column. -/
lemma lookup_reverse_of_reserved {tags : List (UInt32 × String)}
    (htags : ∀ tag ∈ tags, ReservedColumnId.isReserved tag.1 = false) {columnId : UInt32}
    (hreserved : ReservedColumnId.isReserved columnId = true) : tags.reverse.lookup columnId = none := by
  rw [List.lookup_eq_none_iff]
  intro tag htag
  have h := htags tag (List.mem_reverse.mp htag)
  rw [bne_iff_ne]
  rintro rfl
  rw [h] at hreserved
  cases hreserved

/-- When the codec knows the columns of the table id and the tsid, `encode_to_vec` of the table
id, the tsid and labels of UTF-8 strings writes what `encode_internal` and
`encode_raw_tag_value` write, and `decode_sparse` reads from it the table id, the tsid and the
last value of each label. -/
theorem encodeToVec_eq_shortCut (p : Memcomparable) (hp : p.Lawful) (codec : SparsePrimaryKeyCodec)
    (htableId : (codec.getField reservedColumnIdTableId).isSome)
    (htsid : (codec.getField reservedColumnIdTsid).isSome) (tableId : UInt32) (tsid : UInt64)
    (tags : List (UInt32 × String))
    (htags : ∀ tag ∈ tags, (codec.getField tag.1).isSome ∧
      ReservedColumnId.isReserved tag.1 = false) :
    codec.encodeToVec p ([(reservedColumnIdTableId, .uint32 tableId),
        (reservedColumnIdTsid, .uint64 tsid)] ++ tags.map fun tag => (tag.1, .string tag.2)) =
      .ok (encodeInternal tableId tsid ++ encodeRawTagValue (tags.map fun tag => (tag.1, utf8 tag.2))) ∧
    ∃ values, decodeSparse p (encodeInternal tableId tsid ++
        encodeRawTagValue (tags.map fun tag => (tag.1, utf8 tag.2))) = .ok values ∧
      values.get reservedColumnIdTableId = some (.uint32 tableId) ∧
      values.get reservedColumnIdTsid = some (.uint64 tsid) ∧
      ∀ columnId, columnId ≠ reservedColumnIdTableId → columnId ≠ reservedColumnIdTsid →
        values.get columnId = (tags.reverse.lookup columnId).map .string := by
  have hreserved : ∀ tag ∈ tags, ReservedColumnId.isReserved tag.1 = false :=
    fun tag htag => (htags tag htag).2
  have hne : reservedColumnIdTableId ≠ reservedColumnIdTsid := by decide
  have hlabels : ∀ tag ∈ tags, codec.getField tag.1 = some labelField :=
    fun tag htag => getField_label codec (htags tag htag).1 (htags tag htag).2
  refine ⟨encodeToVec_append codec (encodeToVec_internal codec hp htableId htsid tableId tsid)
    (encodeToVec_labels codec hp tags hlabels), _, decodeSparse_shortCut hp tableId tsid tags, ?_, ?_,
    ?_⟩
  · rw [SparseValues.get_foldl_insert, lookup_reverse_of_reserved hreserved (by decide)]
    simp [hne]
  · rw [SparseValues.get_foldl_insert, lookup_reverse_of_reserved hreserved (by decide)]
    simp
  · intro columnId htableId' htsid'
    rw [SparseValues.get_foldl_insert]
    simp [htableId', htsid']

/-- A key of a physical region of the metric engine: the table id, the tsid and two labels. -/
def metricKey : SparsePrimaryKeyCodec :=
  fromColumns [reservedColumnIdTableId, reservedColumnIdTsid, 1, 2]

/-- Labels with an empty value and a label given twice. -/
def metricTags : List (UInt32 × String) := [(1, "greptime-frontend"), (2, ""), (1, "x")]

theorem encodeToVec_eq_shortCut_metricKey :
    (metricKey.getField reservedColumnIdTableId).isSome ∧
    (metricKey.getField reservedColumnIdTsid).isSome ∧
    (∀ tag ∈ metricTags, (metricKey.getField tag.1).isSome ∧
      ReservedColumnId.isReserved tag.1 = false) ∧
    metricKey.encodeToVec .memcmp ([(reservedColumnIdTableId, .uint32 1024),
        (reservedColumnIdTsid, .uint64 42)] ++ metricTags.map fun tag => (tag.1, .string tag.2)) =
      .ok (encodeInternal 1024 42 ++ encodeRawTagValue (metricTags.map fun tag => (tag.1, utf8 tag.2))) ∧
    ∃ values, decodeSparse .memcmp (encodeInternal 1024 42 ++
        encodeRawTagValue (metricTags.map fun tag => (tag.1, utf8 tag.2))) = .ok values ∧
      values.get reservedColumnIdTableId = some (.uint32 1024) ∧
      values.get reservedColumnIdTsid = some (.uint64 42) ∧
      ∀ columnId, columnId ≠ reservedColumnIdTableId → columnId ≠ reservedColumnIdTsid →
        values.get columnId = (metricTags.reverse.lookup columnId).map .string :=
  ⟨by decide, by decide, by decide,
    encodeToVec_eq_shortCut .memcmp Memcomparable.lawful_memcmp metricKey (by decide) (by decide) 1024 42
      metricTags (by decide)⟩

/-! ## Reading one column -/

/-- The loop of `has_column` from `offset`, with the map of offsets as its inserts, the latest
first: while bytes are left, a column id, and the offset after it goes into the map; a column
without a field ends the loop, and the value of one with a field is skipped.  `none` where an
`unwrap` panics. -/
def hasColumnLoop (pk : List UInt8) (offset : ℕ) (offsetsMap : List (UInt32 × ℕ)) :
    Option (List (UInt32 × ℕ)) :=
  if _h : offset < pk.length then
    match deserializeColumnId p (pk.drop offset) with
    | .error _ => none
    | .ok (columnId, _) =>
      match codec.getField columnId with
      | none => some ((columnId, offset + 4) :: offsetsMap)
      | some field =>
        match field.skipDeserialize p pk (offset + 4) with
        | .error _ => none
        | .ok skip => hasColumnLoop pk (offset + 4 + skip) ((columnId, offset + 4) :: offsetsMap)
  else some offsetsMap
termination_by pk.length - offset

/-- `has_column`: an empty map is filled by the loop first; the offset of the column, with the
map the call leaves, and `none` where the loop panics. -/
def hasColumn (pk : List UInt8) (offsetsMap : List (UInt32 × ℕ)) (columnId : UInt32) :
    Option (Option ℕ × List (UInt32 × ℕ)) :=
  if offsetsMap.isEmpty then
    (codec.hasColumnLoop p pk 0 offsetsMap).map fun offsetsMap => (offsetsMap.lookup columnId, offsetsMap)
  else some (offsetsMap.lookup columnId, offsetsMap)

/-- `decode_value_at`: the value at `offset`, read with the column's field; `none` where
`advance` or the `unwrap` of the field panics. -/
def decodeValueAt (pk : List UInt8) (offset : ℕ) (columnId : UInt32) :
    Option (Except CodecError Value) :=
  if offset ≤ pk.length then
    (codec.getField columnId).map fun field => (field.deserialize p (pk.drop offset)).map Prod.fst
  else none

/-- Calls of `has_column` one after the other with one map, as `SparsePrimaryKeyFilter::matches`
makes them for the columns of its filters. -/
def hasColumns (pk : List UInt8) : List (UInt32 × ℕ) → List UInt32 → Option (List (Option ℕ))
  | _, [] => some []
  | offsetsMap, columnId :: columnIds => do
    let (offset, offsetsMap) ← codec.hasColumn p pk offsetsMap columnId
    let offsets ← hasColumns pk offsetsMap columnIds
    pure (offset :: offsets)

/-- The bytes of columns written one after the other, each value after its column id. -/
def encodeEntries (entries : List (UInt32 × Value × List UInt8)) : List UInt8 :=
  entries.flatMap fun entry => p.u32.ser entry.1 ++ entry.2.2

/-- A column written in a key: the codec has a field for its id, which reads the value back from
its bytes whatever follows them. -/
def Written (entry : UInt32 × Value × List UInt8) : Prop :=
  ∃ field, codec.getField entry.1 = some field ∧
    ∀ rest, field.deserialize p (entry.2.2 ++ rest) = .ok (entry.2.1, rest)

lemma length_ser_columnId {p : Memcomparable} (hp : p.Lawful) (columnId : UInt32) :
    (p.u32.ser columnId).length = 4 := by
  rw [← putU32_eq_ser hp, putU32, length_toBE]

lemma lookup_eq_none_of_not_mem {β : Type} {l : List (UInt32 × β)} {columnId : UInt32}
    (h : columnId ∉ l.map Prod.fst) : l.lookup columnId = none := by
  rw [List.lookup_eq_none_iff]
  intro p hp
  rw [bne_iff_ne]
  rintro rfl
  exact h (List.mem_map_of_mem hp)

/-- One column of the loop: its id is read, its offset goes into the map, and its value is
skipped to the next column. -/
lemma hasColumnLoop_cons {p : Memcomparable} (hp : p.Lawful) {pk : List UInt8} {offset : ℕ}
    {offsetsMap : List (UInt32 × ℕ)} {entry : UInt32 × Value × List UInt8}
    {entries : List (UInt32 × Value × List UInt8)}
    (hw : codec.Written p entry) (hpk : pk.drop offset = encodeEntries p (entry :: entries)) :
    codec.hasColumnLoop p pk offset offsetsMap = codec.hasColumnLoop p pk
      (offset + 4 + entry.2.2.length) ((entry.1, offset + 4) :: offsetsMap) ∧
    pk.drop (offset + 4 + entry.2.2.length) = encodeEntries p entries ∧
    codec.decodeValueAt p pk (offset + 4) entry.1 = some (.ok entry.2.1) := by
  obtain ⟨field, hfield, hread⟩ := hw
  rw [encodeEntries, List.flatMap_cons, List.append_assoc] at hpk
  have hlen := congrArg List.length hpk
  simp only [List.length_drop, List.length_append, length_ser_columnId hp] at hlen
  -- the value starts after the four bytes of the column id
  have hvalue : pk.drop (offset + 4) = entry.2.2 ++ encodeEntries p entries := by
    rw [← List.drop_drop, hpk, List.drop_append_of_le_length (by rw [length_ser_columnId hp]),
      List.drop_eq_nil_of_le (by rw [length_ser_columnId hp]), List.nil_append]
    rfl
  have hdeser := hread (encodeEntries p entries)
  rw [← hvalue] at hdeser
  have hskip := SortField.skipDeserialize_of_deserialize hp hdeser
  rw [hvalue, List.length_append, Nat.add_sub_cancel] at hskip
  refine ⟨?_, ?_, ?_⟩
  · rw [hasColumnLoop, dif_pos (by omega), hpk, deserializeColumnId_ser]
    simp only [hfield, hskip]
  · rw [← List.drop_drop, hvalue, List.drop_left]
  · rw [decodeValueAt, if_pos (by omega), hfield, Option.map_some, hdeser]
    rfl

/-- The loop over the columns of a key from `offset`: the map it leaves has, for each column
of the key, the offset of its last value, where `decode_value_at` reads that value, and for any
other column what the map had. -/
lemma hasColumnLoop_entries {p : Memcomparable} (hp : p.Lawful) (pk : List UInt8) :
    ∀ (entries : List (UInt32 × Value × List UInt8)) (offset : ℕ)
      (offsetsMap : List (UInt32 × ℕ)), (∀ entry ∈ entries, codec.Written p entry) →
      pk.drop offset = encodeEntries p entries →
      ∃ offsetsMap', codec.hasColumnLoop p pk offset offsetsMap = some offsetsMap' ∧
        ∀ columnId, (columnId ∈ entries.map Prod.fst → ∃ off value,
            offsetsMap'.lookup columnId = some off ∧
            ((entries.map fun entry => (entry.1, entry.2.1)).reverse.lookup columnId = some value) ∧
            codec.decodeValueAt p pk off columnId = some (.ok value)) ∧
          (columnId ∉ entries.map Prod.fst → offsetsMap'.lookup columnId = offsetsMap.lookup columnId)
  | [], offset, offsetsMap, _, hpk => by
    have hend : pk.length ≤ offset := by
      simpa [encodeEntries] using hpk
    refine ⟨offsetsMap, ?_, fun columnId => ⟨fun h => absurd h List.not_mem_nil, fun _ => rfl⟩⟩
    rw [hasColumnLoop, dif_neg (by omega)]
  | entry :: entries, offset, offsetsMap, hw, hpk => by
    obtain ⟨hloop, hnext, hread⟩ := hasColumnLoop_cons codec hp (hw entry List.mem_cons_self) hpk
    obtain ⟨offsetsMap', hrest, hlookup⟩ := hasColumnLoop_entries hp pk entries _
      ((entry.1, offset + 4) :: offsetsMap) (fun e he => hw e (List.mem_cons_of_mem _ he)) hnext
    refine ⟨offsetsMap', hloop ▸ hrest, fun columnId => ⟨fun hmem => ?_, fun hmem => ?_⟩⟩
    · rw [List.map_cons, List.reverse_cons, List.lookup_append]
      by_cases hlater : columnId ∈ entries.map Prod.fst
      · -- a later value of the column is the one the map and the lookup find
        obtain ⟨off, value, hoff, hvalue, hdecode⟩ := (hlookup columnId).1 hlater
        exact ⟨off, value, hoff, by rw [hvalue]; rfl, hdecode⟩
      · -- this is the column's last value
        have hcol : columnId = entry.1 := by
          rcases List.mem_cons.mp (List.map_cons ▸ hmem) with h | h
          · exact h
          · exact absurd h hlater
        subst hcol
        have hnone : (entries.map fun e => (e.1, e.2.1)).reverse.lookup entry.1 = none := by
          apply lookup_eq_none_of_not_mem
          simpa [List.map_reverse, List.map_map, Function.comp_def] using hlater
        refine ⟨offset + 4, entry.2.1, ?_, ?_, hread⟩
        · rw [(hlookup entry.1).2 hlater]
          simp
        · rw [hnone]
          simp
    · rw [(hlookup columnId).2 (fun h => hmem (List.mem_cons_of_mem _ h))]
      have hne : columnId ≠ entry.1 := fun h => hmem (h ▸ List.mem_cons_self)
      simp [List.lookup_cons, beq_false_of_ne hne]

/-- The columns of a key of the short cut: the table id, the tsid and the labels, each with the
bytes of its value. -/
def keyEntries (tableId : UInt32) (tsid : UInt64) (tags : List (UInt32 × String)) :
    List (UInt32 × Value × List UInt8) :=
  (reservedColumnIdTableId, .uint32 tableId, 1 :: putU32 tableId) ::
    (reservedColumnIdTsid, .uint64 tsid, 1 :: putU64 tsid) ::
    tags.map fun tag => (tag.1, .string tag.2, 1 :: bytesSer (utf8 tag.2))

lemma encodeEntries_keyEntries {p : Memcomparable} (hp : p.Lawful) (tableId : UInt32) (tsid : UInt64)
    (tags : List (UInt32 × String)) :
    encodeEntries p (keyEntries tableId tsid tags) =
      encodeInternal tableId tsid ++ encodeRawTagValue (tags.map fun tag => (tag.1, utf8 tag.2)) := by
  have hlabels : encodeEntries p (tags.map fun tag => (tag.1, .string tag.2, 1 :: bytesSer (utf8 tag.2))) =
      encodeRawTagValue (tags.map fun tag => (tag.1, utf8 tag.2)) := by
    induction tags with
    | nil => rfl
    | cons tag tags ih =>
      rw [List.map_cons, encodeEntries, List.flatMap_cons, ← encodeEntries, ih]
      simp [encodeRawTagValue, rawTagBytes_eq_groupsSer, putU32_eq_ser hp, bytesSer]
  rw [keyEntries, encodeEntries, List.flatMap_cons, List.flatMap_cons, ← encodeEntries, hlabels]
  simp [encodeInternal, putU32_eq_ser hp]

/-- Every column of the key is written with the field the codec has for it. -/
lemma written_keyEntries {p : Memcomparable} (hp : p.Lawful)
    (htableId : (codec.getField reservedColumnIdTableId).isSome)
    (htsid : (codec.getField reservedColumnIdTsid).isSome) (tableId : UInt32) (tsid : UInt64)
    {tags : List (UInt32 × String)} (hlabels : ∀ tag ∈ tags, codec.getField tag.1 = some labelField) :
    ∀ entry ∈ keyEntries tableId tsid tags, codec.Written p entry := by
  have hne : reservedColumnIdTsid ≠ reservedColumnIdTableId := by decide
  intro entry hentry
  rcases List.mem_cons.mp hentry with rfl | hentry
  · refine ⟨tableIdField, ?_, tableIdField_deserialize hp tableId⟩
    rw [getField_of_isSome codec htableId, if_pos rfl]
  rcases List.mem_cons.mp hentry with rfl | hentry
  · refine ⟨tsidField, ?_, tsidField_deserialize hp tsid⟩
    rw [getField_of_isSome codec htsid, if_neg hne, if_pos rfl]
  obtain ⟨tag, htag, rfl⟩ := List.mem_map.mp hentry
  exact ⟨labelField, hlabels tag htag, labelField_deserialize hp tag.2⟩

/-- Once the map is filled, a call only looks the column up. -/
lemma hasColumns_of_ne_nil {p : Memcomparable} {pk : List UInt8} {offsetsMap : List (UInt32 × ℕ)}
    (h : offsetsMap ≠ []) (columnIds : List UInt32) :
    codec.hasColumns p pk offsetsMap columnIds =
      some (columnIds.map fun columnId => offsetsMap.lookup columnId) := by
  induction columnIds with
  | nil => rfl
  | cons columnId columnIds ih =>
    have hcall : codec.hasColumn p pk offsetsMap columnId =
        some (offsetsMap.lookup columnId, offsetsMap) := by
      rw [hasColumn, if_neg (by simpa using h)]
    simp [hasColumns, hcall, ih]

/-- Calls from an empty map: the first fills it with the loop, and every call looks its column
up there. -/
lemma hasColumns_nil {p : Memcomparable} {pk : List UInt8} {offsetsMap : List (UInt32 × ℕ)}
    (hloop : codec.hasColumnLoop p pk 0 [] = some offsetsMap) (h : offsetsMap ≠ [])
    (columnIds : List UInt32) :
    codec.hasColumns p pk [] columnIds =
      some (columnIds.map fun columnId => offsetsMap.lookup columnId) := by
  cases columnIds with
  | nil => rfl
  | cons columnId columnIds =>
    have hcall : codec.hasColumn p pk [] columnId = some (offsetsMap.lookup columnId, offsetsMap) := by
      simp [hasColumn, hloop]
    simp [hasColumns, hcall, hasColumns_of_ne_nil codec h]

/-- On a key that `encode_to_vec` writes for the table id, the tsid and labels, all of columns
the codec knows, calls of `has_column` with one map that starts empty give an offset for every
column of the key, at which `decode_value_at` reads the value `decode_sparse` reads for it, and
nothing for any other column. -/
theorem hasColumn_decodeValueAt (p : Memcomparable) (hp : p.Lawful) (codec : SparsePrimaryKeyCodec)
    (htableId : (codec.getField reservedColumnIdTableId).isSome)
    (htsid : (codec.getField reservedColumnIdTsid).isSome) (tableId : UInt32) (tsid : UInt64)
    (tags : List (UInt32 × String)) (htags : ∀ tag ∈ tags, (codec.getField tag.1).isSome)
    (pk : List UInt8)
    (hpk : codec.encodeToVec p ([(reservedColumnIdTableId, .uint32 tableId),
        (reservedColumnIdTsid, .uint64 tsid)] ++ tags.map fun tag => (tag.1, .string tag.2)) = .ok pk)
    (columnIds : List UInt32) :
    ∃ values, decodeSparse p pk = .ok values ∧
      ∃ offsets, codec.hasColumns p pk [] columnIds = some offsets ∧
        List.Forall₂ (fun columnId offset =>
          ((columnId = reservedColumnIdTableId ∨ columnId = reservedColumnIdTsid ∨
              columnId ∈ tags.map Prod.fst) →
            ∃ off value, offset = some off ∧ values.get columnId = some value ∧
              codec.decodeValueAt p pk off columnId = some (.ok value)) ∧
          (¬(columnId = reservedColumnIdTableId ∨ columnId = reservedColumnIdTsid ∨
              columnId ∈ tags.map Prod.fst) → offset = none)) columnIds offsets := by
  -- the key is the short cut's: the labels are at label columns
  rw [encodeToVec_append_of_ok codec (encodeToVec_internal codec hp htableId htsid tableId tsid)] at hpk
  obtain ⟨rest, hrest, rfl⟩ : ∃ rest, codec.encodeToVec p
      (tags.map fun tag => (tag.1, .string tag.2)) = .ok rest ∧ encodeInternal tableId tsid ++ rest = pk := by
    cases h : codec.encodeToVec p (tags.map fun tag => (tag.1, .string tag.2)) with
    | error e => simp [h, Except.map] at hpk
    | ok rest => exact ⟨rest, rfl, by simpa [h, Except.map] using hpk⟩
  have hlabels := getField_of_encodeToVec_labels codec htags hrest
  rw [encodeToVec_labels codec hp tags hlabels, Except.ok.injEq] at hrest
  subst hrest
  rw [← encodeEntries_keyEntries hp]
  -- the loop from the start walks the columns of the key
  obtain ⟨offsetsMap, hloop, hlookup⟩ := hasColumnLoop_entries codec hp _ (keyEntries tableId tsid tags)
    0 [] (written_keyEntries codec hp htableId htsid tableId tsid hlabels) List.drop_zero
  have hkeys : ∀ columnId, columnId ∈ (keyEntries tableId tsid tags).map Prod.fst ↔
      (columnId = reservedColumnIdTableId ∨ columnId = reservedColumnIdTsid ∨
        columnId ∈ tags.map Prod.fst) := by
    intro columnId
    simp [keyEntries, List.map_map, Function.comp_def]
  have hne : offsetsMap ≠ [] := by
    obtain ⟨off, -, hoff, -⟩ := (hlookup reservedColumnIdTableId).1 ((hkeys _).2 (.inl rfl))
    rintro rfl
    cases hoff
  -- `decode_sparse` reads the same columns, the latest value of each first
  have hvalues : ∀ values : SparseValues, decodeSparse p (encodeEntries p (keyEntries tableId tsid tags)) =
      .ok values → ∀ columnId, values.get columnId =
        ((keyEntries tableId tsid tags).map fun entry => (entry.1, entry.2.1)).reverse.lookup columnId := by
    intro values hdecode columnId
    rw [encodeEntries_keyEntries hp, decodeSparse_shortCut hp, Except.ok.injEq] at hdecode
    rw [SparseValues.get, ← hdecode, SparseValues.values_foldl_insert]
    simp [keyEntries, SparseValues.insert, SparseValues.new, List.map_map, Function.comp_def]
  refine ⟨_, by rw [encodeEntries_keyEntries hp, decodeSparse_shortCut hp], _,
    hasColumns_nil codec hloop hne columnIds, ?_⟩
  rw [List.forall₂_map_right_iff, List.forall₂_same]
  intro columnId _
  refine ⟨fun hmem => ?_, fun hmem => ?_⟩
  · obtain ⟨off, value, hoff, hvalue, hdecode⟩ := (hlookup columnId).1 ((hkeys columnId).2 hmem)
    refine ⟨off, value, hoff, ?_, hdecode⟩
    rw [hvalues _ (by rw [encodeEntries_keyEntries hp, decodeSparse_shortCut hp]), hvalue]
  · rw [(hlookup columnId).2 (fun h => hmem ((hkeys columnId).1 h))]
    rfl

/-- The key of `metricTags` in a physical region of the metric engine. -/
def metricPk : List UInt8 :=
  encodeInternal 1024 42 ++ encodeRawTagValue (metricTags.map fun tag => (tag.1, utf8 tag.2))

theorem hasColumn_decodeValueAt_metricKey :
    (metricKey.getField reservedColumnIdTableId).isSome ∧
    (metricKey.getField reservedColumnIdTsid).isSome ∧
    (∀ tag ∈ metricTags, (metricKey.getField tag.1).isSome) ∧
    metricKey.encodeToVec .memcmp ([(reservedColumnIdTableId, .uint32 1024),
        (reservedColumnIdTsid, .uint64 42)] ++ metricTags.map fun tag => (tag.1, .string tag.2)) =
      .ok metricPk ∧
    ∃ values, decodeSparse .memcmp metricPk = .ok values ∧
      ∃ offsets, metricKey.hasColumns .memcmp metricPk [] [2, 3, reservedColumnIdTsid, 1] = some offsets ∧
        List.Forall₂ (fun columnId offset =>
          ((columnId = reservedColumnIdTableId ∨ columnId = reservedColumnIdTsid ∨
              columnId ∈ metricTags.map Prod.fst) →
            ∃ off value, offset = some off ∧ values.get columnId = some value ∧
              metricKey.decodeValueAt .memcmp metricPk off columnId = some (.ok value)) ∧
          (¬(columnId = reservedColumnIdTableId ∨ columnId = reservedColumnIdTsid ∨
              columnId ∈ metricTags.map Prod.fst) → offset = none))
          [2, 3, reservedColumnIdTsid, 1] offsets :=
  have hpk := encodeToVec_append metricKey
    (encodeToVec_internal metricKey Memcomparable.lawful_memcmp (by decide) (by decide) 1024 42)
    (encodeToVec_labels metricKey Memcomparable.lawful_memcmp metricTags fun tag htag =>
      getField_label metricKey (by revert tag; decide) (by revert tag; decide))
  ⟨by decide, by decide, by decide, hpk,
    hasColumn_decodeValueAt .memcmp Memcomparable.lawful_memcmp metricKey (by decide) (by decide) 1024 42
      metricTags (by decide) metricPk hpk [2, 3, reservedColumnIdTsid, 1]⟩

end SparsePrimaryKeyCodec

end Greptime
