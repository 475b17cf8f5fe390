import Mathlib.Data.List.Forall2
import Greptime.Foundations.Codec
import Greptime.Time.Timestamp

/-!
# The dense primary-key codec (`mito_codec::row_converter::dense`)

`DensePrimaryKeyCodec` writes the primary key of a row as the memcomparable encodings of its
values, field after field, each as an `Option` of the field's type (`SortField::serialize`),
and reads them back field by field (`SortField::deserialize`, `decode_dense`).  A value is cast
with the `ValueRef` accessor of the field's type; a value of another type is a
`FieldTypeMismatch` error, and lists, structs, dictionaries and the null type are not supported.

Serializing and deserializing are two tables in the source, one macro each, with cases of their
own: a timestamp is written as its `i64` alone and read back in the unit of the field; the
intervals are packed into an `i32`, `i64` or `i128`; binary, JSON and vector values are written
as sequences of bytes and read back as binary.  `decodeDense_encodeDense` says that the two
tables agree: for fields of supported types and a row whose values are `NULL` or of the
fields' types, decoding the encoding gives the row back, and a codec of the first `k` fields
reads the first `k` values from it, as `first_tag_values` does through `decode_leftmost`.

The encodings of the primitive types are memcomparable's and are not modelled: a
`Memcomparable` gives a self-delimiting `Codec` for each, and everything is proved for every
choice of them.  Options, sequences, structs and unit enums are written as `Codec.option`,
`Codec.seq`, `Codec.pair` and `Codec.tag` write them; `skip_deserialize` relies on the same
layout (`0` for `NULL`, a binary value as bytes each after a `1` up to a `0`, a time unit in
one byte).

A float is its bits (`to_bits`), a signed integer its two's complement bits, and a column id
a natural number.
-/

namespace Greptime

namespace Datatypes

/-- `common_time::Time`: a time of day in a unit. -/
structure Time where
  value : BitVec 64
  unit : TimeUnit
  deriving DecidableEq

/-- `common_time::Duration`. -/
structure Duration where
  value : BitVec 64
  unit : TimeUnit
  deriving DecidableEq

/-- `common_decimal::Decimal128`. -/
structure Decimal128 where
  value : BitVec 128
  precision : UInt8
  scale : BitVec 8
  deriving DecidableEq

/-- `IntervalYearMonth`. -/
structure IntervalYearMonth where
  months : BitVec 32
  deriving DecidableEq

/-- `IntervalDayTime`. -/
structure IntervalDayTime where
  days : BitVec 32
  milliseconds : BitVec 32
  deriving DecidableEq

/-- `IntervalMonthDayNano`. -/
structure IntervalMonthDayNano where
  months : BitVec 32
  days : BitVec 32
  nanoseconds : BitVec 64
  deriving DecidableEq

/-- `IntervalYearMonth::to_i32`. -/
def IntervalYearMonth.toI32 (i : IntervalYearMonth) : BitVec 32 := i.months

/-- `IntervalYearMonth::from_i32`. -/
def IntervalYearMonth.fromI32 (months : BitVec 32) : IntervalYearMonth := ⟨months⟩

/-- `u32::MAX as u64` and `u32::MAX as u128`: the low 32 bits. -/
def lowWord (w : ℕ) : BitVec w := (BitVec.allOnes 32).setWidth w

/-- `IntervalDayTime::to_i64`: the days in the high word and the milliseconds in the low. -/
def IntervalDayTime.toI64 (i : IntervalDayTime) : BitVec 64 :=
  let d := (i.days.signExtend 64 &&& lowWord 64) <<< 32
  let m := i.milliseconds.signExtend 64 &&& lowWord 64
  d ||| m

/-- `IntervalDayTime::from_i64`. -/
def IntervalDayTime.fromI64 (value : BitVec 64) : IntervalDayTime :=
  ⟨(value.sshiftRight 32).setWidth 32, value.setWidth 32⟩

/-- `IntervalMonthDayNano::to_i128`. -/
def IntervalMonthDayNano.toI128 (i : IntervalMonthDayNano) : BitVec 128 :=
  let m := (i.months.signExtend 128 &&& lowWord 128) <<< 96
  let d := (i.days.signExtend 128 &&& lowWord 128) <<< 64
  let n := i.nanoseconds.signExtend 128 &&& (BitVec.allOnes 64).setWidth 128
  m ||| d ||| n

/-- `IntervalMonthDayNano::from_i128`. -/
def IntervalMonthDayNano.fromI128 (value : BitVec 128) : IntervalMonthDayNano :=
  ⟨(value.sshiftRight 96).setWidth 32, (value.sshiftRight 64).setWidth 32, value.setWidth 64⟩

lemma signExtend_and_allOnes {k w : ℕ} (x : BitVec k) :
    x.signExtend w &&& (BitVec.allOnes k).setWidth w = x.setWidth w := by
  ext i hi
  simp only [BitVec.getElem_and, BitVec.getElem_signExtend, BitVec.getElem_setWidth,
    BitVec.getLsbD_allOnes]
  by_cases h : i < k
  · simp [h]
  · simp [h, BitVec.getLsbD_of_ge x i (by omega)]

lemma IntervalYearMonth.fromI32_toI32 (i : IntervalYearMonth) : fromI32 i.toI32 = i := rfl

lemma IntervalDayTime.fromI64_toI64 (i : IntervalDayTime) : fromI64 i.toI64 = i := by
  obtain ⟨d, m⟩ := i
  simp only [toI64, fromI64, lowWord, signExtend_and_allOnes, IntervalDayTime.mk.injEq]
  constructor
  · ext i hi
    simp (disch := omega) only [BitVec.getElem_setWidth, BitVec.getLsbD_sshiftRight,
      if_pos (show 32 + i < 64 by omega), BitVec.getLsbD_or, BitVec.getLsbD_shiftLeft,
      BitVec.getLsbD_setWidth, BitVec.getLsbD_of_ge]
    simp [hi, show ¬64 ≤ i by omega, show 32 + i < 64 by omega, show i < 64 by omega]
  · ext i hi
    simp

lemma IntervalMonthDayNano.fromI128_toI128 (i : IntervalMonthDayNano) : fromI128 i.toI128 = i := by
  obtain ⟨m, d, n⟩ := i
  simp only [toI128, fromI128, lowWord, signExtend_and_allOnes, IntervalMonthDayNano.mk.injEq]
  refine ⟨?_, ?_, ?_⟩
  · ext i hi
    simp (disch := omega) only [BitVec.getElem_setWidth, BitVec.getLsbD_sshiftRight,
      if_pos (show 96 + i < 128 by omega), BitVec.getLsbD_or, BitVec.getLsbD_shiftLeft,
      BitVec.getLsbD_setWidth, BitVec.getLsbD_of_ge]
    simp [hi, show ¬128 ≤ i by omega, show 96 + i < 128 by omega, show i < 128 by omega]
  · ext i hi
    simp (disch := omega) only [BitVec.getElem_setWidth, BitVec.getLsbD_sshiftRight,
      if_pos (show 64 + i < 128 by omega), BitVec.getLsbD_or, BitVec.getLsbD_shiftLeft,
      BitVec.getLsbD_setWidth, BitVec.getLsbD_of_ge]
    simp [hi, show ¬128 ≤ i by omega, show 64 + i < 128 by omega, show 64 + i < 96 by omega,
      show i < 128 by omega]
  · ext i hi
    simp (disch := omega) only [BitVec.getElem_setWidth, BitVec.getLsbD_or,
      BitVec.getLsbD_shiftLeft, BitVec.getLsbD_setWidth]
    simp [hi, show i < 96 by omega, show i < 128 by omega]

/-- `Value`, without lists. -/
inductive Value
  | null
  | boolean (v : Bool)
  | uint8 (v : UInt8)
  | uint16 (v : UInt16)
  | uint32 (v : UInt32)
  | uint64 (v : UInt64)
  | int8 (v : BitVec 8)
  | int16 (v : BitVec 16)
  | int32 (v : BitVec 32)
  | int64 (v : BitVec 64)
  | float32 (v : UInt32)
  | float64 (v : UInt64)
  | decimal128 (v : Decimal128)
  | string (v : String)
  | binary (v : List UInt8)
  | date (v : BitVec 32)
  | timestamp (v : Timestamp)
  | time (v : Time)
  | duration (v : Duration)
  | intervalYearMonth (v : IntervalYearMonth)
  | intervalDayTime (v : IntervalDayTime)
  | intervalMonthDayNano (v : IntervalMonthDayNano)
  deriving DecidableEq

/-- `IntervalType`. -/
inductive IntervalType
  | yearMonth
  | dayTime
  | monthDayNano
  deriving DecidableEq

/-- `ConcreteDataType`, without the types of list items, struct fields and dictionary keys,
the JSON format and the vector dimension, which the codec does not read. -/
inductive ConcreteDataType
  | null
  | boolean
  | int8
  | int16
  | int32
  | int64
  | uint8
  | uint16
  | uint32
  | uint64
  | float32
  | float64
  | decimal128 (precision : UInt8) (scale : BitVec 8)
  | string
  | binary
  | date
  | timestamp (unit : TimeUnit)
  | time (unit : TimeUnit)
  | duration (unit : TimeUnit)
  | interval (t : IntervalType)
  | list
  | struct
  | dictionary
  | json
  | vector
  deriving DecidableEq

/-- The types the dense codec writes. -/
def ConcreteDataType.supported : ConcreteDataType → Bool
  | .null | .list | .struct | .dictionary => false
  | _ => true

/-- The values a column of the type holds: `NULL`, or a value of the type; a JSON or vector
column holds its values as binary. -/
def Value.ofType : Value → ConcreteDataType → Bool
  | .null, _ => true
  | .boolean _, .boolean | .uint8 _, .uint8 | .uint16 _, .uint16 | .uint32 _, .uint32
  | .uint64 _, .uint64 | .int8 _, .int8 | .int16 _, .int16 | .int32 _, .int32
  | .int64 _, .int64 | .float32 _, .float32 | .float64 _, .float64 | .string _, .string
  | .binary _, .binary | .binary _, .json | .binary _, .vector | .date _, .date => true
  | .decimal128 v, .decimal128 precision scale => v.precision == precision && v.scale == scale
  | .timestamp v, .timestamp unit => v.unit == unit
  | .time v, .time unit => v.unit == unit
  | .duration v, .duration unit => v.unit == unit
  | .intervalYearMonth _, .interval .yearMonth | .intervalDayTime _, .interval .dayTime
  | .intervalMonthDayNano _, .interval .monthDayNano => true
  | _, _ => false

end Datatypes

open Datatypes

/-! ## Casting values -/

/-- `mito_codec::error::Error`, as far as the dense codec raises it. -/
inductive CodecError
  | fieldTypeMismatch
  | notSupportedField (dataType : ConcreteDataType)
  | deserializeField
  /-- The panic of `field_at` past the last field. -/
  | fieldOutOfBounds
  deriving DecidableEq

namespace Datatypes.Value

/-- `impl_as_for_value_ref`: `NULL` is `None`, the accessor's variant its payload, and another
value a cast error. -/
def cast {α : Type} (get : Value → Option α) : Value → Except CodecError (Option α)
  | .null => .ok none
  | value =>
    match get value with
    | some a => .ok (some a)
    | none => .error .fieldTypeMismatch

/-- `ValueRef::as_boolean`. -/
def asBoolean := cast fun | .boolean v => some v | _ => none
/-- `ValueRef::as_binary`. -/
def asBinary := cast fun | .binary v => some v | _ => none
/-- `ValueRef::as_string`. -/
def asString := cast fun | .string v => some v | _ => none
/-- `ValueRef::as_i8`. -/
def asI8 := cast fun | .int8 v => some v | _ => none
/-- `ValueRef::as_u8`. -/
def asU8 := cast fun | .uint8 v => some v | _ => none
/-- `ValueRef::as_i16`. -/
def asI16 := cast fun | .int16 v => some v | _ => none
/-- `ValueRef::as_u16`. -/
def asU16 := cast fun | .uint16 v => some v | _ => none
/-- `ValueRef::as_i32`. -/
def asI32 := cast fun | .int32 v => some v | _ => none
/-- `ValueRef::as_u32`. -/
def asU32 := cast fun | .uint32 v => some v | _ => none
/-- `ValueRef::as_i64`. -/
def asI64 := cast fun | .int64 v => some v | _ => none
/-- `ValueRef::as_u64`. -/
def asU64 := cast fun | .uint64 v => some v | _ => none
/-- `ValueRef::as_f32`. -/
def asF32 := cast fun | .float32 v => some v | _ => none
/-- `ValueRef::as_f64`. -/
def asF64 := cast fun | .float64 v => some v | _ => none
/-- `ValueRef::as_date`. -/
def asDate := cast fun | .date v => some v | _ => none
/-- `ValueRef::as_timestamp`. -/
def asTimestamp := cast fun | .timestamp v => some v | _ => none
/-- `ValueRef::as_time`. -/
def asTime := cast fun | .time v => some v | _ => none
/-- `ValueRef::as_duration`. -/
def asDuration := cast fun | .duration v => some v | _ => none
/-- `ValueRef::as_decimal128`. -/
def asDecimal128 := cast fun | .decimal128 v => some v | _ => none
/-- `ValueRef::as_interval_year_month`. -/
def asIntervalYearMonth := cast fun | .intervalYearMonth v => some v | _ => none
/-- `ValueRef::as_interval_day_time`. -/
def asIntervalDayTime := cast fun | .intervalDayTime v => some v | _ => none
/-- `ValueRef::as_interval_month_day_nano`. -/
def asIntervalMonthDayNano := cast fun | .intervalMonthDayNano v => some v | _ => none

end Datatypes.Value

/-! ## memcomparable -/

/-- memcomparable's encodings of the primitive types serde hands it, and its
`Deserializer::skip_bytes`, which passes over a string without reading it.  A float is written
by its bits, a string by its UTF-8 bytes, and reading a string checks them.  That each encoding
reads back what it writes is a field of `Codec`; for floats it is the premise that the encoding
keeps every bit pattern. -/
structure Memcomparable where
  bool : Codec Bool
  u8 : Codec UInt8
  u16 : Codec UInt16
  u32 : Codec UInt32
  u64 : Codec UInt64
  i8 : Codec (BitVec 8)
  i16 : Codec (BitVec 16)
  i32 : Codec (BitVec 32)
  i64 : Codec (BitVec 64)
  i128 : Codec (BitVec 128)
  f32 : Codec UInt32
  f64 : Codec UInt64
  str : Codec String
  skipBytes : List UInt8 → Option (List UInt8)

/-- The index of a `TimeUnit` variant, as serde's derive numbers them. -/
def timeUnitIndex : TimeUnit → UInt8
  | .second => 0
  | .millisecond => 1
  | .microsecond => 2
  | .nanosecond => 3

/-- The `TimeUnit` variant of an index. -/
def timeUnitOfIndex (b : UInt8) : Option TimeUnit :=
  if b = 0 then some .second
  else if b = 1 then some .millisecond
  else if b = 2 then some .microsecond
  else if b = 3 then some .nanosecond
  else none

lemma timeUnitOfIndex_index (u : TimeUnit) : timeUnitOfIndex (timeUnitIndex u) = some u := by
  cases u <;> rfl

namespace Memcomparable

variable (p : Memcomparable)

/-- The derived `Serialize` of `TimeUnit`. -/
def timeUnit : Codec TimeUnit := Codec.tag timeUnitIndex timeUnitOfIndex timeUnitOfIndex_index

/-- The derived `Serialize` of `Time`: the value, then the unit. -/
def time : Codec Time :=
  (p.i64.pair timeUnit).map (fun (value, unit) => ⟨value, unit⟩) (fun t => (t.value, t.unit))
    fun _ => rfl

/-- The derived `Serialize` of `Duration`. -/
def duration : Codec Datatypes.Duration :=
  (p.i64.pair timeUnit).map (fun (value, unit) => ⟨value, unit⟩) (fun d => (d.value, d.unit))
    fun _ => rfl

/-- The derived `Serialize` of `Decimal128`: the value, the precision and the scale. -/
def decimal128 : Codec Decimal128 :=
  ((p.i128.pair p.u8).pair p.i8).map (fun ((value, precision), scale) => ⟨value, precision, scale⟩)
    (fun d => ((d.value, d.precision), d.scale)) fun _ => rfl

/-- A byte slice, written by serde as a sequence of `u8`. -/
def bytes : Codec (List UInt8) := p.u8.seq

end Memcomparable

/-! ## Sort fields -/

/-- `SortField`. -/
structure SortField where
  dataType : ConcreteDataType

variable (p : Memcomparable)

/-- `value.as_x()?.serialize(serializer)`: the cast value, written as an `Option`. -/
def serializeWith {α : Type} (c : Codec α) (cast : Except CodecError (Option α)) :
    Except CodecError (List UInt8) :=
  cast.map c.option.ser

/-- `Value::from(Option::<T>::deserialize(deserializer)?)`: `None` is `NULL`. -/
def deserializeWith {α : Type} (c : Codec α) (mk : α → Value) (bytes : List UInt8) :
    Except CodecError (Value × List UInt8) :=
  match c.option.de bytes with
  | some (a, rest) => .ok (a.elim .null mk, rest)
  | none => .error .deserializeField

/-- `SortField::serialize`. -/
def SortField.serialize (field : SortField) (value : Value) : Except CodecError (List UInt8) :=
  match field.dataType with
  | .boolean => serializeWith p.bool value.asBoolean
  | .binary => serializeWith p.bytes value.asBinary
  | .int8 => serializeWith p.i8 value.asI8
  | .uint8 => serializeWith p.u8 value.asU8
  | .int16 => serializeWith p.i16 value.asI16
  | .uint16 => serializeWith p.u16 value.asU16
  | .int32 => serializeWith p.i32 value.asI32
  | .uint32 => serializeWith p.u32 value.asU32
  | .int64 => serializeWith p.i64 value.asI64
  | .uint64 => serializeWith p.u64 value.asU64
  | .float32 => serializeWith p.f32 value.asF32
  | .float64 => serializeWith p.f64 value.asF64
  | .string => serializeWith p.str value.asString
  | .date => serializeWith p.i32 value.asDate
  | .time _ => serializeWith p.time value.asTime
  | .duration _ => serializeWith p.duration value.asDuration
  | .decimal128 _ _ => serializeWith p.decimal128 value.asDecimal128
  | .json => serializeWith p.bytes value.asBinary
  | .vector => serializeWith p.bytes value.asBinary
  | .timestamp _ => serializeWith p.i64 (value.asTimestamp.map (·.map (·.value.toBitVec)))
  | .interval .yearMonth =>
    serializeWith p.i32 (value.asIntervalYearMonth.map (·.map IntervalYearMonth.toI32))
  | .interval .dayTime =>
    serializeWith p.i64 (value.asIntervalDayTime.map (·.map IntervalDayTime.toI64))
  | .interval .monthDayNano =>
    serializeWith p.i128 (value.asIntervalMonthDayNano.map (·.map IntervalMonthDayNano.toI128))
  | .list | .struct | .dictionary | .null => .error (.notSupportedField field.dataType)

/-- `SortField::deserialize`: the value and the bytes after it. -/
def SortField.deserialize (field : SortField) (bytes : List UInt8) :
    Except CodecError (Value × List UInt8) :=
  match field.dataType with
  | .boolean => deserializeWith p.bool .boolean bytes
  | .int8 => deserializeWith p.i8 .int8 bytes
  | .int16 => deserializeWith p.i16 .int16 bytes
  | .int32 => deserializeWith p.i32 .int32 bytes
  | .int64 => deserializeWith p.i64 .int64 bytes
  | .uint8 => deserializeWith p.u8 .uint8 bytes
  | .uint16 => deserializeWith p.u16 .uint16 bytes
  | .uint32 => deserializeWith p.u32 .uint32 bytes
  | .uint64 => deserializeWith p.u64 .uint64 bytes
  | .float32 => deserializeWith p.f32 .float32 bytes
  | .float64 => deserializeWith p.f64 .float64 bytes
  | .string => deserializeWith p.str .string bytes
  | .date => deserializeWith p.i32 .date bytes
  | .time _ => deserializeWith p.time .time bytes
  | .duration _ => deserializeWith p.duration .duration bytes
  | .decimal128 _ _ => deserializeWith p.decimal128 .decimal128 bytes
  | .binary | .json | .vector => deserializeWith p.bytes .binary bytes
  | .timestamp unit => deserializeWith p.i64 (fun t => .timestamp ⟨I64.ofBitVec t, unit⟩) bytes
  | .interval .yearMonth =>
    deserializeWith p.i32 (fun i => .intervalYearMonth (IntervalYearMonth.fromI32 i)) bytes
  | .interval .dayTime =>
    deserializeWith p.i64 (fun i => .intervalDayTime (IntervalDayTime.fromI64 i)) bytes
  | .interval .monthDayNano =>
    deserializeWith p.i128 (fun i => .intervalMonthDayNano (IntervalMonthDayNano.fromI128 i))
      bytes
  | .list | .struct | .dictionary | .null => .error (.notSupportedField field.dataType)

/-! ## The codec -/

/-- `DensePrimaryKeyCodec`: the primary-key columns in order, with their ids. -/
structure DensePrimaryKeyCodec where
  orderedPrimaryKeyColumns : List (ℕ × SortField)

/-- `DensePrimaryKeyCodec::with_fields`. -/
def DensePrimaryKeyCodec.withFields (fields : List (ℕ × SortField)) : DensePrimaryKeyCodec :=
  ⟨fields⟩

/-- The loop of `encode_dense`: the value at `idx` with the field at `idx`; a value past the
last field panics in `field_at`. -/
def encodeFields : List (ℕ × SortField) → List Value → Except CodecError (List UInt8)
  | _, [] => .ok []
  | [], _ :: _ => .error .fieldOutOfBounds
  | (_, field) :: fields, value :: row => do
    let bytes ← field.serialize p value
    let rest ← encodeFields fields row
    pure (bytes ++ rest)

/-- The loop of `decode_dense`: each field reads its value where the last one stopped. -/
def decodeFields : List (ℕ × SortField) → List UInt8 → Except CodecError (List (ℕ × Value))
  | [], _ => .ok []
  | (columnId, field) :: fields, bytes => do
    let (value, rest) ← field.deserialize p bytes
    let values ← decodeFields fields rest
    pure ((columnId, value) :: values)

namespace DensePrimaryKeyCodec

variable (codec : DensePrimaryKeyCodec)

/-- `PrimaryKeyCodecExt::encode`, through `encode_dense`. -/
def encode (row : List Value) : Except CodecError (List UInt8) :=
  encodeFields p codec.orderedPrimaryKeyColumns row

/-- `DensePrimaryKeyCodec::decode_dense`. -/
def decodeDense (bytes : List UInt8) : Except CodecError (List (ℕ × Value)) :=
  decodeFields p codec.orderedPrimaryKeyColumns bytes

/-- `decode_leftmost` of the dense codec: the last value `decode_dense` reads. -/
def decodeLeftmost (bytes : List UInt8) : Except CodecError (Option Value) := do
  let values ← codec.decodeDense p bytes
  pure (values.getLast?.map Prod.snd)

end DensePrimaryKeyCodec

/-! ## Round trip -/

lemma deserializeWith_serializeWith {α : Type} (c : Codec α) (mk : α → Value) {a : Option α}
    {value : Value} (hmk : a.elim .null mk = value) :
    ∃ bytes, serializeWith c (.ok a) = .ok bytes ∧
      ∀ rest, deserializeWith c mk (bytes ++ rest) = .ok (value, rest) := by
  refine ⟨c.option.ser a, rfl, fun rest => ?_⟩
  simp only [deserializeWith, c.option.de_ser, hmk]

/-- One field: a value of the field's type, written and read back, is itself, and the read
stops where the value's bytes end. -/
theorem SortField.deserialize_serialize {field : SortField} {value : Value}
    (hsupported : field.dataType.supported) (hvalue : value.ofType field.dataType) :
    ∃ bytes, field.serialize p value = .ok bytes ∧
      ∀ rest, field.deserialize p (bytes ++ rest) = .ok (value, rest) := by
  obtain ⟨dataType⟩ := field
  cases value with
  | null =>
    cases dataType <;> try cases hsupported
    all_goals first
      | exact deserializeWith_serializeWith _ _ rfl
      | rename_i t; cases t <;> exact deserializeWith_serializeWith _ _ rfl
  | timestamp t =>
    cases dataType <;> simp only [Value.ofType, Bool.false_eq_true, beq_iff_eq] at hvalue
    subst hvalue
    exact deserializeWith_serializeWith _ _ (by simp [I64.ofBitVec_toBitVec])
  | time t =>
    cases dataType <;> simp only [Value.ofType, Bool.false_eq_true] at hvalue
    exact deserializeWith_serializeWith _ _ rfl
  | duration d =>
    cases dataType <;> simp only [Value.ofType, Bool.false_eq_true] at hvalue
    exact deserializeWith_serializeWith _ _ rfl
  | decimal128 d =>
    cases dataType <;> simp only [Value.ofType, Bool.false_eq_true] at hvalue
    exact deserializeWith_serializeWith _ _ rfl
  | intervalYearMonth i =>
    cases dataType <;> simp only [Value.ofType, Bool.false_eq_true] at hvalue
    rename_i t
    cases t <;> simp only [Bool.false_eq_true] at hvalue
    exact deserializeWith_serializeWith _ _ rfl
  | intervalDayTime i =>
    cases dataType <;> simp only [Value.ofType, Bool.false_eq_true] at hvalue
    rename_i t
    cases t <;> simp only [Bool.false_eq_true] at hvalue
    exact deserializeWith_serializeWith _ _ (by simp [IntervalDayTime.fromI64_toI64])
  | intervalMonthDayNano i =>
    cases dataType <;> simp only [Value.ofType, Bool.false_eq_true] at hvalue
    rename_i t
    cases t <;> simp only [Bool.false_eq_true] at hvalue
    exact deserializeWith_serializeWith _ _ (by simp [IntervalMonthDayNano.fromI128_toI128])
  | binary v =>
    cases dataType <;> simp only [Value.ofType, Bool.false_eq_true] at hvalue
    all_goals exact deserializeWith_serializeWith _ _ rfl
  | _ =>
    cases dataType <;> simp only [Value.ofType, Bool.false_eq_true] at hvalue
    exact deserializeWith_serializeWith _ _ rfl

/-- The fields of a key: the row is written, and a decoder of the first `k` fields reads the
first `k` values from the bytes, whatever follows them. -/
theorem decodeFields_encodeFields {fields : List (ℕ × SortField)} {row : List Value}
    (hsupported : ∀ f ∈ fields, f.2.dataType.supported)
    (hrow : List.Forall₂ (fun f value => value.ofType f.2.dataType) fields row) :
    ∃ bytes, encodeFields p fields row = .ok bytes ∧
      ∀ k rest, decodeFields p (fields.take k) (bytes ++ rest) =
        .ok (((fields.take k).map Prod.fst).zip (row.take k)) := by
  induction hrow with
  | nil => exact ⟨[], rfl, fun k rest => by simp [decodeFields]⟩
  | @cons f value fields row hvalue _ ih =>
    obtain ⟨columnId, field⟩ := f
    obtain ⟨head, hser, hde⟩ :=
      @SortField.deserialize_serialize p field value (hsupported _ List.mem_cons_self) hvalue
    obtain ⟨tail, henc, hdec⟩ :=
      ih fun f hf => hsupported f (List.mem_cons_of_mem _ hf)
    refine ⟨head ++ tail, by simp [encodeFields, hser, henc, bind, Except.bind, pure, Except.pure],
      fun k rest => ?_⟩
    cases k with
    | zero => simp [decodeFields]
    | succ k =>
      simp [decodeFields, List.append_assoc, hde, hdec, bind, Except.bind, pure, Except.pure]

/-- A row of a key's types is written, and the key's codec reads it back. -/
lemma DensePrimaryKeyCodec.decodeDense_encode (codec : DensePrimaryKeyCodec) {row : List Value}
    (hsupported : ∀ f ∈ codec.orderedPrimaryKeyColumns, f.2.dataType.supported)
    (hrow : List.Forall₂ (fun f value => value.ofType f.2.dataType)
      codec.orderedPrimaryKeyColumns row) :
    ∃ bytes, codec.encode p row = .ok bytes ∧
      codec.decodeDense p bytes = .ok ((codec.orderedPrimaryKeyColumns.map Prod.fst).zip row) := by
  obtain ⟨bytes, henc, hdec⟩ := decodeFields_encodeFields p hsupported hrow
  have hall := hdec codec.orderedPrimaryKeyColumns.length []
  rw [List.take_length, hrow.length_eq, List.take_length, List.append_nil] at hall
  exact ⟨bytes, henc, hall⟩

theorem decodeDense_encodeDense (codec : DensePrimaryKeyCodec) (row : List Value)
    (hsupported : ∀ f ∈ codec.orderedPrimaryKeyColumns, f.2.dataType.supported)
    (hrow : List.Forall₂ (fun f value => value.ofType f.2.dataType)
      codec.orderedPrimaryKeyColumns row) :
    ∃ bytes, codec.encode p row = .ok bytes ∧
      codec.decodeDense p bytes = .ok ((codec.orderedPrimaryKeyColumns.map Prod.fst).zip row) ∧
      ∀ k, (DensePrimaryKeyCodec.withFields (codec.orderedPrimaryKeyColumns.take k)).decodeDense
          p bytes = .ok (((codec.orderedPrimaryKeyColumns.take k).map Prod.fst).zip (row.take k)) := by
  obtain ⟨bytes, henc, hdec⟩ := decodeFields_encodeFields p hsupported hrow
  have hlength : codec.orderedPrimaryKeyColumns.length = row.length := hrow.length_eq
  refine ⟨bytes, henc, ?_, fun k => ?_⟩
  · have hall := hdec codec.orderedPrimaryKeyColumns.length []
    rw [List.take_length, hlength, List.take_length, List.append_nil] at hall
    exact hall
  · have hk := hdec k []
    rw [List.append_nil] at hk
    exact hk

/-- A unit in one byte. -/
def unitCodec : Codec Unit := Codec.tag (fun _ => 0) (fun _ => some ()) fun _ => rfl

/-- A natural number in unary, as a sequence of units. -/
def unaryCodec : Codec ℕ :=
  unitCodec.seq.map List.length (List.replicate · ()) fun _ => List.length_replicate

/-- A string in unary, as the sequence of its characters. -/
def unaryString : Codec String :=
  (unaryCodec.map Char.ofNat Char.toNat Char.ofNat_toNat).seq.map String.ofList String.toList
    fun _ => String.ofList_toList

/-- A `Memcomparable` that writes every primitive in unary: its codecs have the laws that
memcomparable's have. -/
def Memcomparable.unary : Memcomparable where
  bool := unaryCodec.map (· == 1) (fun b => if b then 1 else 0) fun b => by cases b <;> rfl
  u8 := unaryCodec.map UInt8.ofNat UInt8.toNat fun _ => UInt8.ofNat_toNat
  u16 := unaryCodec.map UInt16.ofNat UInt16.toNat fun _ => UInt16.ofNat_toNat
  u32 := unaryCodec.map UInt32.ofNat UInt32.toNat fun _ => UInt32.ofNat_toNat
  u64 := unaryCodec.map UInt64.ofNat UInt64.toNat fun _ => UInt64.ofNat_toNat
  i8 := unaryCodec.map (BitVec.ofNat 8) BitVec.toNat fun _ => by simp
  i16 := unaryCodec.map (BitVec.ofNat 16) BitVec.toNat fun _ => by simp
  i32 := unaryCodec.map (BitVec.ofNat 32) BitVec.toNat fun _ => by simp
  i64 := unaryCodec.map (BitVec.ofNat 64) BitVec.toNat fun _ => by simp
  i128 := unaryCodec.map (BitVec.ofNat 128) BitVec.toNat fun _ => by simp
  f32 := unaryCodec.map UInt32.ofNat UInt32.toNat fun _ => UInt32.ofNat_toNat
  f64 := unaryCodec.map UInt64.ofNat UInt64.toNat fun _ => UInt64.ofNat_toNat
  str := unaryString
  skipBytes bytes := (unaryString.de bytes).map Prod.snd

/-- A key of a string tag, a timestamp in milliseconds and a day-time interval. -/
def hostKey : DensePrimaryKeyCodec :=
  ⟨[(0, ⟨.string⟩), (1, ⟨.timestamp .millisecond⟩), (2, ⟨.interval .dayTime⟩)]⟩

theorem decodeDense_encodeDense_hostKey :
    ∃ bytes, hostKey.encode .unary [.string "host", .null, .intervalDayTime ⟨1, 2⟩] = .ok bytes ∧
      hostKey.decodeDense .unary bytes =
        .ok ((hostKey.orderedPrimaryKeyColumns.map Prod.fst).zip
          [.string "host", .null, .intervalDayTime ⟨1, 2⟩]) ∧
      ∀ k, (DensePrimaryKeyCodec.withFields (hostKey.orderedPrimaryKeyColumns.take k)).decodeDense
          .unary bytes = .ok (((hostKey.orderedPrimaryKeyColumns.take k).map Prod.fst).zip
            ([.string "host", .null, .intervalDayTime ⟨1, 2⟩].take k)) :=
  decodeDense_encodeDense .unary hostKey _ (by decide) (by decide)

/-- What `first_tag_values` reads: a codec of the first field alone decodes the first value of
a whole key. -/
theorem decodeLeftmost_firstField (codec : DensePrimaryKeyCodec) (first : ℕ × SortField)
    (row : List Value) (hfirst : codec.orderedPrimaryKeyColumns.head? = some first)
    (hsupported : ∀ f ∈ codec.orderedPrimaryKeyColumns, f.2.dataType.supported)
    (hrow : List.Forall₂ (fun f value => value.ofType f.2.dataType)
      codec.orderedPrimaryKeyColumns row) :
    ∃ bytes, codec.encode p row = .ok bytes ∧
      (DensePrimaryKeyCodec.withFields [first]).decodeLeftmost p bytes = .ok row.head? := by
  obtain ⟨bytes, henc, hprefix⟩ := decodeFields_encodeFields p hsupported hrow
  refine ⟨bytes, henc, ?_⟩
  have htake : codec.orderedPrimaryKeyColumns.take 1 = [first] := by
    rw [List.take_one, hfirst, Option.toList_some]
  have hone := hprefix 1 []
  rw [List.append_nil, htake] at hone
  cases row with
  | nil =>
    rw [List.forall₂_nil_right_iff.mp hrow] at hfirst
    cases hfirst
  | cons value row =>
    simp [DensePrimaryKeyCodec.decodeLeftmost, DensePrimaryKeyCodec.decodeDense,
      DensePrimaryKeyCodec.withFields, hone, bind, Except.bind, pure, Except.pure]

end Greptime
