import Greptime.RowConverter.Dense
import Greptime.Foundations.Memcmp

/-!
# memcomparable's encodings, and reading one field of a dense key

The key codecs rely on memcomparable for more than the round trip of each type:
`Memcomparable.Lawful` names what, as the format is documented: the widths of the fixed-width
types, that `skip_bytes` passes over a string, that the bytes of booleans, integers and strings
compare as the values, and the bytes `serialize_u32`, `serialize_u64` and `serialize_bytes`
write.  The theorems of the key codecs hold for any `Memcomparable` with these laws.
`Memcomparable.memcmp` is one: the encodings of `Foundations.Memcmp`, with an unsigned integer
as its bytes most significant first, a signed one with its sign bit flipped, a float by the bits
of `serialize_f32` and `serialize_f64`, and a string as `serialize_bytes` writes its UTF-8
bytes (`Memcomparable.lawful_memcmp`).

`SortField::skip_deserialize` passes over the value at a position without reading it: `1` byte
for `NULL`, a width of its own for each type of fixed width, a scan of the `(1, byte)` pairs of a
binary value up to its `0`, and `skip_bytes` for a string.  `skipDeserialize_of_deserialize`
says that it passes over exactly the bytes that `SortField::deserialize` reads, on any bytes
that it reads.

`DensePrimaryKeyCodec::decode_value_at` reads the value of one field, and keeps in a buffer
the offsets at which the fields before it start: a call for a field whose offset is known reads
there, a call with an empty buffer skips the fields before it from the start and pushes their
offsets, and a call past the known offsets skips on from the last one.  `decodeValueAt_step`
says that a call reads the row's value and leaves offsets that are still the fields' starts;
`decodeValuesAt_spec` carries that along any sequence of calls with one buffer.
-/

namespace Greptime

open Datatypes Memcmp

/-! ## The encodings -/

/-- `serialize_f32` and `serialize_f64` on the bits of a float: a float whose sign bit is clear
gets it set, and a float whose sign bit is set has all its bits flipped.  Whether memcomparable
0.2 first turns `-0.0` into `0.0` and every NaN into one is not settled by the sources here; this
encoding keeps every bit pattern, and the theorems over a `Memcomparable` take that round trip
of floats as a premise (the `Codec` laws of `f32` and `f64`), which an encoding that normalises
would not meet at `-0.0` and the NaNs. -/
def floatKey {w : ℕ} (bits : BitVec w) : BitVec w :=
  if bits.msb then ~~~bits else bits ||| BitVec.twoPow w (w - 1)

/-- The bits of the float that `floatKey` wrote. -/
def floatOfKey {w : ℕ} (key : BitVec w) : BitVec w :=
  if key.msb then key ^^^ BitVec.twoPow w (w - 1) else ~~~key

lemma floatOfKey_floatKey {w : ℕ} (hw : 0 < w) (bits : BitVec w) :
    floatOfKey (floatKey bits) = bits := by
  unfold floatKey floatOfKey
  by_cases hmsb : bits.msb
  · rw [if_pos hmsb, if_neg (by simp [hmsb]), BitVec.not_not]
  · rw [if_neg hmsb, if_pos (by simp only [BitVec.msb_or, BitVec.msb_twoPow]; simp; omega)]
    ext i hi
    simp only [BitVec.getElem_xor, BitVec.getElem_or, BitVec.getElem_twoPow]
    by_cases h : i = w - 1
    · -- the sign bit, which is clear
      subst h
      simp only [Bool.not_eq_true] at hmsb
      simp [← BitVec.getLsbD_eq_getElem, ← BitVec.msb_eq_getLsbD_last, hmsb]
    · simp [h]

/-- memcomparable's encodings of the primitive types. -/
def Memcomparable.memcmp : Memcomparable where
  bool := Memcmp.bool
  u8 := (unsigned 1).map UInt8.ofBitVec UInt8.toBitVec fun _ => rfl
  u16 := (unsigned 2).map UInt16.ofBitVec UInt16.toBitVec fun _ => rfl
  u32 := (unsigned 4).map UInt32.ofBitVec UInt32.toBitVec fun _ => rfl
  u64 := (unsigned 8).map UInt64.ofBitVec UInt64.toBitVec fun _ => rfl
  i8 := signed 1
  i16 := signed 2
  i32 := signed 4
  i64 := signed 8
  i128 := signed 16
  f32 := (unsigned 4).map (fun key => UInt32.ofBitVec (floatOfKey key))
    (fun bits => floatKey bits.toBitVec) fun bits => by rw [floatOfKey_floatKey (by decide)]
  f64 := (unsigned 8).map (fun key => UInt64.ofBitVec (floatOfKey key))
    (fun bits => floatKey bits.toBitVec) fun bits => by rw [floatOfKey_floatKey (by decide)]
  str := Memcmp.str
  skipBytes := Memcmp.skipBytes

/-- What the key codecs rely on of memcomparable beyond the round trip of each type, as its
format is documented: a value of a fixed-width type is read from as many bytes as the type
has; `skip_bytes` passes over what reading a string reads; the bytes of booleans, integers and
strings compare as the values; and `serialize_u32`, `serialize_u64` and `serialize_bytes` write
an integer's bytes most significant first and a string's UTF-8 bytes in groups of eight. -/
structure Memcomparable.Lawful (p : Memcomparable) : Prop where
  width_bool : Width p.bool 1
  width_u8 : Width p.u8 1
  width_u16 : Width p.u16 2
  width_u32 : Width p.u32 4
  width_u64 : Width p.u64 8
  width_i8 : Width p.i8 1
  width_i16 : Width p.i16 2
  width_i32 : Width p.i32 4
  width_i64 : Width p.i64 8
  width_i128 : Width p.i128 16
  width_f32 : Width p.f32 4
  width_f64 : Width p.f64 8
  skipBytes_of_str {bytes : List UInt8} {s : String} {rest : List UInt8} :
    p.str.de bytes = some (s, rest) → p.skipBytes bytes = some rest
  orderedBy_bool : OrderedBy p.bool (· < ·)
  orderedBy_u8 : OrderedBy p.u8 fun a b => a.toNat < b.toNat
  orderedBy_u16 : OrderedBy p.u16 fun a b => a.toNat < b.toNat
  orderedBy_u32 : OrderedBy p.u32 fun a b => a.toNat < b.toNat
  orderedBy_u64 : OrderedBy p.u64 fun a b => a.toNat < b.toNat
  orderedBy_i8 : OrderedBy p.i8 fun a b => a.toInt < b.toInt
  orderedBy_i16 : OrderedBy p.i16 fun a b => a.toInt < b.toInt
  orderedBy_i32 : OrderedBy p.i32 fun a b => a.toInt < b.toInt
  orderedBy_i64 : OrderedBy p.i64 fun a b => a.toInt < b.toInt
  orderedBy_str : OrderedBy p.str fun s t => utf8 s < utf8 t
  u32_ser (n : UInt32) : p.u32.ser n = toBE 4 n.toNat
  u64_ser (n : UInt64) : p.u64.ser n = toBE 8 n.toNat
  str_ser (s : String) : p.str.ser s = bytesSer (utf8 s)

/-- The bytes `skip_bytes` leaves after a string are those reading it leaves. -/
lemma skipBytes_of_str_de {bytes : List UInt8} {s : String} {rest : List UInt8}
    (h : Memcmp.str.de bytes = some (s, rest)) : Memcmp.skipBytes bytes = some rest := by
  simp only [Memcmp.str] at h
  split at h
  · rename_i u rest' hu
    obtain ⟨s, -, hpair⟩ := Option.map_eq_some_iff.mp h
    cases hpair
    rw [skipBytes_eq_map, hu]
    rfl
  · cases h

/-- The encodings of `Foundations.Memcmp` have the laws: each is a map of a fixed-width
big-endian codec, the groups of a byte string, or one byte. -/
lemma Memcomparable.lawful_memcmp : Memcomparable.memcmp.Lawful where
  width_bool := width_bool
  width_u8 := width_map (width_unsigned 1) _ _ fun _ => rfl
  width_u16 := width_map (width_unsigned 2) _ _ fun _ => rfl
  width_u32 := width_map (width_unsigned 4) _ _ fun _ => rfl
  width_u64 := width_map (width_unsigned 8) _ _ fun _ => rfl
  width_i8 := width_signed 1
  width_i16 := width_signed 2
  width_i32 := width_signed 4
  width_i64 := width_signed 8
  width_i128 := width_signed 16
  width_f32 := by
    dsimp only [Memcomparable.memcmp]
    exact width_map (width_unsigned 4) _ _ _
  width_f64 := by
    dsimp only [Memcomparable.memcmp]
    exact width_map (width_unsigned 8) _ _ _
  skipBytes_of_str := skipBytes_of_str_de
  orderedBy_bool := orderedBy_bool
  orderedBy_u8 := orderedBy_map (orderedBy_unsigned 1) _ _ fun _ => rfl
  orderedBy_u16 := orderedBy_map (orderedBy_unsigned 2) _ _ fun _ => rfl
  orderedBy_u32 := orderedBy_map (orderedBy_unsigned 4) _ _ fun _ => rfl
  orderedBy_u64 := orderedBy_map (orderedBy_unsigned 8) _ _ fun _ => rfl
  orderedBy_i8 := orderedBy_signed 1
  orderedBy_i16 := orderedBy_signed 2
  orderedBy_i32 := orderedBy_signed 4
  orderedBy_i64 := orderedBy_signed 8
  orderedBy_str := orderedBy_str
  u32_ser _ := rfl
  u64_ser _ := rfl
  str_ser _ := rfl

variable (p : Memcomparable)

/-! ## Skipping a field -/

/-- How `decode_value_at` fails other than with a value: with an error of the codec, or with a
panic of `bytes[i]` or of `advance` past the end of the bytes. -/
inductive DecodeFailure
  | codec (e : CodecError)
  | outOfBytes
  deriving DecidableEq

/-- `bytes[i]`: a panic past the end. -/
def byteAt (bytes : List UInt8) (i : ℕ) : Except DecodeFailure UInt8 :=
  match bytes[i]? with
  | some b => .ok b
  | none => .error .outOfBytes

/-- `Deserializer::advance` by `n` from `pos`, returning `n`: a panic past the end. -/
def advance (bytes : List UInt8) (pos n : ℕ) : Except DecodeFailure ℕ :=
  if pos + n ≤ bytes.length then .ok n else .error .outOfBytes

/-- `while bytes[current] == 1 { current += 2 }`: the first tag byte from `current` that is not
`1`, stepping over the byte after each `1`. -/
def scanPairs (bytes : List UInt8) (current : ℕ) : Except DecodeFailure ℕ :=
  if h : current < bytes.length then
    if bytes[current] = 1 then scanPairs bytes (current + 2) else .ok current
  else .error .outOfBytes
termination_by bytes.length - current

/-- The `to_skip` of `skip_deserialize` for a value that is not `NULL`: the tag byte of the
`Option` and the value's bytes.  Binary and string values are scanned instead, and the types
the codec does not support skip nothing. -/
def skipWidth : ConcreteDataType → ℕ
  | .boolean | .int8 | .uint8 => 2
  | .int16 | .uint16 => 3
  | .int32 | .uint32 | .float32 | .date | .interval .yearMonth => 5
  | .int64 | .uint64 | .float64 | .timestamp _ | .interval .dayTime => 9
  | .time _ | .duration _ => 10
  | .interval .monthDayNano => 17
  | .decimal128 _ _ => 19
  | _ => 0

/-- `SortField::skip_deserialize`: the length of the value that starts at `pos`. -/
def SortField.skipDeserialize (field : SortField) (bytes : List UInt8) (pos : ℕ) :
    Except DecodeFailure ℕ := do
  if (← byteAt bytes pos) = 0 then
    advance bytes pos 1
  else
    match field.dataType with
    | .binary | .json | .vector =>
      -- the encoder writes binary as a list of bytes, each after a `1`, up to a `0`
      let current ← scanPairs bytes (pos + 1)
      advance bytes pos (current - pos + 1)
    | .string =>
      let _ ← advance bytes pos 1
      match p.skipBytes (bytes.drop (pos + 1)) with
      | some rest => pure (bytes.length - rest.length - pos)
      | none => throw (.codec .deserializeField)
    | dataType => advance bytes pos (skipWidth dataType)

/-! ## Skipping what a read reads -/

lemma drop_eq_cons {bytes t : List UInt8} {pos : ℕ} {b : UInt8} (h : bytes.drop pos = b :: t) :
    pos < bytes.length ∧ bytes[pos]? = some b ∧ t = bytes.drop (pos + 1) := by
  have hpos : pos < bytes.length := by
    by_contra hle
    rw [List.drop_eq_nil_of_le (by omega)] at h
    cases h
  rw [List.drop_eq_getElem_cons hpos, List.cons.injEq] at h
  exact ⟨hpos, by rw [List.getElem?_eq_getElem hpos, h.1], h.2.symm⟩

lemma byteAt_of_getElem? {bytes : List UInt8} {pos : ℕ} {b : UInt8} (h : bytes[pos]? = some b) :
    byteAt bytes pos = .ok b := by
  rw [byteAt, h]

lemma advance_of_le {bytes : List UInt8} {pos n : ℕ} (h : pos + n ≤ bytes.length) :
    advance bytes pos n = .ok n :=
  if_pos h

/-- A read of an `Option` at `pos`: its tag byte is there, `0` with nothing after it, or `1`
with a value after it. -/
lemma deserializeWith_ok {α : Type} {c : Codec α} {mk : α → Value} {bytes : List UInt8}
    {pos : ℕ} {v : Value} {rest : List UInt8}
    (h : deserializeWith c mk (bytes.drop pos) = .ok (v, rest)) :
    pos < bytes.length ∧ ((bytes[pos]? = some 0 ∧ rest = bytes.drop (pos + 1)) ∨
      (bytes[pos]? = some 1 ∧ ∃ a, c.de (bytes.drop (pos + 1)) = some (a, rest))) := by
  unfold deserializeWith at h
  split at h
  · rename_i a rest' hde
    simp only [Except.ok.injEq, Prod.mk.injEq] at h
    obtain ⟨-, rfl⟩ := h
    match hdrop : bytes.drop pos, hde with
    | [], hde => cases hde
    | b :: t, hde =>
      obtain ⟨hpos, hb, rfl⟩ := drop_eq_cons hdrop
      simp only [Codec.option, Codec.optionDe] at hde
      split_ifs at hde with h0 h1
      · simp only [Option.some.injEq, Prod.mk.injEq] at hde
        exact ⟨hpos, .inl ⟨h0 ▸ hb, hde.2.symm⟩⟩
      · split at hde
        · rename_i a' rest'' hc
          simp only [Option.some.injEq, Prod.mk.injEq] at hde
          exact ⟨hpos, .inr ⟨h1 ▸ hb, a', hde.2 ▸ hc⟩⟩
        · cases hde
  · cases h

/-- `NULL` skips its tag byte, whatever the field. -/
lemma skipDeserialize_of_null {p : Memcomparable} {field : SortField} {bytes : List UInt8}
    {pos : ℕ} (hpos : pos < bytes.length) (hb : bytes[pos]? = some 0) :
    field.skipDeserialize p bytes pos =
      .ok ((bytes.drop pos).length - (bytes.drop (pos + 1)).length) := by
  simp only [SortField.skipDeserialize, byteAt_of_getElem? hb, bind, Except.bind, if_true,
    List.length_drop]
  rw [advance_of_le (by omega)]
  congr 1
  omega

/-- A type of fixed width skips what the read of its `Option` takes. -/
lemma skipDeserialize_of_width {p : Memcomparable} {dataType : ConcreteDataType} {α : Type}
    {c : Codec α} {w : ℕ} {mk : α → Value} (hc : Width c w)
    (hfixed : ∀ bytes pos, SortField.skipDeserialize p ⟨dataType⟩ bytes pos = do
      if (← byteAt bytes pos) = 0 then advance bytes pos 1 else advance bytes pos (w + 1))
    {bytes : List UInt8} {pos : ℕ} {v : Value} {rest : List UInt8}
    (h : deserializeWith c mk (bytes.drop pos) = .ok (v, rest)) :
    SortField.skipDeserialize p ⟨dataType⟩ bytes pos =
      .ok ((bytes.drop pos).length - rest.length) := by
  obtain ⟨hpos, ⟨hb, rfl⟩ | ⟨hb, a, hde⟩⟩ := deserializeWith_ok h
  · exact skipDeserialize_of_null hpos hb
  · obtain ⟨hw, rfl⟩ := hc hde
    rw [hfixed, byteAt_of_getElem? hb]
    simp only [List.length_drop] at hw
    simp only [bind, Except.bind, List.length_drop, List.drop_drop]
    rw [if_neg (by decide), advance_of_le (by omega)]
    congr 1
    omega

/-- The scan of a binary value stops at the `0` that ends the sequence a read takes. -/
lemma scanPairs_of_seqDe {α : Type} {c : Codec α} (hc : Width c 1) {bytes : List UInt8}
    {i : ℕ} {as : List α} {rest : List UInt8} (h : c.seqDe (bytes.drop i) = some (as, rest)) :
    rest.length < bytes.length - i ∧ scanPairs bytes i = .ok (bytes.length - rest.length - 1) := by
  fun_induction scanPairs bytes i generalizing as with
  | case1 current hlt h1 ih =>
    -- a `1`: one byte, and the rest of the sequence two bytes on
    rw [List.drop_eq_getElem_cons hlt, h1, Codec.seqDe, if_neg (by decide), if_pos rfl] at h
    split at h
    · rename_i a rest' hde
      obtain ⟨hw, rfl⟩ := hc hde
      obtain ⟨⟨as', rest''⟩, hseq, hpair⟩ := Option.map_eq_some_iff.mp h
      cases hpair
      rw [List.drop_drop] at hseq
      obtain ⟨hlen, hscan⟩ := ih hseq
      rw [List.length_drop] at hw
      exact ⟨by omega, hscan⟩
    · cases h
  | case2 current hlt h1 =>
    rw [List.drop_eq_getElem_cons hlt, Codec.seqDe] at h
    split_ifs at h with h0
    · simp only [Option.some.injEq, Prod.mk.injEq] at h
      obtain ⟨-, rfl⟩ := h
      rw [List.length_drop]
      refine ⟨by omega, ?_⟩
      congr 1
      omega
  | case3 current hge =>
    rw [List.drop_eq_nil_of_le (by omega), Codec.seqDe] at h
    cases h

/-- A binary value skips what the read of its `Option` takes: the scan stops at the `0` that
ends the sequence of bytes. -/
lemma skipDeserialize_of_bytes {p : Memcomparable} (hu8 : Width p.u8 1)
    {dataType : ConcreteDataType}
    (hbinary : ∀ bytes pos, SortField.skipDeserialize p ⟨dataType⟩ bytes pos = do
      if (← byteAt bytes pos) = 0 then advance bytes pos 1
      else
        let current ← scanPairs bytes (pos + 1)
        advance bytes pos (current - pos + 1))
    {bytes : List UInt8} {pos : ℕ} {v : Value} {rest : List UInt8}
    (h : deserializeWith p.bytes .binary (bytes.drop pos) = .ok (v, rest)) :
    SortField.skipDeserialize p ⟨dataType⟩ bytes pos =
      .ok ((bytes.drop pos).length - rest.length) := by
  obtain ⟨hpos, ⟨hb, rfl⟩ | ⟨hb, a, hde⟩⟩ := deserializeWith_ok h
  · exact skipDeserialize_of_null hpos hb
  · obtain ⟨hlen, hscan⟩ := scanPairs_of_seqDe hu8 hde
    rw [hbinary, byteAt_of_getElem? hb]
    simp only [bind, Except.bind]
    rw [if_neg (by decide), hscan]
    simp only
    rw [advance_of_le (by omega), List.length_drop]
    congr 1
    omega

/-- A string skips what the read of its `Option` takes: `skip_bytes` stops where reading the
bytes of the string stops. -/
lemma skipDeserialize_of_str {p : Memcomparable} (hp : p.Lawful) {bytes : List UInt8} {pos : ℕ}
    {v : Value} {rest : List UInt8}
    (h : deserializeWith p.str .string (bytes.drop pos) = .ok (v, rest)) :
    SortField.skipDeserialize p ⟨.string⟩ bytes pos =
      .ok ((bytes.drop pos).length - rest.length) := by
  obtain ⟨hpos, ⟨hb, rfl⟩ | ⟨hb, a, hde⟩⟩ := deserializeWith_ok h
  · exact skipDeserialize_of_null hpos hb
  · -- the string's bytes were read; skipping them stops at the same place
    have hskip := hp.skipBytes_of_str hde
    have hle := p.str.de_length_le hde
    simp only [List.length_drop] at hle
    simp only [SortField.skipDeserialize, byteAt_of_getElem? hb, bind, Except.bind]
    rw [if_neg (by decide), advance_of_le (by omega)]
    simp only [hskip, pure, Except.pure, List.length_drop]
    congr 1
    omega

/-- `skip_deserialize` passes over exactly the bytes that `deserialize` reads, on any bytes it
reads and for any field: each width of the table is the width of its type's encoding. -/
theorem SortField.skipDeserialize_of_deserialize {p : Memcomparable} (hp : p.Lawful)
    {field : SortField} {bytes : List UInt8} {pos : ℕ} {v : Value} {rest : List UInt8}
    (h : field.deserialize p (bytes.drop pos) = .ok (v, rest)) :
    field.skipDeserialize p bytes pos = .ok ((bytes.drop pos).length - rest.length) := by
  obtain ⟨dataType⟩ := field
  have hunit : Width Memcomparable.timeUnit 1 := width_tag _ _ _
  cases dataType with
  | null | list | struct | dictionary => cases h
  | binary | json | vector => exact skipDeserialize_of_bytes hp.width_u8 (fun _ _ => rfl) h
  | string => exact skipDeserialize_of_str hp h
  | boolean => exact skipDeserialize_of_width hp.width_bool (fun _ _ => rfl) h
  | int8 => exact skipDeserialize_of_width hp.width_i8 (fun _ _ => rfl) h
  | int16 => exact skipDeserialize_of_width hp.width_i16 (fun _ _ => rfl) h
  | int32 => exact skipDeserialize_of_width hp.width_i32 (fun _ _ => rfl) h
  | int64 => exact skipDeserialize_of_width hp.width_i64 (fun _ _ => rfl) h
  | uint8 => exact skipDeserialize_of_width hp.width_u8 (fun _ _ => rfl) h
  | uint16 => exact skipDeserialize_of_width hp.width_u16 (fun _ _ => rfl) h
  | uint32 => exact skipDeserialize_of_width hp.width_u32 (fun _ _ => rfl) h
  | uint64 => exact skipDeserialize_of_width hp.width_u64 (fun _ _ => rfl) h
  | float32 => exact skipDeserialize_of_width hp.width_f32 (fun _ _ => rfl) h
  | float64 => exact skipDeserialize_of_width hp.width_f64 (fun _ _ => rfl) h
  | date => exact skipDeserialize_of_width hp.width_i32 (fun _ _ => rfl) h
  | timestamp => exact skipDeserialize_of_width hp.width_i64 (fun _ _ => rfl) h
  | time =>
    exact skipDeserialize_of_width (width_map (width_pair hp.width_i64 hunit) _ _ _)
      (fun _ _ => rfl) h
  | duration =>
    exact skipDeserialize_of_width (width_map (width_pair hp.width_i64 hunit) _ _ _)
      (fun _ _ => rfl) h
  | decimal128 =>
    exact skipDeserialize_of_width
      (width_map (width_pair (width_pair hp.width_i128 hp.width_u8) hp.width_i8) _ _ _)
      (fun _ _ => rfl) h
  | interval t =>
    cases t with
    | yearMonth => exact skipDeserialize_of_width hp.width_i32 (fun _ _ => rfl) h
    | dayTime => exact skipDeserialize_of_width hp.width_i64 (fun _ _ => rfl) h
    | monthDayNano => exact skipDeserialize_of_width hp.width_i128 (fun _ _ => rfl) h

/-! ## Reading one field -/

namespace DensePrimaryKeyCodec

variable (codec : DensePrimaryKeyCodec)

/-- `DensePrimaryKeyCodec::field_at`: a panic past the last field. -/
def fieldAt (pos : ℕ) : Except DecodeFailure SortField :=
  match codec.orderedPrimaryKeyColumns[pos]? with
  | some (_, field) => .ok field
  | none => .error (.codec .fieldOutOfBounds)

/-- `self.field_at(i).skip_deserialize(bytes, &mut deserializer)` at `offset`. -/
def skipField (bytes : List UInt8) (i offset : ℕ) : Except DecodeFailure ℕ := do
  (← codec.fieldAt i).skipDeserialize p bytes offset

/-- The loop of `decode_value_at` from an empty buffer, over `count` fields from field `i` at
`offset`: each pushes the offset it starts at and is skipped.  The buffer it leaves, and the
offset after the last field or the failure. -/
def fillOffsets (bytes : List UInt8) : ℕ → ℕ → ℕ → List ℕ → List ℕ × Except DecodeFailure ℕ
  | 0, _, offset, offsets => (offsets, .ok offset)
  | count + 1, i, offset, offsets =>
    match codec.skipField p bytes i offset with
    | .ok skip => fillOffsets bytes count (i + 1) (offset + skip) (offsets ++ [offset])
    | .error e => (offsets ++ [offset], .error e)

/-- The loop of `decode_value_at` that extends the buffer, over `count` fields from field `i` at
`offset`: each is skipped and pushes the offset after it. -/
def extendOffsets (bytes : List UInt8) : ℕ → ℕ → ℕ → List ℕ → List ℕ × Except DecodeFailure ℕ
  | 0, _, offset, offsets => (offsets, .ok offset)
  | count + 1, i, offset, offsets =>
    match codec.skipField p bytes i offset with
    | .ok skip => extendOffsets bytes count (i + 1) (offset + skip) (offsets ++ [offset + skip])
    | .error e => (offsets, .error e)

/-- `self.field_at(pos).deserialize(&mut deserializer)` with the deserializer at `offset`. -/
def readAt (bytes : List UInt8) (pos offset : ℕ) : Except DecodeFailure Value := do
  let field ← codec.fieldAt pos
  match field.deserialize p (bytes.drop offset) with
  | .ok (value, _) => pure value
  | .error e => throw (.codec e)

/-- `DensePrimaryKeyCodec::decode_value_at`: the value of field `pos`, with the buffer of offsets
the call leaves. -/
def decodeValueAt (bytes : List UInt8) (pos : ℕ) (offsets : List ℕ) :
    List ℕ × Except DecodeFailure Value :=
  if h : pos < offsets.length then
    -- the offset was computed before
    (offsets, do
      let _ ← advance bytes 0 offsets[pos]
      codec.readAt p bytes pos offsets[pos])
  else if hempty : offsets.isEmpty then
    match codec.fillOffsets p bytes pos 0 0 offsets with
    | (offsets, .ok offset) => (offsets ++ [offset], codec.readAt p bytes pos offset)
    | (offsets, .error e) => (offsets, .error e)
  else
    -- the offsets are not enough: skip on from the last one, at `value_start`
    let valueStart := offsets.length - 1
    let offset := offsets.getLast (by simpa using hempty)
    match advance bytes 0 offset with
    | .error e => (offsets, .error e)
    | .ok _ =>
      match codec.extendOffsets p bytes (pos - valueStart) valueStart offset offsets with
      | (offsets, .ok offset) => (offsets, codec.readAt p bytes pos offset)
      | (offsets, .error e) => (offsets, .error e)

/-- Calls of `decode_value_at` one after the other with one buffer of offsets, as
`DensePrimaryKeyFilter::matches` makes them: what each call returned, and the buffer after it. -/
def decodeValuesAt (bytes : List UInt8) :
    List ℕ → List ℕ → List (Except DecodeFailure Value × List ℕ)
  | [], _ => []
  | pos :: positions, offsets =>
    let (offsets, value) := codec.decodeValueAt p bytes pos offsets
    (value, offsets) :: decodeValuesAt bytes positions offsets

/-- The byte offset at which field `j` of a row starts: the length of the encoding of the values
before it. -/
def fieldOffset (row : List Value) (j : ℕ) : Except CodecError ℕ :=
  ((withFields (codec.orderedPrimaryKeyColumns.take j)).encode p (row.take j)).map
    List.length

end DensePrimaryKeyCodec

/-! ## The offsets of the fields -/

/-- Pushing the next offset onto a buffer of the first ones. -/
lemma map_range_push (f : ℕ → ℕ) (i : ℕ) :
    (List.range i).map f ++ [f i] = (List.range (i + 1)).map f := by
  rw [List.range_succ, List.map_append, List.map_singleton]

/-- The fields of a row lie in `bytes` one after the other: field `j` from `start j`, where the
encoding of the values before it ends, up to `start (j + 1)`. -/
structure Layout (codec : DensePrimaryKeyCodec) (row : List Value) (bytes : List UInt8)
    (start : ℕ → ℕ) : Prop where
  start_zero : start 0 = 0
  le_length : ∀ j ≤ codec.orderedPrimaryKeyColumns.length, start j ≤ bytes.length
  read : ∀ j < codec.orderedPrimaryKeyColumns.length, start j ≤ start (j + 1) ∧
    ∃ field value, codec.fieldAt j = .ok field ∧ row[j]? = some value ∧
      field.deserialize p (bytes.drop (start j)) = .ok (value, bytes.drop (start (j + 1)))
  offset : ∀ j ≤ codec.orderedPrimaryKeyColumns.length, codec.fieldOffset p row j = .ok (start j)

namespace Layout

variable {p} {codec : DensePrimaryKeyCodec} {row : List Value} {bytes : List UInt8}
  {start : ℕ → ℕ} (L : Layout p codec row bytes start)
include L

/-- Skipping field `j` from where it starts reaches where the next one starts. -/
lemma skipField (hp : p.Lawful) {j : ℕ} (hj : j < codec.orderedPrimaryKeyColumns.length) :
    codec.skipField p bytes j (start j) = .ok (start (j + 1) - start j) := by
  obtain ⟨hle, field, value, hfield, -, hread⟩ := L.read j hj
  have hend := L.le_length (j + 1) hj
  rw [DensePrimaryKeyCodec.skipField, hfield]
  show field.skipDeserialize p bytes (start j) = _
  rw [SortField.skipDeserialize_of_deserialize hp hread, List.length_drop, List.length_drop]
  congr 1
  omega

lemma readAt {j : ℕ} (hj : j < codec.orderedPrimaryKeyColumns.length) :
    ∃ value, row[j]? = some value ∧ codec.readAt p bytes j (start j) = .ok value := by
  obtain ⟨-, field, value, hfield, hvalue, hread⟩ := L.read j hj
  exact ⟨value, hvalue, by simp [DensePrimaryKeyCodec.readAt, hfield, hread, bind, Except.bind,
    pure, Except.pure]⟩

/-- The loop from an empty buffer pushes the offsets of the fields it skips. -/
lemma fillOffsets (hp : p.Lawful) :
    ∀ (count i : ℕ), i + count ≤ codec.orderedPrimaryKeyColumns.length →
    codec.fillOffsets p bytes count i (start i) ((List.range i).map start) =
      ((List.range (i + count)).map start, .ok (start (i + count)))
  | 0, i, _ => rfl
  | count + 1, i, h => by
    have hnext : start i + (start (i + 1) - start i) = start (i + 1) := by
      have := (L.read i (by omega)).1
      omega
    rw [DensePrimaryKeyCodec.fillOffsets, L.skipField hp (by omega)]
    simp only [hnext, map_range_push]
    rw [fillOffsets hp count (i + 1) (by omega), show i + 1 + count = i + (count + 1) by omega]

/-- The loop that extends the buffer pushes the offsets of the fields after those it skips. -/
lemma extendOffsets (hp : p.Lawful) :
    ∀ (count i : ℕ), i + count < codec.orderedPrimaryKeyColumns.length + 1 →
    codec.extendOffsets p bytes count i (start i) ((List.range (i + 1)).map start) =
      ((List.range (i + count + 1)).map start, .ok (start (i + count)))
  | 0, i, _ => rfl
  | count + 1, i, h => by
    have hnext : start i + (start (i + 1) - start i) = start (i + 1) := by
      have := (L.read i (by omega)).1
      omega
    rw [DensePrimaryKeyCodec.extendOffsets, L.skipField hp (by omega)]
    simp only [hnext, map_range_push]
    rw [extendOffsets hp count (i + 1) (by omega), show i + 1 + count = i + (count + 1) by omega]

/-- One call, with the offsets of the first `k` fields in the buffer: it reads the row's value
and leaves the offsets of the first `max k (pos + 1)` fields. -/
lemma decodeValueAt (hp : p.Lawful) {k pos : ℕ} (hk : k ≤ codec.orderedPrimaryKeyColumns.length)
    (hpos : pos < codec.orderedPrimaryKeyColumns.length) :
    ∃ value, row[pos]? = some value ∧
      codec.decodeValueAt p bytes pos ((List.range k).map start) =
        ((List.range (max k (pos + 1))).map start, .ok value) := by
  obtain ⟨value, hvalue, hread⟩ := L.readAt hpos
  refine ⟨value, hvalue, ?_⟩
  unfold DensePrimaryKeyCodec.decodeValueAt
  by_cases hhit : pos < k
  · -- the offset was computed before
    rw [dif_pos (by simpa using hhit)]
    simp only [List.getElem_map, List.getElem_range]
    rw [advance_of_le (by simpa using L.le_length pos (by omega)), max_eq_left (by omega)]
    simp [bind, Except.bind, hread]
  · rw [dif_neg (by simpa using hhit)]
    by_cases hk0 : k = 0
    · -- an empty buffer: skip the fields before `pos` from the start
      subst hk0
      have hfill := L.fillOffsets hp pos 0 (by omega)
      rw [Nat.zero_add, L.start_zero] at hfill
      rw [dif_pos (by simp), hfill]
      dsimp only
      rw [map_range_push, hread, max_eq_right (by omega)]
    · -- skip on from the last offset in the buffer, the start of field `k - 1`
      have hext := L.extendOffsets hp (pos - (k - 1)) (k - 1) (by omega)
      rw [show k - 1 + 1 = k by omega, show k - 1 + (pos - (k - 1)) = pos by omega] at hext
      rw [dif_neg (by simpa using hk0)]
      simp only [List.length_map, List.length_range, List.getLast_map, List.getLast_range]
      rw [advance_of_le (by simpa using L.le_length (k - 1) (by omega))]
      dsimp only
      rw [hext]
      dsimp only
      rw [hread, max_eq_right (by omega)]

/-- Any sequence of calls with one buffer, from the offsets of the first `k` fields: each call
reads the row's value, and each buffer it leaves holds the offsets of the first fields. -/
lemma decodeValuesAt (hp : p.Lawful) :
    ∀ (positions : List ℕ) {k : ℕ}, k ≤ codec.orderedPrimaryKeyColumns.length →
    (∀ pos ∈ positions, pos < codec.orderedPrimaryKeyColumns.length) →
    (codec.decodeValuesAt p bytes positions ((List.range k).map start)).map Prod.fst =
        positions.map (fun pos => .ok (row.getD pos .null)) ∧
      ∀ out ∈ codec.decodeValuesAt p bytes positions ((List.range k).map start),
        ∃ k' ≤ codec.orderedPrimaryKeyColumns.length, out.2 = (List.range k').map start
  | [], _, _, _ => by simp [DensePrimaryKeyCodec.decodeValuesAt]
  | pos :: positions, k, hk, hpositions => by
    have hpos := hpositions pos List.mem_cons_self
    obtain ⟨value, hvalue, hcall⟩ := L.decodeValueAt hp hk hpos
    obtain ⟨hvalues, hbuffers⟩ := decodeValuesAt hp positions (k := max k (pos + 1)) (by omega)
      fun q hq => hpositions q (List.mem_cons_of_mem _ hq)
    simp only [DensePrimaryKeyCodec.decodeValuesAt, hcall, List.map_cons, hvalues,
      List.forall_mem_cons]
    refine ⟨by simp [List.getD_eq_getElem?_getD, hvalue], ⟨max k (pos + 1), by omega, rfl⟩,
      hbuffers⟩

end Layout

/-- The starts of the fields after a first field of `w` bytes. -/
def Layout.shift (w : ℕ) (start : ℕ → ℕ) : ℕ → ℕ
  | 0 => 0
  | j + 1 => w + start j

/-- A field written before the fields of a layout. -/
lemma Layout.cons {p : Memcomparable} {fields : List (ℕ × SortField)} {row : List Value}
    {tail : List UInt8}
    {start : ℕ → ℕ} (L : Layout p ⟨fields⟩ row tail start) (columnId : ℕ) {field : SortField}
    {value : Value} {head : List UInt8} (hser : field.serialize p value = .ok head)
    (hde : ∀ rest, field.deserialize p (head ++ rest) = .ok (value, rest)) :
    Layout p ⟨(columnId, field) :: fields⟩ (value :: row) (head ++ tail)
      (shift head.length start) where
  start_zero := rfl
  le_length
    | 0, _ => Nat.zero_le _
    | j + 1, hj => by
      have := L.le_length j (by simpa using hj)
      simp only [shift, List.length_append]
      omega
  read
    | 0, _ => by
      refine ⟨Nat.zero_le _, field, value, rfl, rfl, ?_⟩
      rw [shift, shift, L.start_zero, Nat.add_zero, List.drop_zero, List.drop_left, hde]
    | j + 1, hj => by
      obtain ⟨hle, field', value', hfield, hvalue, hread⟩ := L.read j (by simpa using hj)
      refine ⟨by simp only [shift]; omega, field', value', hfield, hvalue, ?_⟩
      simp only [shift, List.drop_length_add_append]
      exact hread
  offset
    | 0, _ => rfl
    | j + 1, hj => by
      have hoffset := L.offset j (by simpa using hj)
      simp only [DensePrimaryKeyCodec.fieldOffset, DensePrimaryKeyCodec.encode,
        DensePrimaryKeyCodec.withFields] at hoffset ⊢
      cases htail : encodeFields p (fields.take j) (row.take j) with
      | error e => rw [htail] at hoffset; cases hoffset
      | ok t =>
        rw [htail] at hoffset
        simp only [Except.map, Except.ok.injEq] at hoffset
        simp [encodeFields, hser, htail, shift, hoffset, bind, Except.bind, pure, Except.pure,
          Except.map]

/-- The encoding of a row of values of the fields' types lays the fields out one after the
other. -/
lemma layout_encodeFields {fields : List (ℕ × SortField)} {row : List Value}
    (hsupported : ∀ f ∈ fields, f.2.dataType.supported)
    (hrow : List.Forall₂ (fun f value => value.ofType f.2.dataType) fields row) :
    ∃ bytes, encodeFields p fields row = .ok bytes ∧
      ∃ start, Layout p ⟨fields⟩ row bytes start := by
  induction hrow with
  | nil =>
    refine ⟨[], rfl, fun _ => 0, rfl, fun _ _ => le_rfl, fun j hj => absurd hj (Nat.not_lt_zero j),
      fun j hj => ?_⟩
    obtain rfl : j = 0 := Nat.le_zero.mp hj
    rfl
  | @cons f value fields row hvalue _ ih =>
    obtain ⟨columnId, field⟩ := f
    obtain ⟨head, hser, hde⟩ :=
      SortField.deserialize_serialize p (hsupported _ List.mem_cons_self) hvalue
    obtain ⟨tail, henc, start, L⟩ := ih fun f hf => hsupported f (List.mem_cons_of_mem _ hf)
    exact ⟨head ++ tail, by simp [encodeFields, hser, henc, bind, Except.bind, pure, Except.pure],
      _, L.cons columnId hser hde⟩

theorem decodeValuesAt_spec (hp : p.Lawful) (codec : DensePrimaryKeyCodec) (row : List Value)
    (hsupported : ∀ f ∈ codec.orderedPrimaryKeyColumns, f.2.dataType.supported)
    (hrow : List.Forall₂ (fun f value => value.ofType f.2.dataType)
      codec.orderedPrimaryKeyColumns row)
    (positions : List ℕ)
    (hpositions : ∀ pos ∈ positions, pos < codec.orderedPrimaryKeyColumns.length) :
    ∃ bytes, codec.encode p row = .ok bytes ∧
      codec.decodeDense p bytes =
        .ok ((codec.orderedPrimaryKeyColumns.map Prod.fst).zip row) ∧
      (codec.decodeValuesAt p bytes positions []).map Prod.fst =
        positions.map (fun pos => .ok (row.getD pos .null)) ∧
      ∀ out ∈ codec.decodeValuesAt p bytes positions [], ∀ j (hj : j < out.2.length),
        codec.fieldOffset p row j = .ok out.2[j] := by
  obtain ⟨fields⟩ := codec
  obtain ⟨bytes, henc, start, L⟩ := layout_encodeFields p hsupported hrow
  obtain ⟨bytes', henc', hdecode⟩ :=
    DensePrimaryKeyCodec.decodeDense_encode p ⟨fields⟩ hsupported hrow
  obtain rfl : bytes' = bytes := by
    have h := henc'.symm.trans henc
    injection h
  -- the buffer starts empty, which is the offsets of no field
  obtain ⟨hvalues, hbuffers⟩ :=
    L.decodeValuesAt hp positions (k := 0) (Nat.zero_le _) hpositions
  refine ⟨bytes', henc', hdecode, hvalues, fun out hout j hj => ?_⟩
  obtain ⟨k, hk, hbuffer⟩ := hbuffers out hout
  have hjk : j < k := by simpa [hbuffer] using hj
  simp only [hbuffer, List.getElem_map, List.getElem_range]
  exact L.offset j (by omega)

/-- A row for `hostKey`: a host, no timestamp, and an interval. -/
def hostRow : List Value := [.string "host", .null, .intervalDayTime ⟨1, 2⟩]

theorem decodeValuesAt_spec_hostKey :
    (∀ f ∈ hostKey.orderedPrimaryKeyColumns, f.2.dataType.supported) ∧
    List.Forall₂ (fun f (value : Value) => value.ofType f.2.dataType)
      hostKey.orderedPrimaryKeyColumns hostRow ∧
    (∀ pos ∈ [2, 0, 1, 2], pos < hostKey.orderedPrimaryKeyColumns.length) ∧
    ∃ bytes, hostKey.encode .memcmp hostRow = .ok bytes ∧
      hostKey.decodeDense .memcmp bytes =
        .ok ((hostKey.orderedPrimaryKeyColumns.map Prod.fst).zip hostRow) ∧
      (hostKey.decodeValuesAt .memcmp bytes [2, 0, 1, 2] []).map Prod.fst =
        [2, 0, 1, 2].map (fun pos => .ok (hostRow.getD pos .null)) ∧
      ∀ out ∈ hostKey.decodeValuesAt .memcmp bytes [2, 0, 1, 2] [], ∀ j (hj : j < out.2.length),
        hostKey.fieldOffset .memcmp hostRow j = .ok out.2[j] :=
  ⟨by decide, by decide, by decide,
    decodeValuesAt_spec .memcmp Memcomparable.lawful_memcmp hostKey hostRow (by decide) (by decide)
      [2, 0, 1, 2] (by decide)⟩

end Greptime
