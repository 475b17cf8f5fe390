import Greptime.RowConverter.Memcomparable

/-!
# Dense keys compare as their rows

Memtables, SST files and merge readers order series by the bytes of their dense keys.  For the
bytes to order the series as their rows, the encoding of every field has to keep the order of
its values.  `Value.cmp` is `Ord for Value` (`impl_ord_for_value_like`): `NULL` first, two values
of one type as the type orders them, and a panic, `none` here, for values of two types and for
decimals; `Value.cmpRows` orders rows lexicographically with it.

`SortField.compare_serialize` says that, under any memcomparable encoding with the laws of
`Memcomparable.Lawful`, a field of a boolean, integer, string, binary, date or timestamp type
writes two values of its type as bytes that compare as `Value.cmp` compares the values (the
order laws of the encodings of booleans, integers and strings carry it); the bytes of two values of one field never begin one another unless they are equal
(`SortField.serialize_prefix`), so the keys of two rows compare field after field, as
`Value.cmpRows` compares the rows (`encode_compare`).

Floats are not covered: `OrderedFloat` puts NaN above everything and makes both zeros equal,
which the bits of `serialize_f32` do not do.  Intervals are written packed into one integer,
whose order is not the order of their fields.
-/

namespace Greptime

open Datatypes Memcmp

/-! ## The order of values -/

/-- `OrderedFloat::cmp` on the bits of a float whose infinity has the magnitude `infinity`: NaN
above every other float and equal to itself, both zeros equal, and otherwise the order of the
numbers, by sign and then by magnitude. -/
def floatCmp (infinity : ℕ) {w : ℕ} (a b : BitVec w) : Ordering :=
  let ma := a.toNat % 2 ^ (w - 1)
  let mb := b.toNat % 2 ^ (w - 1)
  if infinity < ma then (if infinity < mb then .eq else .gt)
  else if infinity < mb then .lt
  else if ma = 0 ∧ mb = 0 then .eq
  else
    match a.msb, b.msb with
    | false, false => compare ma mb
    | true, true => compare mb ma
    | false, true => .gt
    | true, false => .lt

/-- `Ord for Time`: the comparison of `Ord for Timestamp`, on the value and unit of the time. -/
def Datatypes.Time.cmp (a b : Time) : Ordering :=
  Timestamp.cmp ⟨I64.ofBitVec a.value, a.unit⟩ ⟨I64.ofBitVec b.value, b.unit⟩

/-- `Ord for Duration`: the comparison of `Ord for Timestamp`, on the value and unit of the
duration. -/
def Datatypes.Duration.cmp (a b : Datatypes.Duration) : Ordering :=
  Timestamp.cmp ⟨I64.ofBitVec a.value, a.unit⟩ ⟨I64.ofBitVec b.value, b.unit⟩

/-- `impl_ord_for_value_like` (`Ord for Value`): `NULL` before every other value, two values of
one type in the type's order (signed integers and dates as integers, strings and binary by their
bytes, intervals by their fields in order), and `none`, a panic, for values of two types and for
decimals, which the macro has no arm for. -/
def Datatypes.Value.cmp : Value → Value → Option Ordering
  | .null, .null => some .eq
  | .null, _ => some .lt
  | _, .null => some .gt
  | .boolean a, .boolean b => some (compare a b)
  | .uint8 a, .uint8 b => some (compare a.toNat b.toNat)
  | .uint16 a, .uint16 b => some (compare a.toNat b.toNat)
  | .uint32 a, .uint32 b => some (compare a.toNat b.toNat)
  | .uint64 a, .uint64 b => some (compare a.toNat b.toNat)
  | .int8 a, .int8 b => some (compare a.toInt b.toInt)
  | .int16 a, .int16 b => some (compare a.toInt b.toInt)
  | .int32 a, .int32 b => some (compare a.toInt b.toInt)
  | .int64 a, .int64 b => some (compare a.toInt b.toInt)
  | .float32 a, .float32 b => some (floatCmp 0x7F800000 a.toBitVec b.toBitVec)
  | .float64 a, .float64 b => some (floatCmp 0x7FF0000000000000 a.toBitVec b.toBitVec)
  | .string a, .string b => some (compare (utf8 a) (utf8 b))
  | .binary a, .binary b => some (compare a b)
  | .date a, .date b => some (compare a.toInt b.toInt)
  | .timestamp a, .timestamp b => some (Timestamp.cmp a b)
  | .time a, .time b => some (Time.cmp a b)
  | .intervalYearMonth a, .intervalYearMonth b => some (compare a.months.toInt b.months.toInt)
  | .intervalDayTime a, .intervalDayTime b =>
    some ((compare a.days.toInt b.days.toInt).then
      (compare a.milliseconds.toInt b.milliseconds.toInt))
  | .intervalMonthDayNano a, .intervalMonthDayNano b =>
    some (((compare a.months.toInt b.months.toInt).then (compare a.days.toInt b.days.toInt)).then
      (compare a.nanoseconds.toInt b.nanoseconds.toInt))
  | .duration a, .duration b => some (Datatypes.Duration.cmp a b)
  | _, _ => none

/-- `Ord for [Value]`: the values in order up to the first that differ, and then the lengths. -/
def Datatypes.Value.cmpRows : List Value → List Value → Option Ordering
  | a :: as, b :: bs => do
    match ← Value.cmp a b with
    | .eq => cmpRows as bs
    | o => pure o
  | as, bs => some (compare as.length bs.length)

/-- The types whose encodings keep the order of their values: booleans, integers, strings,
binary, dates and timestamps. -/
def Datatypes.ConcreteDataType.orderedByEncoding : ConcreteDataType → Bool
  | .boolean | .int8 | .int16 | .int32 | .int64 | .uint8 | .uint16 | .uint32 | .uint64
  | .string | .binary | .date | .timestamp _ => true
  | _ => false

/-! ## Bytes that compare as values -/

/-- A codec ordered by a key of a lawfully ordered type compares its bytes as the keys. -/
lemma compare_ser_key {α β : Type} [Ord β] [LT β] [Std.OrientedOrd β] [Std.LawfulEqOrd β]
    {c : Codec α} {key : α → β} (hlt : ∀ x y : β, compare x y = .lt ↔ x < y)
    (hkey : Function.Injective key) (hc : OrderedBy c fun a b => key a < key b) (a b : α) :
    compare (c.ser a) (c.ser b) = compare (key a) (key b) :=
  @compare_ser α c (fun a b => compare (key a) (key b)) (fun a b => (hc a b).trans (hlt _ _).symm)
    (fun _ _ => Std.OrientedOrd.eq_swap.symm) (fun _ _ h => hkey (Std.compare_eq_iff_eq.mp h)) a b

/-- An unsigned integer whose bytes compare as its number. -/
lemma compare_unsigned {α : Type} {c : Codec α} {toNat : α → ℕ}
    (hinj : Function.Injective toNat) (hc : OrderedBy c fun a b => toNat a < toNat b)
    (a b : α) : compare (c.ser a) (c.ser b) = compare (toNat a) (toNat b) :=
  compare_ser_key (fun _ _ => Nat.compare_eq_lt) hinj hc a b

/-- A signed integer whose bytes compare as its value. -/
lemma compare_signed {w : ℕ} {c : Codec (BitVec w)}
    (hc : OrderedBy c fun a b => a.toInt < b.toInt) (a b : BitVec w) :
    compare (c.ser a) (c.ser b) = compare a.toInt b.toInt :=
  compare_ser_key (fun _ _ => Int.compare_eq_lt) (fun _ _ h => BitVec.eq_of_toInt_eq h) hc a b

lemma utf8_injective : Function.Injective utf8 := by
  intro s t h
  rw [← String.toByteArray_inj]
  cases hs : s.toByteArray
  cases ht : t.toByteArray
  simp only [utf8, hs, ht] at h
  rw [Array.toList_inj] at h
  rw [h]

/-- The bytes of a binary value: its bytes as a sequence of `u8`, each after a `1`. -/
lemma orderedBy_binary {p : Memcomparable} (hp : p.Lawful) : OrderedBy p.bytes (· < ·) :=
  orderedBy_seq fun a b => (hp.orderedBy_u8 a b).trans UInt8.lt_iff_toNat_lt.symm

/-- `NULL` is below every other value. -/
lemma Datatypes.Value.cmp_null_left {v : Value} (hv : v ≠ .null) : Value.cmp .null v = some .lt := by
  cases v <;> simp_all [Value.cmp]

lemma Datatypes.Value.cmp_null_right {v : Value} (hv : v ≠ .null) : Value.cmp v .null = some .gt := by
  cases v <;> simp_all [Value.cmp]

/-- Values written as `Option`s of a codec that compares its bytes as `cmp` compare their bytes
as `Value.cmp` compares the values, `NULL` first. -/
lemma cmp_option_ser {α : Type} {c : Codec α} {cmp : α → α → Ordering}
    (hc : ∀ a b, compare (c.ser a) (c.ser b) = cmp a b) {mk : α → Value}
    (hmk : ∀ a b, Value.cmp (mk a) (mk b) = some (cmp a b)) (hnull : ∀ a, mk a ≠ .null)
    (x y : Option α) :
    Value.cmp (x.elim .null mk) (y.elim .null mk) = some (compare (c.option.ser x) (c.option.ser y)) := by
  cases x with
  | none =>
    cases y with
    | none => rfl
    | some b => exact Value.cmp_null_left (hnull b)
  | some a =>
    cases y with
    | none => exact Value.cmp_null_right (hnull a)
    | some b =>
      have h : compare (c.option.ser (some a)) (c.option.ser (some b)) =
          (compare (1 : UInt8) 1).then (compare (c.ser a) (c.ser b)) :=
        List.compareLex_cons_cons
      rw [h, Std.compare_self, hc]
      exact hmk a b

/-- A field that writes its values as `Option`s of a codec through `cast`: two values that are
`NULL` or of the field's variant are written, and their bytes compare as `Value.cmp` compares
them. -/
lemma compare_serializeWith {α : Type} {c : Codec α} {cmp : α → α → Ordering} (mk : α → Value)
    (hc : ∀ a b, compare (c.ser a) (c.ser b) = cmp a b)
    (hmk : ∀ a b, Value.cmp (mk a) (mk b) = some (cmp a b)) (hnull : ∀ a, mk a ≠ .null)
    (cast : Value → Except CodecError (Option α)) (hcast : ∀ x, cast (x.elim .null mk) = .ok x)
    {t : ConcreteDataType} (hof : ∀ v : Value, v.ofType t → v = .null ∨ ∃ a, v = mk a)
    {v₁ v₂ : Value} (h₁ : v₁.ofType t) (h₂ : v₂.ofType t) :
    ∃ e₁ e₂, serializeWith c (cast v₁) = .ok e₁ ∧ serializeWith c (cast v₂) = .ok e₂ ∧
      Value.cmp v₁ v₂ = some (compare e₁ e₂) := by
  have hopt : ∀ {v}, v.ofType t → ∃ x : Option α, v = x.elim .null mk := by
    intro v hv
    rcases hof v hv with rfl | ⟨a, rfl⟩
    exacts [⟨none, rfl⟩, ⟨some a, rfl⟩]
  obtain ⟨x₁, rfl⟩ := hopt h₁
  obtain ⟨x₂, rfl⟩ := hopt h₂
  refine ⟨c.option.ser x₁, c.option.ser x₂, ?_, ?_, cmp_option_ser hc hmk hnull x₁ x₂⟩ <;>
    simp [serializeWith, hcast, Except.map]

lemma toBitVec_ofBitVec (b : BitVec 64) : (I64.ofBitVec b).toBitVec = b :=
  BitVec.ofInt_toInt

/-- A field of a type whose encoding keeps the order writes two values of its type as bytes that
compare as `Value.cmp` compares the values. -/
theorem SortField.compare_serialize {p : Memcomparable} (hp : p.Lawful) {field : SortField}
    (hfield : field.dataType.orderedByEncoding) {v₁ v₂ : Value} (h₁ : v₁.ofType field.dataType)
    (h₂ : v₂.ofType field.dataType) :
    ∃ e₁ e₂, field.serialize p v₁ = .ok e₁ ∧ field.serialize p v₂ = .ok e₂ ∧
      Value.cmp v₁ v₂ = some (compare e₁ e₂) := by
  obtain ⟨dataType⟩ := field
  -- each case: the codec's bytes compare as the values, and the values are `NULL` or the
  -- variant, every other variant failing `ofType` by computation
  cases dataType with
  | boolean =>
    exact compare_serializeWith .boolean
      (compare_ser_key (fun _ _ => compare_lt_iff_lt) Function.injective_id hp.orderedBy_bool)
      (fun _ _ => rfl) (fun _ => Value.noConfusion) Value.asBoolean (fun x => by cases x <;> rfl)
      (fun v hv => by cases v <;> first | exact .inl rfl | exact .inr ⟨_, rfl⟩ | cases hv) h₁ h₂
  | int8 =>
    exact compare_serializeWith .int8 (compare_signed hp.orderedBy_i8) (fun _ _ => rfl)
      (fun _ => Value.noConfusion) Value.asI8 (fun x => by cases x <;> rfl)
      (fun v hv => by cases v <;> first | exact .inl rfl | exact .inr ⟨_, rfl⟩ | cases hv) h₁ h₂
  | int16 =>
    exact compare_serializeWith .int16 (compare_signed hp.orderedBy_i16) (fun _ _ => rfl)
      (fun _ => Value.noConfusion) Value.asI16 (fun x => by cases x <;> rfl)
      (fun v hv => by cases v <;> first | exact .inl rfl | exact .inr ⟨_, rfl⟩ | cases hv) h₁ h₂
  | int32 =>
    exact compare_serializeWith .int32 (compare_signed hp.orderedBy_i32) (fun _ _ => rfl)
      (fun _ => Value.noConfusion) Value.asI32 (fun x => by cases x <;> rfl)
      (fun v hv => by cases v <;> first | exact .inl rfl | exact .inr ⟨_, rfl⟩ | cases hv) h₁ h₂
  | int64 =>
    exact compare_serializeWith .int64 (compare_signed hp.orderedBy_i64) (fun _ _ => rfl)
      (fun _ => Value.noConfusion) Value.asI64 (fun x => by cases x <;> rfl)
      (fun v hv => by cases v <;> first | exact .inl rfl | exact .inr ⟨_, rfl⟩ | cases hv) h₁ h₂
  | uint8 =>
    exact compare_serializeWith .uint8
      (compare_unsigned (fun _ _ => UInt8.toNat_inj.mp) hp.orderedBy_u8)
      (fun _ _ => rfl) (fun _ => Value.noConfusion) Value.asU8 (fun x => by cases x <;> rfl)
      (fun v hv => by cases v <;> first | exact .inl rfl | exact .inr ⟨_, rfl⟩ | cases hv) h₁ h₂
  | uint16 =>
    exact compare_serializeWith .uint16
      (compare_unsigned (fun _ _ => UInt16.toNat_inj.mp) hp.orderedBy_u16)
      (fun _ _ => rfl) (fun _ => Value.noConfusion) Value.asU16 (fun x => by cases x <;> rfl)
      (fun v hv => by cases v <;> first | exact .inl rfl | exact .inr ⟨_, rfl⟩ | cases hv) h₁ h₂
  | uint32 =>
    exact compare_serializeWith .uint32
      (compare_unsigned (fun _ _ => UInt32.toNat_inj.mp) hp.orderedBy_u32)
      (fun _ _ => rfl) (fun _ => Value.noConfusion) Value.asU32 (fun x => by cases x <;> rfl)
      (fun v hv => by cases v <;> first | exact .inl rfl | exact .inr ⟨_, rfl⟩ | cases hv) h₁ h₂
  | uint64 =>
    exact compare_serializeWith .uint64
      (compare_unsigned (fun _ _ => UInt64.toNat_inj.mp) hp.orderedBy_u64)
      (fun _ _ => rfl) (fun _ => Value.noConfusion) Value.asU64 (fun x => by cases x <;> rfl)
      (fun v hv => by cases v <;> first | exact .inl rfl | exact .inr ⟨_, rfl⟩ | cases hv) h₁ h₂
  | string =>
    exact compare_serializeWith .string
      (compare_ser_key (fun _ _ => compare_bytes_eq_lt) utf8_injective hp.orderedBy_str)
      (fun _ _ => rfl) (fun _ => Value.noConfusion) Value.asString (fun x => by cases x <;> rfl)
      (fun v hv => by cases v <;> first | exact .inl rfl | exact .inr ⟨_, rfl⟩ | cases hv) h₁ h₂
  | binary =>
    exact compare_serializeWith .binary
      (compare_ser_key (fun _ _ => compare_bytes_eq_lt) Function.injective_id
        (orderedBy_binary hp))
      (fun _ _ => rfl) (fun _ => Value.noConfusion) Value.asBinary (fun x => by cases x <;> rfl)
      (fun v hv => by cases v <;> first | exact .inl rfl | exact .inr ⟨_, rfl⟩ | cases hv) h₁ h₂
  | date =>
    exact compare_serializeWith .date (compare_signed hp.orderedBy_i32) (fun _ _ => rfl)
      (fun _ => Value.noConfusion) Value.asDate (fun x => by cases x <;> rfl)
      (fun v hv => by cases v <;> first | exact .inl rfl | exact .inr ⟨_, rfl⟩ | cases hv) h₁ h₂
  | timestamp unit =>
    -- a timestamp is written as its value alone; the unit is the field's
    refine compare_serializeWith (fun b => .timestamp ⟨I64.ofBitVec b, unit⟩)
      (compare_signed hp.orderedBy_i64)
      (fun _ _ => by simp [Value.cmp, Timestamp.cmp, I64.ofBitVec]) (fun _ => Value.noConfusion)
      (fun v => v.asTimestamp.map (·.map (·.value.toBitVec))) ?_ ?_ h₁ h₂
    · intro x
      cases x <;> simp [Value.asTimestamp, Value.cast, toBitVec_ofBitVec, Except.map]
    · intro v hv
      cases v <;> simp only [Value.ofType, beq_iff_eq, reduceCtorEq, false_or, true_or] at hv ⊢
      rename_i ts
      exact ⟨ts.value.toBitVec, by rw [I64.ofBitVec_toBitVec, ← hv]⟩
  | _ => cases hfield

/-- The bytes of two values of one field never begin one another unless they are equal: the
reader of the field stops where the bytes of a value end. -/
lemma SortField.serialize_prefix (p : Memcomparable) {field : SortField}
    (hsupported : field.dataType.supported) {v₁ v₂ : Value} (h₁ : v₁.ofType field.dataType)
    (h₂ : v₂.ofType field.dataType) {e₁ e₂ : List UInt8} (he₁ : field.serialize p v₁ = .ok e₁)
    (he₂ : field.serialize p v₂ = .ok e₂) (hpre : e₁ <+: e₂) : e₁ = e₂ := by
  obtain ⟨t, rfl⟩ := hpre
  obtain ⟨b₁, hb₁, hde₁⟩ := SortField.deserialize_serialize p hsupported h₁
  obtain ⟨b₂, hb₂, hde₂⟩ := SortField.deserialize_serialize p hsupported h₂
  rw [he₁, Except.ok.injEq] at hb₁
  rw [he₂, Except.ok.injEq] at hb₂
  subst hb₁ hb₂
  -- the reader of the first value leaves `t` of the second one's bytes, which leave nothing
  have h := (hde₁ t).symm.trans (by simpa using hde₂ [])
  simp only [Except.ok.injEq, Prod.mk.injEq] at h
  simp [h.2]

lemma ConcreteDataType.supported_of_orderedByEncoding {t : ConcreteDataType}
    (ht : t.orderedByEncoding) : t.supported := by
  cases t <;> simp_all [ConcreteDataType.orderedByEncoding, ConcreteDataType.supported]

/-- The keys of two rows of ordered fields compare as `Value.cmpRows` compares the rows: field
after field, the first field whose bytes differ decides, since those bytes begin neither one
the other. -/
lemma compare_encodeFields {p : Memcomparable} (hp : p.Lawful) {fields : List (ℕ × SortField)}
    (hfields : ∀ f ∈ fields, f.2.dataType.orderedByEncoding) {r₁ r₂ : List Value}
    (h₁ : List.Forall₂ (fun f value => value.ofType f.2.dataType) fields r₁)
    (h₂ : List.Forall₂ (fun f value => value.ofType f.2.dataType) fields r₂) :
    ∃ b₁ b₂, encodeFields p fields r₁ = .ok b₁ ∧ encodeFields p fields r₂ = .ok b₂ ∧
      Value.cmpRows r₁ r₂ = some (compare b₁ b₂) := by
  induction h₁ generalizing r₂ with
  | nil =>
    cases h₂
    exact ⟨[], [], rfl, rfl, rfl⟩
  | @cons f v₁ fields r₁ hv₁ _ ih =>
    obtain ⟨columnId, field⟩ := f
    cases h₂ with
    | cons hv₂ hr₂ =>
    rename_i v₂ r₂
    have hordered := hfields _ List.mem_cons_self
    obtain ⟨e₁, e₂, he₁, he₂, hcmp⟩ := SortField.compare_serialize hp hordered hv₁ hv₂
    obtain ⟨b₁, b₂, hb₁, hb₂, hrows⟩ :=
      ih (fun f hf => hfields f (List.mem_cons_of_mem _ hf)) hr₂
    refine ⟨e₁ ++ b₁, e₂ ++ b₂, by simp [encodeFields, he₁, hb₁, bind, Except.bind, pure,
      Except.pure], by simp [encodeFields, he₂, hb₂, bind, Except.bind, pure, Except.pure], ?_⟩
    by_cases he : e₁ = e₂
    · -- equal fields: the rest of the rows decides
      subst he
      rw [compare_append_left, ← hrows]
      simp [Value.cmpRows, hcmp, Std.compare_self, bind, Option.bind]
    · -- different fields: their bytes decide, and neither begins the other
      have hsupported := ConcreteDataType.supported_of_orderedByEncoding hordered
      have hu : ¬ e₁ <+: e₂ := fun h => he (SortField.serialize_prefix p hsupported hv₁ hv₂
        he₁ he₂ h)
      have hv : ¬ e₂ <+: e₁ := fun h => he (SortField.serialize_prefix p hsupported hv₂ hv₁
        he₂ he₁ h).symm
      have hne : compare e₁ e₂ ≠ .eq := fun h => he (Std.compare_eq_iff_eq.mp h)
      rw [compare_append_of_not_isPrefix b₁ b₂ hu hv]
      cases ho : compare e₁ e₂ <;> simp_all [Value.cmpRows, bind, Option.bind]

/-- Two rows of a key whose fields all keep the order of their values are written, and their
keys compare as `Value.cmpRows` compares the rows; two keys are equal exactly when the rows
are. -/
theorem encode_compare (p : Memcomparable) (hp : p.Lawful) (codec : DensePrimaryKeyCodec)
    (hfields : ∀ f ∈ codec.orderedPrimaryKeyColumns, f.2.dataType.orderedByEncoding)
    (r₁ r₂ : List Value)
    (h₁ : List.Forall₂ (fun f value => value.ofType f.2.dataType) codec.orderedPrimaryKeyColumns r₁)
    (h₂ : List.Forall₂ (fun f value => value.ofType f.2.dataType) codec.orderedPrimaryKeyColumns r₂) :
    ∃ b₁ b₂, codec.encode p r₁ = .ok b₁ ∧ codec.encode p r₂ = .ok b₂ ∧
      Value.cmpRows r₁ r₂ = some (compare b₁ b₂) ∧ (b₁ = b₂ ↔ r₁ = r₂) := by
  obtain ⟨b₁, b₂, hb₁, hb₂, hcmp⟩ := compare_encodeFields hp hfields h₁ h₂
  refine ⟨b₁, b₂, hb₁, hb₂, hcmp, ⟨fun hb => ?_, fun hr => by subst hr; simp_all⟩⟩
  -- equal keys decode to the same pairs of ids and values, whose values are the rows
  have hsupported : ∀ f ∈ codec.orderedPrimaryKeyColumns, f.2.dataType.supported :=
    fun f hf => ConcreteDataType.supported_of_orderedByEncoding (hfields f hf)
  obtain ⟨c₁, hc₁, hdec₁⟩ := DensePrimaryKeyCodec.decodeDense_encode p codec hsupported h₁
  obtain ⟨c₂, hc₂, hdec₂⟩ := DensePrimaryKeyCodec.decodeDense_encode p codec hsupported h₂
  have hlen₁ : (codec.orderedPrimaryKeyColumns.map Prod.fst).length = r₁.length := by
    simpa using h₁.length_eq
  have hlen₂ : (codec.orderedPrimaryKeyColumns.map Prod.fst).length = r₂.length := by
    simpa using h₂.length_eq
  have hc : c₁ = c₂ := by
    have e₁ := hc₁.symm.trans hb₁
    have e₂ := hc₂.symm.trans hb₂
    simp only [Except.ok.injEq] at e₁ e₂
    rw [e₁, e₂, hb]
  rw [hc, hdec₂, Except.ok.injEq] at hdec₁
  rw [← List.map_snd_zip hlen₁.ge, ← List.map_snd_zip hlen₂.ge, hdec₁]

/-- A key of a string tag and a timestamp in milliseconds. -/
def tagTimeKey : DensePrimaryKeyCodec :=
  ⟨[(0, ⟨.string⟩), (1, ⟨.timestamp .millisecond⟩)]⟩

/-- Two rows whose tags fill a group of eight bytes and spill past it. -/
def groupRow : List Value := [.string "abcdefgh", .timestamp ⟨I64.ofBitVec 128, .millisecond⟩]

def spillRow : List Value := [.string "abcdefghi", .null]

theorem encode_compare_tagTimeKey :
    (∀ f ∈ tagTimeKey.orderedPrimaryKeyColumns, f.2.dataType.orderedByEncoding) ∧
    List.Forall₂ (fun f (value : Value) => value.ofType f.2.dataType)
      tagTimeKey.orderedPrimaryKeyColumns groupRow ∧
    List.Forall₂ (fun f (value : Value) => value.ofType f.2.dataType)
      tagTimeKey.orderedPrimaryKeyColumns spillRow ∧
    ∃ b₁ b₂, tagTimeKey.encode .memcmp groupRow = .ok b₁ ∧
      tagTimeKey.encode .memcmp spillRow = .ok b₂ ∧
      Value.cmpRows groupRow spillRow = some (compare b₁ b₂) ∧ (b₁ = b₂ ↔ groupRow = spillRow) :=
  ⟨by decide, by decide, by decide,
    encode_compare .memcmp Memcomparable.lawful_memcmp tagTimeKey (by decide) groupRow spillRow
      (by decide) (by decide)⟩

end Greptime
