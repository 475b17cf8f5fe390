import Greptime.Foundations.BitBuf
import Mathlib.Order.Interval.Finset.Nat

/-!
# Bitmaps of the inverted index (`index::bitmap`)

A `Bitmap` is a roaring bitmap or a bit vector (`common_base::BitVec`, a `BitBuf`).  Its ones
are the values of the roaring bitmap, or the positions of the live ones of the bit vector.
An operation on two bitmaps converts the second to the encoding of the first: a roaring bitmap
becomes a bit vector one longer than its largest value (`roaring_to_bitvec`), a bit vector
becomes the roaring bitmap of the ones of its bytes once grown to its capacity
(`bitvec_to_roaring`).

On the ones, every operation is the set operation, whatever the encodings: `ones_union`,
`ones_intersect`, `countOnes_eq_card`, `mem_iterOnes` with `pairwise_lt_iterOnes`, and
`serializedSize_eq_length` for the bytes written.  Two things are not:

* `is_empty` of a bit vector tests its length, so a bit vector of zeros is not empty;
* `intersect` truncates the first bit vector to the last one the two share, and the
  truncation leaves the bits of the last byte kept as they were.  `serialize_into` writes the
  bytes whole (`as_raw_slice`), so a bit vector read back can have more ones
  (`ones_deserializeFrom_serializeInto` holds for the bitmaps whose dead bits are zero).

`bitmap_bitVec_isEmpty_and_dead_bits` gives a bitmap of each kind.

The `roaring` crate is taken as correct: its operations are the set operations on its values,
its iteration goes up through them, and its serialization is a `RoaringFormat`, whose laws
are those of a correct serializer.  The bounds of `insert_range` are cast `as u32`.
-/

namespace Greptime

/-- `BitmapType`: how a bitmap is encoded. -/
inductive BitmapType
  | bitVec
  | roaring
  deriving DecidableEq, Repr

/-- The serialization of roaring bitmaps (`serialize_into`, `serialized_size`,
`deserialize_from`), correct: what is written reads back, and the size is what is written. -/
structure RoaringFormat where
  serialize : Finset ℕ → List UInt8
  serializedSize : Finset ℕ → ℕ
  deserialize : List UInt8 → Option (Finset ℕ)
  deserialize_serialize : ∀ values, deserialize (serialize values) = some values
  serializedSize_eq : ∀ values, serializedSize values = (serialize values).length

/-- `Bitmap`: a roaring bitmap, the set of its values, or a bit vector. -/
inductive Bitmap
  | roaring (values : Finset ℕ)
  | bitVec (bits : BitBuf)
  deriving DecidableEq

namespace Bitmap

/-- `RoaringBitmap::from_lsb0_bytes(0, bytes)`: the positions of the ones of the bytes. -/
def roaringFromLsb0Bytes (bytes : List UInt8) : Finset ℕ := (BitBuf.fromSlice bytes).ones

/-- The ones of a bitmap. -/
def ones : Bitmap → Finset ℕ
  | roaring values => values
  | bitVec bits => bits.ones

/-- `Bitmap::new_bitvec`. -/
def newBitvec : Bitmap := bitVec BitBuf.empty

/-- `Bitmap::new_roaring`, also `Bitmap::default`. -/
def newRoaring : Bitmap := roaring ∅

/-- `Bitmap::full_bitvec`. -/
def fullBitvec (size : ℕ) : Bitmap := bitVec (BitBuf.repeat true size)

/-- `Bitmap::full_roaring`: the range `0..size as u32`. -/
def fullRoaring (size : ℕ) : Bitmap := roaring (Finset.range (size % 2 ^ 32))

/-- `Bitmap::count_ones`. -/
def countOnes : Bitmap → ℕ
  | bitVec bits => bits.countOnes
  | roaring values => values.card

/-- `Bitmap::is_empty`. -/
def isEmpty : Bitmap → Bool
  | bitVec bits => bits.isEmpty
  | roaring values => decide (values = ∅)

/-- `Bitmap::insert_range` of `start..=end`: a bit vector grows to hold the range, a roaring
bitmap takes the bounds `as u32`. -/
def insertRange (start end_ : ℕ) : Bitmap → Bitmap
  | bitVec bits =>
    let bits := if end_ ≥ bits.len then bits.resize (end_ + 1) false else bits
    bitVec ((List.range' start (end_ + 1 - start)).foldl (fun bits i => bits.set i true) bits)
  | roaring values => roaring (values ∪ Finset.Icc (start % 2 ^ 32) (end_ % 2 ^ 32))

/-- `Bitmap::roaring_to_bitvec`: zeros up to the largest value (`max().unwrap_or(0)`), then
the values set in increasing order. -/
def roaringToBitvec (values : Finset ℕ) : BitBuf :=
  let maxValue := values.sup id
  ((List.range (maxValue + 1)).filter (· ∈ values)).foldl (fun bits i => bits.set i true)
    (BitBuf.repeat false (maxValue + 1))

/-- `Bitmap::bitvec_to_roaring`: grown to its capacity with zeros, then read by its bytes. -/
def bitvecToRoaring (bits : BitBuf) : Finset ℕ :=
  roaringFromLsb0Bytes (bits.resize bits.raw.length false).asRawSlice

/-- `Bitmap::into_bitvec`. -/
def intoBitvec : Bitmap → BitBuf
  | bitVec bits => bits
  | roaring values => roaringToBitvec values

/-- `Bitmap::into_roaring`. -/
def intoRoaring : Bitmap → Finset ℕ
  | roaring values => values
  | bitVec bits => bitvecToRoaring bits

/-- `Bitmap::serialize_into`: the bytes written. -/
def serializeInto (format : RoaringFormat) (serializeType : BitmapType) : Bitmap → List UInt8
  | bitVec bits =>
    match serializeType with
    | .bitVec => bits.asRawSlice
    | .roaring => format.serialize (bitvecToRoaring bits)
  | roaring values =>
    match serializeType with
    | .roaring => format.serialize values
    | .bitVec => (roaringToBitvec values).asRawSlice

/-- `Bitmap::serialized_size`. -/
def serializedSize (format : RoaringFormat) (bitmapType : BitmapType) : Bitmap → ℕ
  | bitVec bits =>
    match bitmapType with
    | .bitVec => bits.asRawSlice.length
    | .roaring => format.serializedSize (bitvecToRoaring bits)
  | roaring values =>
    match bitmapType with
    | .roaring => format.serializedSize values
    | .bitVec => (roaringToBitvec values).asRawSlice.length

/-- `Bitmap::deserialize_from`; `none` is the I/O error of a roaring bitmap that does not
read. -/
def deserializeFrom (format : RoaringFormat) (buf : List UInt8) : BitmapType → Option Bitmap
  | .bitVec => some (bitVec (BitBuf.fromSlice buf))
  | .roaring => (format.deserialize buf).map roaring

/-- `Bitmap::union`: an empty bitmap becomes the other one; otherwise the other one is
converted to the encoding of the first, and of two bit vectors the longer one takes the
shorter. -/
def union (self other : Bitmap) : Bitmap :=
  if self.isEmpty then other
  else
    match self with
    | bitVec bitvec1 =>
      let bitvec2 := other.intoBitvec
      if bitvec1.len > bitvec2.len then bitVec (bitvec1.orAssign bitvec2)
      else bitVec (bitvec2.orAssign bitvec1)
    | roaring roaring1 => roaring (roaring1 ∪ other.intoRoaring)

/-- `Bitmap::intersect`: two bit vectors are first truncated to the end of the last one the
shorter of them holds. -/
def intersect (self other : Bitmap) : Bitmap :=
  match self with
  | bitVec bitvec1 =>
    let bitvec2 := other.intoBitvec
    let len := min (bitvec1.len - bitvec1.trailingZeros) (bitvec2.len - bitvec2.trailingZeros)
    bitVec ((bitvec1.truncate len).andAssign (bitvec2.truncate len))
  | roaring roaring1 => roaring (roaring1 ∩ other.intoRoaring)

/-- `Bitmap::iter_ones`. -/
def iterOnes : Bitmap → List ℕ
  | bitVec bits => bits.iterOnes
  | roaring values => (List.range (values.sup id + 1)).filter (· ∈ values)

/-- `Bitmap::from_lsb0_bytes`. -/
def fromLsb0Bytes (bytes : List UInt8) : BitmapType → Bitmap
  | .bitVec => bitVec (BitBuf.fromSlice bytes)
  | .roaring => roaring (roaringFromLsb0Bytes bytes)

/-- A bitmap whose bytes hold no ones past its length: every roaring bitmap, and the bit
vectors whose dead bits are zero. -/
def Clean : Bitmap → Prop
  | bitVec bits => bits.Clean
  | roaring _ => True

/-! ## The ones of each operation -/

@[simp] lemma ones_roaring (s : Finset ℕ) : (roaring s).ones = s := rfl

@[simp] lemma ones_bitVec (bits : BitBuf) : (bitVec bits).ones = bits.ones := rfl

@[simp] lemma ones_newRoaring : newRoaring.ones = ∅ := rfl

@[simp] lemma ones_newBitvec : newBitvec.ones = ∅ := BitBuf.ones_empty

lemma len_roaringToBitvec (values : Finset ℕ) :
    (roaringToBitvec values).len = values.sup id + 1 := by
  rw [roaringToBitvec, BitBuf.len_foldl_set, BitBuf.len_repeat]

lemma ones_roaringToBitvec (values : Finset ℕ) : (roaringToBitvec values).ones = values := by
  have hlt : ∀ i ∈ (List.range (values.sup id + 1)).filter (· ∈ values),
      i < (BitBuf.repeat false (values.sup id + 1)).len := by
    intro i hi
    simpa using (List.mem_filter.mp hi).1
  rw [roaringToBitvec, BitBuf.ones_foldl_set _ _ hlt, BitBuf.ones_repeat_false, Finset.empty_union]
  ext i
  simp only [List.mem_toFinset, List.mem_filter, List.mem_range, decide_eq_true_eq,
    and_iff_right_iff_imp]
  intro hi
  exact Nat.lt_succ_of_le (Finset.le_sup (f := id) hi)

lemma clean_roaringToBitvec (values : Finset ℕ) : (roaringToBitvec values).Clean := by
  apply BitBuf.Clean.foldl_set _ (BitBuf.clean_repeat_false _)
  intro i hi
  simpa using (List.mem_filter.mp hi).1

/-- Grown to its capacity, a bit vector has no dead bits left. -/
lemma bitvecToRoaring_eq_ones (bits : BitBuf) : bitvecToRoaring bits = bits.ones := by
  have hle : bits.len ≤ bits.raw.length := by
    rw [bits.length_raw]; exact le_eight_mul_bytesFor _
  set grown := bits.resize bits.raw.length false
  have hlen : grown.len = bits.raw.length := BitBuf.len_resize _ _
  have hclean : grown.Clean := by
    apply BitBuf.clean_of_length_raw_eq
    rw [grown.length_raw, hlen, bits.length_raw, bytesFor_eight_mul]
  rw [bitvecToRoaring, roaringFromLsb0Bytes, BitBuf.ones_fromSlice_asRawSlice hclean,
    BitBuf.ones_resize_false hle]

@[simp] lemma ones_intoBitvec (b : Bitmap) : b.intoBitvec.ones = b.ones := by
  cases b with
  | bitVec bits => rfl
  | roaring values => exact ones_roaringToBitvec values

@[simp] lemma intoRoaring_eq_ones (b : Bitmap) : b.intoRoaring = b.ones := by
  cases b with
  | roaring values => rfl
  | bitVec bits => exact bitvecToRoaring_eq_ones bits

lemma ones_eq_empty_of_isEmpty {b : Bitmap} (h : b.isEmpty = true) : b.ones = ∅ := by
  cases b with
  | bitVec bits =>
    exact BitBuf.ones_eq_empty_of_len_eq_zero (by simpa [isEmpty, BitBuf.isEmpty] using h)
  | roaring values => simpa [isEmpty] using h

/-- `is_empty` of a roaring bitmap tests its values. -/
lemma isEmpty_roaring_iff (values : Finset ℕ) : (roaring values).isEmpty = true ↔ values = ∅ := by
  simp [isEmpty]

/-- `is_empty` of a bit vector tests its length. -/
lemma isEmpty_bitVec_iff (bits : BitBuf) : (bitVec bits).isEmpty = true ↔ bits.len = 0 := by
  simp [isEmpty, BitBuf.isEmpty]

lemma ones_union (a b : Bitmap) : (a.union b).ones = a.ones ∪ b.ones := by
  unfold union
  by_cases ha : a.isEmpty
  · simp [ha, ones_eq_empty_of_isEmpty ha]
  · cases a with
    | roaring values => simp [ha]
    | bitVec bitvec1 =>
      simp only [ha, Bool.false_eq_true, if_false]
      by_cases hlen : bitvec1.len > b.intoBitvec.len
      · -- the ones of the shorter vector all lie below the length of the longer
        have hsub : b.intoBitvec.ones.filter (· < bitvec1.len) = b.ones := by
          rw [ones_intoBitvec, Finset.filter_true_of_mem]
          intro i hi
          have := BitBuf.lt_len_of_mem_ones (by rwa [ones_intoBitvec] : i ∈ b.intoBitvec.ones)
          omega
        rw [if_pos hlen, ones_bitVec, BitBuf.ones_orAssign, hsub, ones_bitVec]
      · have hsub : bitvec1.ones.filter (· < b.intoBitvec.len) = bitvec1.ones := by
          rw [Finset.filter_true_of_mem]
          intro i hi
          have := BitBuf.lt_len_of_mem_ones hi
          omega
        rw [if_neg hlen, ones_bitVec, BitBuf.ones_orAssign, hsub, ones_intoBitvec, ones_bitVec,
          Finset.union_comm]

lemma ones_intersect (a b : Bitmap) : (a.intersect b).ones = a.ones ∩ b.ones := by
  cases a with
  | roaring values => simp [intersect]
  | bitVec bitvec1 =>
    simp only [intersect, ones_bitVec, BitBuf.ones_andAssign, BitBuf.ones_truncate,
      ones_intoBitvec]
    -- a one of both lies before the trailing zeros of each, so the truncation keeps it
    ext i
    simp only [Finset.mem_inter, Finset.mem_filter]
    constructor
    · rintro ⟨⟨h1, -⟩, h2, -⟩
      exact ⟨h1, h2⟩
    · rintro ⟨h1, h2⟩
      have hlt1 := BitBuf.lt_sub_trailingZeros h1
      have hlt2 := BitBuf.lt_sub_trailingZeros (by rwa [ones_intoBitvec] : i ∈ b.intoBitvec.ones)
      exact ⟨⟨h1, lt_min hlt1 hlt2⟩, h2, lt_min hlt1 hlt2⟩

lemma countOnes_eq_card (b : Bitmap) : b.countOnes = b.ones.card := by
  cases b with
  | bitVec bits => exact BitBuf.countOnes_eq_card
  | roaring values => rfl

lemma mem_iterOnes (b : Bitmap) (i : ℕ) : i ∈ b.iterOnes ↔ i ∈ b.ones := by
  cases b with
  | bitVec bits => rw [iterOnes, ones_bitVec, BitBuf.ones, List.mem_toFinset]
  | roaring values =>
    simp only [iterOnes, List.mem_filter, List.mem_range, decide_eq_true_eq, ones_roaring,
      and_iff_right_iff_imp]
    intro hi
    exact Nat.lt_succ_of_le (Finset.le_sup (f := id) hi)

/-- The ones come in increasing order. -/
lemma pairwise_lt_iterOnes (b : Bitmap) : b.iterOnes.Pairwise (· < ·) := by
  cases b with
  | bitVec bits => exact BitBuf.pairwise_lt_iterOnes
  | roaring values => exact List.pairwise_lt_range.filter _

/-- Below `2 ^ 32` the cast of a roaring bitmap changes nothing. -/
lemma ones_insertRange {start end_ : ℕ} (h : end_ < 2 ^ 32) (hse : start ≤ end_)
    (b : Bitmap) : (b.insertRange start end_).ones = b.ones ∪ Finset.Icc start end_ := by
  cases b with
  | bitVec bits =>
    set grown := if end_ ≥ bits.len then bits.resize (end_ + 1) false else bits
    have hgrown : grown.ones = bits.ones ∧ end_ < grown.len := by
      by_cases hend : end_ ≥ bits.len
      · have hg : grown = bits.resize (end_ + 1) false := if_pos hend
        rw [hg]
        exact ⟨BitBuf.ones_resize_false (by omega), by rw [BitBuf.len_resize]; omega⟩
      · have hg : grown = bits := if_neg hend
        rw [hg]
        exact ⟨rfl, by omega⟩
    have hlt : ∀ i ∈ List.range' start (end_ + 1 - start), i < grown.len := by
      intro i hi
      have := List.mem_range'_1.mp hi
      omega
    show (bitVec (_ : BitBuf)).ones = _
    rw [ones_bitVec, BitBuf.ones_foldl_set _ _ hlt, hgrown.1, ones_bitVec]
    congr 1
    ext i
    simp only [List.mem_toFinset, List.mem_range'_1, Finset.mem_Icc]
    omega
  | roaring ones =>
    have hstart : start % 2 ^ 32 = start := Nat.mod_eq_of_lt (lt_of_le_of_lt hse h)
    have hend : end_ % 2 ^ 32 = end_ := Nat.mod_eq_of_lt h
    simp only [insertRange, ones_roaring, hstart, hend]

/-! ## Serialization -/

/-- `serialized_size` is the number of bytes `serialize_into` writes. -/
lemma serializedSize_eq_length (format : RoaringFormat) (t : BitmapType) (b : Bitmap) :
    b.serializedSize format t = (b.serializeInto format t).length := by
  cases b <;> cases t <;> simp [serializedSize, serializeInto, format.serializedSize_eq]

/-- What `serialize_into` writes, `deserialize_from` reads, in either encoding. -/
lemma exists_deserializeFrom_serializeInto (format : RoaringFormat) (t : BitmapType)
    (b : Bitmap) : ∃ b', deserializeFrom format (b.serializeInto format t) t = some b' := by
  cases b <;> cases t <;> simp [serializeInto, deserializeFrom, format.deserialize_serialize]

/-- A bitmap written and read back in one encoding has its ones, when it is read as roaring
or holds no ones past its length. -/
lemma ones_deserializeFrom_serializeInto (format : RoaringFormat) (t : BitmapType) (b : Bitmap)
    (h : t = .roaring ∨ b.Clean) :
    (deserializeFrom format (b.serializeInto format t) t).map ones = some b.ones := by
  cases b with
  | bitVec bits =>
    cases t with
    | bitVec =>
      have hclean : bits.Clean := by simpa [Clean] using h
      simp [serializeInto, deserializeFrom, BitBuf.ones_fromSlice_asRawSlice hclean]
    | roaring =>
      simp [serializeInto, deserializeFrom, format.deserialize_serialize, bitvecToRoaring_eq_ones]
  | roaring values =>
    cases t with
    | bitVec =>
      simp [serializeInto, deserializeFrom,
        BitBuf.ones_fromSlice_asRawSlice (clean_roaringToBitvec values), ones_roaringToBitvec]
    | roaring => simp [serializeInto, deserializeFrom, format.deserialize_serialize]

/-- A correct format for roaring values, where a concrete one is needed: the bytes of their bit
vector. -/
def lsb0Format : RoaringFormat where
  serialize values := (roaringToBitvec values).asRawSlice
  serializedSize values := (roaringToBitvec values).asRawSlice.length
  deserialize bytes := some (roaringFromLsb0Bytes bytes)
  deserialize_serialize values := by
    rw [roaringFromLsb0Bytes, BitBuf.ones_fromSlice_asRawSlice (clean_roaringToBitvec values),
      ones_roaringToBitvec]
  serializedSize_eq _ := rfl

/-- The bit vector of the byte `0` has eight bits, all zero: `is_empty` says it is not empty.
The bit vectors of the bytes `0b1001` and `0b0001` share the one at `0`, and their
intersection has that one alone; but it is the first vector truncated to one bit, whose byte
still holds bit `3`, and written and read back as a bit vector it has the ones `{0, 3}`. -/
theorem bitmap_bitVec_isEmpty_and_dead_bits (format : RoaringFormat) :
    (fromLsb0Bytes [0] .bitVec).isEmpty = false ∧ (fromLsb0Bytes [0] .bitVec).ones = ∅ ∧
      ((fromLsb0Bytes [9] .bitVec).intersect (fromLsb0Bytes [1] .bitVec)).ones = {0} ∧
      (deserializeFrom format (((fromLsb0Bytes [9] .bitVec).intersect
        (fromLsb0Bytes [1] .bitVec)).serializeInto format .bitVec) .bitVec).map ones =
        some {0, 3} := by
  refine ⟨rfl, by decide, by decide, ?_⟩
  -- the bit-vector encoding does not use the roaring format
  simp only [fromLsb0Bytes, intersect, serializeInto, deserializeFrom, Option.map_some]
  decide

end Bitmap

end Greptime
