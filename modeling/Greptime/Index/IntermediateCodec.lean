import Greptime.Index.Bitmap
import Greptime.Foundations.Bytes
import Greptime.Foundations.Framed

/-!
# The codec of the sorter's intermediate files (`intermediate_rw::codec_v1`)

An item of an intermediate file is a value and its bitmap, written
`[value len][value][bitmap len][bitmap]` with the lengths as eight bytes little-endian
(`IntermediateItemEncoderV1::encode`).  `IntermediateItemDecoderV1::decode` reads one item
from the front of its buffer and advances the buffer past it.  While any of the four parts is
not whole it reads nothing and leaves the buffer as it is.  The files are read through a
`FramedRead`, `Framed.read` here.

* `decode_encode` and `decode_of_strict_prefix` are the two laws of a framing
  (`framing_decode`): an item comes back from its encoding followed by anything, and nothing
  comes from a strict prefix of an encoding.
* `read_encodeItems`: items written one after another and read back in chunks cut anywhere
  come back with their values, and with the bitmaps that `Bitmap::deserialize_from` makes of
  their bytes.  `readItems_encodeItems` gives the same ones when the bitmaps are written as
  roaring or have no ones past their length.
* `intermediateCodec_roaring_roundTrip`: the codec as the intermediate files use it, with
  roaring bitmaps, reads back every item sequence.

The codec is generic over the bitmap type, but `intermediate_rw` builds it only with
`BitmapType::Roaring`; with bit vectors, a truncated vector's dead bits would come back.

Lengths are below `2 ^ 64`, the range of the `u64` they are written as: a `Vec<u8>` holds at
most `isize::MAX` bytes.  The magic bytes before the items and the writer's I/O errors are left
out.
-/

namespace Greptime

namespace IntermediateCodec

/-- `U64_LENGTH`. -/
def u64Length : ℕ := 8

/-- The decoder's error: the bitmap bytes did not read (`CommonIo`). -/
inductive DecodeError
  | commonIo
  deriving DecidableEq

variable (format : RoaringFormat) (bitmapType : BitmapType)

/-- `IntermediateItemEncoderV1::encode`: the bytes an item adds to the buffer. -/
def encode (item : List UInt8 × Bitmap) : List UInt8 :=
  let valueBytes := item.1
  let bitmapSize := item.2.serializedSize format bitmapType
  Bytes.toLE u64Length valueBytes.length ++ valueBytes ++ Bytes.toLE u64Length bitmapSize ++
    item.2.serializeInto format bitmapType

/-- `IntermediateItemDecoderV1::decode`: an item and the buffer advanced past it, or nothing
while the buffer does not hold a whole item. -/
def decode (src : List UInt8) :
    Except DecodeError (Option ((List UInt8 × Bitmap) × List UInt8)) :=
  if src.length < u64Length then .ok none else
  let valueLen := Bytes.ofLE (src.take u64Length)
  let buf := src.drop u64Length
  if buf.length < valueLen then .ok none else
  let valueBytes := buf.take valueLen
  let buf := buf.drop valueLen
  if buf.length < u64Length then .ok none else
  let bitmapLen := Bytes.ofLE (buf.take u64Length)
  let buf := buf.drop u64Length
  if buf.length < bitmapLen then .ok none else
  match Bitmap.deserializeFrom format (buf.take bitmapLen) bitmapType with
  | none => .error .commonIo
  | some bitmap =>
    .ok (some ((valueBytes, bitmap), src.drop (u64Length * 2 + valueLen + bitmapLen)))

/-- Items written one after another. -/
def encodeItems (items : List (List UInt8 × Bitmap)) : List UInt8 :=
  items.flatMap (encode format bitmapType)

/-- The items a `FramedRead` of the decoder returns from a stream read in `chunks`, with fuel
for every step it can take. -/
def readItems (chunks : List (List UInt8)) :
    Option (Except (Framed.ReadError DecodeError) (List (List UInt8 × Bitmap))) :=
  Framed.read (decode format bitmapType) (chunks.flatten.length + chunks.length + 1) [] chunks

/-- The lengths of an item fit the `u64`s they are written as. -/
def LengthsFit (item : List UInt8 × Bitmap) : Prop :=
  item.1.length < 2 ^ 64 ∧ (item.2.serializeInto format bitmapType).length < 2 ^ 64

/-- An item read back: the same value, and the bitmap `deserialize_from` makes of the bytes
`serialize_into` wrote. -/
def ReadsAs (item item' : List UInt8 × Bitmap) : Prop :=
  item'.1 = item.1 ∧
    Bitmap.deserializeFrom format (item.2.serializeInto format bitmapType) bitmapType = some item'.2

variable {format bitmapType}

lemma length_encode (item : List UInt8 × Bitmap) : (encode format bitmapType item).length =
    u64Length * 2 + item.1.length + (item.2.serializeInto format bitmapType).length := by
  simp only [encode, List.length_append, Bytes.length_toLE]
  omega

/-- A length read from the front of bytes that begin with its eight bytes. -/
lemma ofLE_take_u64Length {bs more tail : List UInt8} {n : ℕ}
    (h : bs ++ more = Bytes.toLE u64Length n ++ tail) (hlen : u64Length ≤ bs.length)
    (hn : n < 2 ^ 64) : Bytes.ofLE (bs.take u64Length) = n := by
  have htake : bs.take u64Length = Bytes.toLE u64Length n := by
    have := congrArg (List.take u64Length) h
    rwa [List.take_append_of_le_length hlen, List.take_left' (Bytes.length_toLE _ _)] at this
  rw [htake, Bytes.ofLE_toLE]
  exact Nat.mod_eq_of_lt hn

/-- The four parts of an encoding, the bytes after it, and the buffer they make. -/
lemma encode_append (item : List UInt8 × Bitmap) (rest : List UInt8) :
    encode format bitmapType item ++ rest = Bytes.toLE u64Length item.1.length ++
      (item.1 ++ (Bytes.toLE u64Length (item.2.serializedSize format bitmapType) ++
        (item.2.serializeInto format bitmapType ++ rest))) := by
  simp [encode, List.append_assoc]

/-- A buffer that begins with the four parts of an item reads the item, with the bitmap
`deserialize_from` makes of its bytes, and leaves the bytes after it. -/
lemma decode_parts (valueBytes bitmapBytes rest : List UInt8) (hv : valueBytes.length < 2 ^ 64)
    (hb : bitmapBytes.length < 2 ^ 64) :
    decode format bitmapType (Bytes.toLE u64Length valueBytes.length ++ (valueBytes ++
      (Bytes.toLE u64Length bitmapBytes.length ++ (bitmapBytes ++ rest)))) =
      match Bitmap.deserializeFrom format bitmapBytes bitmapType with
      | none => .error .commonIo
      | some bitmap => .ok (some ((valueBytes, bitmap), rest)) := by
  have h64 : (256 : ℕ) ^ u64Length = 2 ^ 64 := rfl
  have hdrop : (Bytes.toLE u64Length valueBytes.length ++ (valueBytes ++
      (Bytes.toLE u64Length bitmapBytes.length ++ (bitmapBytes ++ rest)))).drop
        (u64Length * 2 + valueBytes.length + bitmapBytes.length) = rest := by
    rw [show Bytes.toLE u64Length valueBytes.length ++ (valueBytes ++
        (Bytes.toLE u64Length bitmapBytes.length ++ (bitmapBytes ++ rest))) =
        (Bytes.toLE u64Length valueBytes.length ++ valueBytes ++
          Bytes.toLE u64Length bitmapBytes.length ++ bitmapBytes) ++ rest by simp]
    exact List.drop_left' (by simp; omega)
  -- each length is read where it was written, and each part is then whole
  simp only [decode, List.length_append, Bytes.length_toLE,
    List.take_left' (Bytes.length_toLE _ _), List.drop_left' (Bytes.length_toLE _ _),
    Bytes.ofLE_toLE, h64, Nat.mod_eq_of_lt hv, Nat.mod_eq_of_lt hb, List.take_left, List.drop_left]
  rw [if_neg (by omega), if_neg (by omega), if_neg (by omega), if_neg (by omega), hdrop]

/-- An item whose lengths fit is read back from its encoding followed by anything. -/
theorem decode_encode (item : List UInt8 × Bitmap) (hfit : LengthsFit format bitmapType item)
    (rest : List UInt8) : ∃ item', ReadsAs format bitmapType item item' ∧
      decode format bitmapType (encode format bitmapType item ++ rest) = .ok (some (item', rest)) := by
  obtain ⟨bitmap', hbitmap⟩ := Bitmap.exists_deserializeFrom_serializeInto format bitmapType item.2
  refine ⟨(item.1, bitmap'), ⟨rfl, hbitmap⟩, ?_⟩
  rw [encode_append, Bitmap.serializedSize_eq_length, decode_parts _ _ _ hfit.1 hfit.2, hbitmap]

/-- A strict prefix of an encoding whose lengths fit reads nothing. -/
theorem decode_of_strict_prefix (item : List UInt8 × Bitmap)
    (hfit : LengthsFit format bitmapType item) (bs more : List UInt8)
    (hbs : bs ++ more = encode format bitmapType item) (hmore : more ≠ []) :
    decode format bitmapType bs = .ok none := by
  have hsize := Bitmap.serializedSize_eq_length format bitmapType item.2
  have hshort : bs.length < u64Length * 2 + item.1.length +
      (item.2.serializeInto format bitmapType).length := by
    have hlen := congrArg List.length hbs
    have hmore' : more.length ≠ 0 := fun h => hmore (List.length_eq_zero_iff.mp h)
    rw [List.length_append, length_encode] at hlen
    omega
  have hbs' : bs ++ more = Bytes.toLE u64Length item.1.length ++ (item.1 ++
      (Bytes.toLE u64Length (item.2.serializedSize format bitmapType) ++
        item.2.serializeInto format bitmapType)) := by
    rw [hbs, ← List.append_nil (encode format bitmapType item), encode_append, List.append_nil]
  simp only [decode]
  split_ifs with h1 h2 h3 h4
  · rfl
  · rfl
  · rfl
  · rfl
  · -- every check passed: the buffer would hold the whole encoding, which it is shorter than
    exfalso
    rw [ofLE_take_u64Length hbs' (by omega) hfit.1] at h2 h3 h4
    have hafter : (bs.drop u64Length).drop item.1.length ++ more =
        Bytes.toLE u64Length (item.2.serializedSize format bitmapType) ++
          item.2.serializeInto format bitmapType := by
      have h := congrArg (fun l => (l.drop u64Length).drop item.1.length) hbs'
      simp only [List.drop_append_of_le_length (by omega : u64Length ≤ bs.length),
        List.drop_left' (Bytes.length_toLE _ _), List.drop_left] at h
      rwa [List.drop_append_of_le_length (by omega)] at h
    rw [ofLE_take_u64Length hafter (by omega) (hsize ▸ hfit.2)] at h4
    simp only [List.length_drop] at h2 h3 h4
    omega

/-- The decoder is a framing of the encoder for the items whose lengths fit. -/
theorem framing_decode : Framed.Framing (encode format bitmapType) (decode format bitmapType)
    (LengthsFit format bitmapType) (ReadsAs format bitmapType) where
  decode_encode item hfit rest := decode_encode item hfit rest
  decode_prefix item hfit bs more hbs hmore := decode_of_strict_prefix item hfit bs more hbs hmore
  decode_nil := rfl

lemma length_le_encodeItems (items : List (List UInt8 × Bitmap)) :
    items.length ≤ (encodeItems format bitmapType items).length := by
  induction items with
  | nil => simp [encodeItems]
  | cons item items ih =>
    have hitem : (encode format bitmapType item).length = u64Length * 2 + item.1.length +
        (item.2.serializeInto format bitmapType).length := length_encode item
    simp only [encodeItems, List.flatMap_cons, List.length_append, List.length_cons] at ih ⊢
    simp only [u64Length] at hitem
    omega

/-- Items whose lengths fit, written one after another and read back in chunks cut anywhere,
come back with their values and with what `deserialize_from` makes of their bitmaps. -/
theorem read_encodeItems (items : List (List UInt8 × Bitmap))
    (hfit : ∀ item ∈ items, LengthsFit format bitmapType item) (chunks : List (List UInt8))
    (hchunks : chunks.flatten = encodeItems format bitmapType items) :
    ∃ items', List.Forall₂ (ReadsAs format bitmapType) items items' ∧
      readItems format bitmapType chunks = some (.ok items') := by
  have hitems : items.length ≤ (encodeItems format bitmapType items).length :=
    length_le_encodeItems items
  exact Framed.read_encodings framing_decode _ items hfit [] chunks
    (by rw [List.nil_append, hchunks]; rfl) (by rw [hchunks]; omega)

/-- Items read back with the ones of the bitmaps written, where each bitmap is written as
roaring or holds no ones past its length. -/
lemma map_ones_of_forall₂ {items items' : List (List UInt8 × Bitmap)}
    (hR : List.Forall₂ (ReadsAs format bitmapType) items items')
    (hgood : ∀ item ∈ items, bitmapType = .roaring ∨ item.2.Clean) :
    items'.map (fun item => (item.1, item.2.ones)) =
      items.map (fun item => (item.1, item.2.ones)) := by
  induction hR with
  | nil => rfl
  | @cons a a' items items' hRa _ ih =>
    have hones : a'.2.ones = a.2.ones := by
      have h := Bitmap.ones_deserializeFrom_serializeInto format bitmapType a.2
        (hgood a List.mem_cons_self)
      rw [hRa.2, Option.map_some] at h
      exact Option.some.inj h
    rw [List.map_cons, List.map_cons, ih (fun item hitem => hgood item (List.mem_cons_of_mem a hitem)),
      hRa.1, hones]

/-- Items whose lengths fit and whose bitmaps are written as roaring or hold no ones past
their length, written one after another and read back in chunks cut anywhere, come back with
their values and the ones of their bitmaps. -/
theorem readItems_encodeItems (items : List (List UInt8 × Bitmap))
    (hfit : ∀ item ∈ items, LengthsFit format bitmapType item)
    (hclean : bitmapType = .roaring ∨ ∀ item ∈ items, item.2.Clean)
    (chunks : List (List UInt8)) (hchunks : chunks.flatten = encodeItems format bitmapType items) :
    ∃ items', readItems format bitmapType chunks = some (.ok items') ∧
      items'.map (fun item => (item.1, item.2.ones)) =
        items.map (fun item => (item.1, item.2.ones)) := by
  obtain ⟨items', hR, hread⟩ := read_encodeItems items hfit chunks hchunks
  exact ⟨items', hread, map_ones_of_forall₂ hR fun item hitem =>
    hclean.imp id fun h => h item hitem⟩

/-- Intermediate files are written and read with roaring bitmaps: `IntermediateWriter::write_all`
and `IntermediateReader::into_stream` build the encoder and the decoder with
`BitmapType::Roaring`.  With them, items whose lengths fit, written one after another and read
back in chunks cut anywhere, come back with their values and the ones of their bitmaps; and a
strict prefix of an item's encoding reads nothing. -/
theorem intermediateCodec_roaring_roundTrip (format : RoaringFormat)
    (items : List (List UInt8 × Bitmap)) (hfit : ∀ item ∈ items, LengthsFit format .roaring item)
    (chunks : List (List UInt8)) (hchunks : chunks.flatten = encodeItems format .roaring items) :
    (∃ items', readItems format .roaring chunks = some (.ok items') ∧
      items'.map (fun item => (item.1, item.2.ones)) =
        items.map (fun item => (item.1, item.2.ones))) ∧
    ∀ item ∈ items, ∀ bs more : List UInt8, bs ++ more = encode format .roaring item →
      more ≠ [] → decode format .roaring bs = .ok none :=
  ⟨readItems_encodeItems items hfit (.inl rfl) chunks hchunks,
    fun item hitem bs more hbs hmore =>
      decode_of_strict_prefix item (hfit item hitem) bs more hbs hmore⟩

/-- Two items, the first with a bit vector, written as roaring and read back in two chunks cut
inside the first item's value length. -/
theorem intermediateCodec_roaring_roundTrip_twoItems :
    (∀ item ∈ [([7, 8], Bitmap.fromLsb0Bytes [5] .bitVec), ([], Bitmap.roaring {1, 9})],
      LengthsFit Bitmap.lsb0Format .roaring item) ∧
    ([(encodeItems Bitmap.lsb0Format .roaring
          [([7, 8], Bitmap.fromLsb0Bytes [5] .bitVec), ([], Bitmap.roaring {1, 9})]).take 3,
        (encodeItems Bitmap.lsb0Format .roaring
          [([7, 8], Bitmap.fromLsb0Bytes [5] .bitVec), ([], Bitmap.roaring {1, 9})]).drop 3]).flatten =
      encodeItems Bitmap.lsb0Format .roaring
        [([7, 8], Bitmap.fromLsb0Bytes [5] .bitVec), ([], Bitmap.roaring {1, 9})] ∧
    ((∃ items', readItems Bitmap.lsb0Format .roaring
        [(encodeItems Bitmap.lsb0Format .roaring
            [([7, 8], Bitmap.fromLsb0Bytes [5] .bitVec), ([], Bitmap.roaring {1, 9})]).take 3,
          (encodeItems Bitmap.lsb0Format .roaring
            [([7, 8], Bitmap.fromLsb0Bytes [5] .bitVec), ([], Bitmap.roaring {1, 9})]).drop 3] =
          some (.ok items') ∧
        items'.map (fun item => (item.1, item.2.ones)) =
          [([7, 8], Bitmap.fromLsb0Bytes [5] .bitVec), ([], Bitmap.roaring {1, 9})].map
            (fun item => (item.1, item.2.ones))) ∧
      ∀ item ∈ [([7, 8], Bitmap.fromLsb0Bytes [5] .bitVec), ([], Bitmap.roaring {1, 9})],
        ∀ bs more : List UInt8, bs ++ more = encode Bitmap.lsb0Format .roaring item →
          more ≠ [] → decode Bitmap.lsb0Format .roaring bs = .ok none) := by
  have hfit : ∀ item ∈ [([7, 8], Bitmap.fromLsb0Bytes [5] .bitVec), ([], Bitmap.roaring {1, 9})],
      LengthsFit Bitmap.lsb0Format .roaring item := by
    intro item hitem
    simp only [List.mem_cons, List.not_mem_nil, or_false] at hitem
    rcases hitem with rfl | rfl <;> exact ⟨by decide, by decide⟩
  exact ⟨hfit, List.take_append_drop _ _,
    intermediateCodec_roaring_roundTrip _ _ hfit _ (List.take_append_drop _ _)⟩

end IntermediateCodec

end Greptime
