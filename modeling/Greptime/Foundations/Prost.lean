import Greptime.Foundations.Protobuf

/-!
# The decoders of `prost::encoding`

`decode_varint`, `decode_key`, `skip_field` and the read of a `double` as `prost` 0.13 writes
them, and the proof that they are a `Decoder`: they read forward and read back what the
encoders write.

The workspace builds `prost` with its `no-recursion-limit` feature, so the `DecodeContext` a
decoder passes on counts nothing and `skip_field` never fails for depth.  A group is skipped
field by field up to its end key, and `skipGroups` keeps the tags of the groups still open on a
stack where `skip_field` recurses.  `decodeKey_length_lt` and `skipValue_length_le` say that
decoding moves forward; the loop over groups terminates by them.

Nothing here names a program.
-/

namespace Greptime

namespace Protobuf

namespace Prost

/-- `WireType::try_from` on the three low bits of a key. -/
def WireType.tryFrom : ℕ → Except DecodeError WireType
  | 0 => .ok .varint
  | 1 => .ok .sixtyFourBit
  | 2 => .ok .lengthDelimited
  | 3 => .ok .startGroup
  | 4 => .ok .endGroup
  | 5 => .ok .thirtyTwoBit
  | value => .error (.new ("invalid wire type value: " ++ toString value))

/-- The varint of the bytes from the `count`-th byte of the varint on.  The tenth byte
holds the top bit of a `u64` only. -/
def decodeVarintFrom : ℕ → Bytes → Except DecodeError (ℕ × Bytes)
  | _, [] => .error (.new "invalid varint")
  | count, b :: rest =>
    if b < 0x80 then
      if count = 9 ∧ 0x02 ≤ b then .error (.new "invalid varint") else .ok (b.toNat, rest)
    else if count = 9 then .error (.new "invalid varint")
    else
      match decodeVarintFrom (count + 1) rest with
      | .ok (value, rest) => .ok ((b - 0x80).toNat + 128 * value, rest)
      | .error e => .error e

/-- `decode_varint`. -/
def decodeVarint (buf : Bytes) : Except DecodeError (ℕ × Bytes) := decodeVarintFrom 0 buf

/-- `decode_key`: the tag and the wire type. -/
def decodeKey (buf : Bytes) : Except DecodeError (ℕ × WireType × Bytes) :=
  match decodeVarint buf with
  | .error e => .error e
  | .ok (key, rest) =>
    if key > 4294967295 then .error (.new ("invalid key value: " ++ toString key))
    else match WireType.tryFrom (key % 8) with
      | .error e => .error e
      | .ok wireType =>
        if key / 8 < 1 then .error (.new "invalid tag value: 0") else .ok (key / 8, wireType, rest)

/-- `buf.advance(len)` after the check of `skip_field`. -/
def advance (len : ℕ) (buf : Bytes) : Except DecodeError Bytes :=
  if len > buf.length then .error (.new "buffer underflow") else .ok (buf.drop len)

/-- `skip_field` on a value that is not a group.  A group is skipped by `skipGroups`, and
this answers for its start key as for an empty value. -/
def skipValue : WireType → Bytes → Except DecodeError Bytes
  | .varint, buf =>
    match decodeVarint buf with
    | .ok (_, rest) => advance 0 rest
    | .error e => .error e
  | .thirtyTwoBit, buf => advance 4 buf
  | .sixtyFourBit, buf => advance 8 buf
  | .lengthDelimited, buf =>
    match decodeVarint buf with
    | .ok (len, rest) => advance len rest
    | .error e => .error e
  | .startGroup, buf => .ok buf
  | .endGroup, _ => .error (.new "unexpected end group tag")

lemma decodeVarintFrom_length_lt :
    ∀ {count : ℕ} {buf rest : Bytes} {value : ℕ},
      decodeVarintFrom count buf = .ok (value, rest) → rest.length < buf.length
  | _, [], _, _, h => by simp [decodeVarintFrom] at h
  | count, b :: bs, rest, value, h => by
    unfold decodeVarintFrom at h
    by_cases hb : b < 0x80
    · -- the last byte of the varint
      rw [if_pos hb] at h
      split_ifs at h
      cases h
      simp
    · rw [if_neg hb] at h
      split_ifs at h
      split at h
      · rename_i v r hr
        cases h
        have := decodeVarintFrom_length_lt hr
        simp only [List.length_cons]
        omega
      · cases h

lemma decodeVarint_length_lt {buf rest : Bytes} {value : ℕ}
    (h : decodeVarint buf = .ok (value, rest)) : rest.length < buf.length :=
  decodeVarintFrom_length_lt h

lemma decodeKey_length_lt {buf rest : Bytes} {tag : ℕ} {wireType : WireType}
    (h : decodeKey buf = .ok (tag, wireType, rest)) : rest.length < buf.length := by
  unfold decodeKey at h
  split at h
  · cases h
  · rename_i key r hkey
    rw [if_neg (by intro hbig; rw [if_pos hbig] at h; cases h)] at h
    split at h
    · cases h
    · rw [if_neg (by intro htag; rw [if_pos htag] at h; cases h)] at h
      cases h
      exact decodeVarint_length_lt hkey

lemma advance_length_le {len : ℕ} {buf rest : Bytes} (h : advance len buf = .ok rest) :
    rest.length ≤ buf.length := by
  unfold advance at h
  split_ifs at h
  cases h
  simp

lemma skipValue_length_le {wireType : WireType} {buf rest : Bytes}
    (h : skipValue wireType buf = .ok rest) : rest.length ≤ buf.length := by
  cases wireType <;> simp only [skipValue] at h
  case varint | lengthDelimited =>
    split at h
    · rename_i v r hv
      exact Nat.le_trans (advance_length_le h) (Nat.le_of_lt (decodeVarint_length_lt hv))
    · cases h
  case thirtyTwoBit | sixtyFourBit => exact advance_length_le h
  case startGroup =>
    cases h
    exact Nat.le_refl _
  case endGroup => cases h

-- `h` and `h'` are read by the termination proof only
set_option linter.unusedVariables false in
/-- The `StartGroup` loop of `skip_field`: the fields of the innermost open group up to its
end key.  `groups` holds the tags of the open groups, innermost first; a start key inside
opens one more, as the recursive `skip_field` does. -/
def skipGroups : List ℕ → Bytes → Except DecodeError Bytes
  | [], buf => .ok buf
  | tag :: groups, buf =>
    match h : decodeKey buf with
    | .error e => .error e
    | .ok (innerTag, innerWireType, rest) =>
      if innerWireType = .endGroup then
        if innerTag ≠ tag then .error (.new "unexpected end group tag")
        else skipGroups groups rest
      else if innerWireType = .startGroup then skipGroups (innerTag :: tag :: groups) rest
      else
        match h' : skipValue innerWireType rest with
        | .error e => .error e
        | .ok rest' => skipGroups (tag :: groups) rest'
termination_by _ buf => buf.length
decreasing_by
  all_goals have := decodeKey_length_lt h
  · exact this
  · exact this
  · exact Nat.lt_of_le_of_lt (skipValue_length_le h') this

/-- `skip_field`. -/
def skipField (wireType : WireType) (tag : ℕ) (buf : Bytes) : Except DecodeError Bytes :=
  if wireType = .startGroup then skipGroups [tag] buf else skipValue wireType buf

/-- The read of `double::merge`, and of any fixed-width value: the bytes, little-endian, and
the rest (`get_f64_le` and the like after the check of the remaining length). -/
def fixedLE (width : ℕ) (buf : Bytes) : Except DecodeError (ℕ × Bytes) :=
  if buf.length < width then .error (.new "buffer underflow")
  else .ok ((buf.take width).foldr (fun b acc => b.toNat + 256 * acc) 0, buf.drop width)

/-! ## Reading back what the encoders write -/

/-- A last byte: below `0x80`, and at the tenth place at most `1`. -/
lemma decodeVarintFrom_last {count n : ℕ} (hn : n < 0x80) (hlast : count = 9 → n < 2)
    (rest : Bytes) : decodeVarintFrom count (UInt8.ofNat n :: rest) = .ok (n, rest) := by
  have hb : (UInt8.ofNat n).toNat = n := by
    rw [UInt8.toNat_ofNat']
    omega
  have hlt : UInt8.ofNat n < 0x80 := by
    rw [UInt8.lt_iff_toNat_lt, hb]
    exact hn
  have hcheck : ¬ (count = 9 ∧ 0x02 ≤ UInt8.ofNat n) := by
    rintro ⟨h9, hle⟩
    rw [UInt8.le_iff_toNat_le, hb] at hle
    have := hlast h9
    simp at hle
    omega
  rw [decodeVarintFrom, if_pos hlt, if_neg hcheck, hb]

/-- A continued byte, before the tenth place: its low seven bits, and the varint of the rest
one place on. -/
lemma decodeVarintFrom_continued {count m : ℕ} (hm : m < 0x80) (hcount : count ≠ 9)
    (rest : Bytes) :
    decodeVarintFrom count (UInt8.ofNat (m + 0x80) :: rest) =
      match decodeVarintFrom (count + 1) rest with
      | .ok (value, rest) => .ok (m + 128 * value, rest)
      | .error e => .error e := by
  have hb : (UInt8.ofNat (m + 0x80)).toNat = m + 0x80 := by
    rw [UInt8.toNat_ofNat']
    omega
  have hge : ¬ UInt8.ofNat (m + 0x80) < 0x80 := by
    rw [UInt8.lt_iff_toNat_lt, hb]
    simp
  have hlow : (UInt8.ofNat (m + 0x80) - 0x80).toNat = m := by
    rw [UInt8.toNat_sub_of_le _ _ (by rw [UInt8.le_iff_toNat_le, hb]; simp), hb]
    simp
  rw [decodeVarintFrom, if_neg hge, if_neg hcount, hlow]

/-- The bytes of a varint from the `count`-th on, when `k` bytes may still follow: the
decoder reads the value back. -/
lemma decodeVarintFrom_encodeVarintFuel (rest : Bytes) :
    ∀ (k count n : ℕ), count + k = 9 → n < 2 ^ (7 * k + 1) →
      decodeVarintFrom count (encodeVarintFuel k n ++ rest) = .ok (n, rest)
  | 0, count, n, hcount, hn => by
    rw [encodeVarintFuel, List.singleton_append]
    exact decodeVarintFrom_last (by omega) (fun _ => by simpa using hn) rest
  | k + 1, count, n, hcount, hn => by
    rw [encodeVarintFuel]
    split_ifs with hsmall
    · rw [List.singleton_append]
      exact decodeVarintFrom_last hsmall (fun h => by omega) rest
    · -- a continued byte, then the varint of `n / 0x80` one place on
      have hhigh : n / 0x80 < 2 ^ (7 * k + 1) := by
        have hpow : 2 ^ (7 * (k + 1) + 1) = 2 ^ (7 * k + 1) * 0x80 := by
          rw [show 7 * (k + 1) + 1 = 7 * k + 1 + 7 by ring, pow_add]
          norm_num
        rw [Nat.div_lt_iff_lt_mul (by norm_num), ← hpow]
        exact hn
      have ih := decodeVarintFrom_encodeVarintFuel rest k (count + 1) (n / 0x80) (by omega) hhigh
      rw [List.cons_append, decodeVarintFrom_continued (Nat.mod_lt n (by norm_num)) (by omega), ih]
      dsimp only
      congr 2
      omega

lemma decodeVarint_encodeVarint {n : ℕ} (hn : n < 2 ^ 64) (rest : Bytes) :
    decodeVarint (encodeVarint n ++ rest) = .ok (n, rest) :=
  decodeVarintFrom_encodeVarintFuel rest 9 0 n rfl hn

lemma WireType.tryFrom_code (w : Protobuf.WireType) : WireType.tryFrom w.code = .ok w := by
  cases w <;> rfl

lemma decodeKey_encodeKey {tag : ℕ} (htag : ValidTag tag) (wireType : Protobuf.WireType)
    (rest : Bytes) : decodeKey (encodeKey tag wireType ++ rest) = .ok (tag, wireType, rest) := by
  obtain ⟨h1, h29⟩ := htag
  have hcode := wireType.code_lt
  have hmod : (tag * 8 + wireType.code) % 8 = wireType.code := by omega
  have hdiv : (tag * 8 + wireType.code) / 8 = tag := by omega
  unfold decodeKey encodeKey
  rw [decodeVarint_encodeVarint (by omega)]
  simp only
  rw [if_neg (by omega), hmod, WireType.tryFrom_code]
  simp only
  rw [hdiv, if_neg (by omega)]

lemma skipField_lengthDelimited (tag : ℕ) {payload : Bytes} (hlen : payload.length < 2 ^ 64)
    (rest : Bytes) :
    skipField .lengthDelimited tag (lengthDelimited payload ++ rest) = .ok rest := by
  unfold skipField
  rw [if_neg (by decide)]
  simp only [skipValue, lengthDelimited, List.append_assoc, decodeVarint_encodeVarint hlen,
    advance, List.length_append]
  rw [if_neg (by omega), List.drop_left]

/-- The bytes of a number, little-endian, as `fixedLE` reads them. -/
lemma fixedLE_toLE (w n : ℕ) (rest : Bytes) :
    fixedLE w (Greptime.Bytes.toLE w n ++ rest) = .ok (n % 256 ^ w, rest) := by
  have hfold : ∀ l : Bytes,
      l.foldr (fun b acc => b.toNat + 256 * acc) 0 = Greptime.Bytes.ofLE l := by
    intro l
    induction l with
    | nil => rfl
    | cons b l ih => rw [List.foldr_cons, ih, Greptime.Bytes.ofLE]
  unfold fixedLE
  rw [if_neg (by simp), List.take_left' (Greptime.Bytes.length_toLE w n),
    List.drop_left' (Greptime.Bytes.length_toLE w n), hfold, Greptime.Bytes.ofLE_toLE]

/-- The decoders of `prost` 0.13. -/
def decoder : Decoder where
  decodeVarint := decodeVarint
  decodeKey := decodeKey
  skipField := skipField
  decodeFixed64 := fixedLE 8
  decodeKey_length_lt := decodeKey_length_lt
  decodeVarint_encodeVarint := decodeVarint_encodeVarint
  decodeKey_encodeKey := decodeKey_encodeKey
  skipField_lengthDelimited := skipField_lengthDelimited
  decodeFixed64_toLE := fixedLE_toLE 8

end Prost

end Protobuf

end Greptime
