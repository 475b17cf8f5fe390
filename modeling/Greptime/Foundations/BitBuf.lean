import Mathlib

/-!
# Bit vectors stored in bytes, with the bits past their length

A `BitBuf` is a vector of bits kept in bytes, least significant bit first (`Lsb0`): the bits
`raw` of the bytes that hold its `len` live bits.  The bits of the last byte past `len` are
dead.  An operation on the live bits never reads them, but they are in the bytes, and what
reads the bytes (`asRawSlice`, then `fromSlice`) sees them as bits like the others.

* `truncate` only lowers the length: the dead bits of the last byte kept are the bits that
  were live there.  `resize` sets the bits it brings to life; the bytes a growth adds hold
  zeros.
* `orAssign` and `andAssign` combine the live bits, the other vector read as zero past its
  length; the dead bits stay.
* `isEmpty` is the length being zero, not the bits being zero.

A vector whose dead bits are all zero is `Clean`; `fromSlice` gives back its bits from its
bytes (`ones_fromSlice_asRawSlice`).  The bits of a byte are read with `toBits` and written
with `ofBits`, as `Bytes.toLE` and `Bytes.ofLE` do for the bytes of a number.

Nothing here names a program.
-/

namespace Greptime

/-! ## Bits and bytes -/

/-- The bytes that hold `n` bits. -/
def bytesFor (n : ℕ) : ℕ := (n + 7) / 8

/-- The number that bits stand for, least significant first. -/
def ofBits : List Bool → ℕ
  | [] => 0
  | b :: bs => b.toNat + 2 * ofBits bs

/-- The `w` low bits of `n`, least significant first. -/
def toBits : ℕ → ℕ → List Bool
  | 0, _ => []
  | w + 1, n => decide (n % 2 = 1) :: toBits w (n / 2)

/-- Bits packed into `n` bytes, eight to a byte, the first bit the least significant. -/
def packBytes : ℕ → List Bool → List UInt8
  | 0, _ => []
  | n + 1, bits => UInt8.ofNat (ofBits (bits.take 8)) :: packBytes n (bits.drop 8)

/-- The bits of bytes, eight to a byte, the least significant first. -/
def unpackBytes (bytes : List UInt8) : List Bool := bytes.flatMap fun b => toBits 8 b.toNat

@[simp] lemma length_toBits (w n : ℕ) : (toBits w n).length = w := by
  induction w generalizing n with
  | zero => rfl
  | succ w ih => simp [toBits, ih]

lemma ofBits_lt (bs : List Bool) : ofBits bs < 2 ^ bs.length := by
  induction bs with
  | nil => simp [ofBits]
  | cons b bs ih =>
    have hb : b.toNat ≤ 1 := Bool.toNat_le b
    rw [ofBits, List.length_cons, Nat.pow_succ]
    omega

lemma toBits_ofBits (bs : List Bool) : toBits bs.length (ofBits bs) = bs := by
  induction bs with
  | nil => rfl
  | cons b bs ih =>
    have hb : b.toNat ≤ 1 := Bool.toNat_le b
    have hmod : (b.toNat + 2 * ofBits bs) % 2 = b.toNat := by omega
    have hdiv : (b.toNat + 2 * ofBits bs) / 2 = ofBits bs := by omega
    rw [List.length_cons, toBits, ofBits, hmod, hdiv, ih]
    cases b <;> rfl

@[simp] lemma length_packBytes (n : ℕ) (bits : List Bool) : (packBytes n bits).length = n := by
  induction n generalizing bits with
  | zero => rfl
  | succ n ih => simp [packBytes, ih]

@[simp] lemma length_unpackBytes (bytes : List UInt8) :
    (unpackBytes bytes).length = 8 * bytes.length := by
  induction bytes with
  | nil => rfl
  | cons b bytes ih =>
    simp only [unpackBytes, List.flatMap_cons, List.length_append, length_toBits] at ih ⊢
    rw [ih, List.length_cons]
    omega

@[simp] lemma unpackBytes_nil : unpackBytes [] = [] := rfl

lemma unpackBytes_cons (b : UInt8) (bytes : List UInt8) :
    unpackBytes (b :: bytes) = toBits 8 b.toNat ++ unpackBytes bytes := rfl

/-- Eight bits written to a byte read back as themselves. -/
lemma toBits_byte {bits : List Bool} (h : bits.length = 8) :
    toBits 8 (UInt8.ofNat (ofBits bits)).toNat = bits := by
  have hlt : ofBits bits < 256 := by simpa [h] using ofBits_lt bits
  rw [UInt8.toNat_ofNat', Nat.mod_eq_of_lt hlt, ← h, toBits_ofBits]

/-- Bits packed into bytes unpack to themselves. -/
lemma unpackBytes_packBytes (n : ℕ) {bits : List Bool} (h : bits.length = 8 * n) :
    unpackBytes (packBytes n bits) = bits := by
  induction n generalizing bits with
  | zero =>
    have hnil : bits = [] := List.eq_nil_of_length_eq_zero (by simpa using h)
    simp [packBytes, hnil]
  | succ n ih =>
    have htake : (bits.take 8).length = 8 := by simp; omega
    have hdrop : (bits.drop 8).length = 8 * n := by simp; omega
    rw [packBytes, unpackBytes_cons, toBits_byte htake, ih hdrop, List.take_append_drop]

/-! ## Bits given position by position -/

/-- Bit `i` of `(List.range n).map f`, read as zero past the end. -/
lemma getD_map_range (n i : ℕ) (f : ℕ → Bool) :
    ((List.range n).map f).getD i false = (decide (i < n) && f i) := by
  by_cases h : i < n
  · simp [h]
  · simp [h]

lemma getD_eq_false_of_le {l : List Bool} {i : ℕ} (h : l.length ≤ i) : l.getD i false = false :=
  List.getD_eq_default _ _ h

lemma bytesFor_mono {m n : ℕ} (h : m ≤ n) : bytesFor m ≤ bytesFor n :=
  Nat.div_le_div_right (by omega)

lemma le_eight_mul_bytesFor (n : ℕ) : n ≤ 8 * bytesFor n := by
  unfold bytesFor
  omega

@[simp] lemma bytesFor_eight_mul (k : ℕ) : bytesFor (8 * k) = k := by
  unfold bytesFor
  omega

/-! ## The vector -/

/-- A vector of `len` bits kept in the bytes `raw` holds, least significant bit first. -/
structure BitBuf where
  /-- The bits of the bytes that hold the live bits. -/
  raw : List Bool
  /-- The number of live bits. -/
  len : ℕ
  length_raw : raw.length = 8 * bytesFor len
  deriving DecidableEq

namespace BitBuf

variable (bv : BitBuf)

/-- The empty vector. -/
def empty : BitBuf := ⟨[], 0, rfl⟩

/-- `n` live bits, the bytes that hold them filled with `bit`. -/
def «repeat» (bit : Bool) (n : ℕ) : BitBuf := ⟨List.replicate (8 * bytesFor n) bit, n, by simp⟩

/-- Bit `i`, as the operations on live bits read it: zero past the length. -/
def bit (i : ℕ) : Bool := decide (i < bv.len) && bv.raw.getD i false

/-- Sets bit `i` (a live bit at each use). -/
def set (i : ℕ) (b : Bool) : BitBuf := ⟨bv.raw.set i b, bv.len, by simp [bv.length_raw]⟩

lemma length_take_raw {n : ℕ} (h : n < bv.len) :
    (bv.raw.take (8 * bytesFor n)).length = 8 * bytesFor n := by
  have hle : bytesFor n ≤ bytesFor bv.len := bytesFor_mono h.le
  simp only [List.length_take, bv.length_raw]
  omega

/-- Shortening to `n` bits: the bytes past the new last byte go, the bits in it stay. -/
def truncate (n : ℕ) : BitBuf :=
  if h : n < bv.len then ⟨bv.raw.take (8 * bytesFor n), n, bv.length_take_raw h⟩ else bv

/-- Growing to `n` bits sets the new live bits to `value`; shrinking truncates. -/
def resize (n : ℕ) (value : Bool) : BitBuf :=
  if bv.len < n then
    ⟨(List.range (8 * bytesFor n)).map fun i =>
      if bv.len ≤ i ∧ i < n then value else bv.raw.getD i false, n, by simp⟩
  else bv.truncate n

/-- `self |= rhs`: the live bits of `self` or-ed with those of `rhs`. -/
def orAssign (self rhs : BitBuf) : BitBuf :=
  ⟨(List.range self.raw.length).map fun i =>
    if i < self.len then self.raw.getD i false || rhs.bit i else self.raw.getD i false,
    self.len, by simp [self.length_raw]⟩

/-- `self &= rhs`: the live bits of `self` and-ed with those of `rhs`. -/
def andAssign (self rhs : BitBuf) : BitBuf :=
  ⟨(List.range self.raw.length).map fun i =>
    if i < self.len then self.raw.getD i false && rhs.bit i else self.raw.getD i false,
    self.len, by simp [self.length_raw]⟩

/-- The zeros at the end of the live bits. -/
def trailingZeros : ℕ := ((bv.raw.take bv.len).rtakeWhile fun b => !b).length

/-- The positions of the live ones, in increasing order. -/
def iterOnes : List ℕ := (List.range bv.len).filter fun i => bv.raw.getD i false

/-- The positions of the live ones. -/
def ones : Finset ℕ := bv.iterOnes.toFinset

/-- The number of live ones. -/
def countOnes : ℕ := bv.iterOnes.length

/-- No live bits: a test of the length. -/
def isEmpty : Bool := bv.len == 0

/-- The bytes that hold the live bits, dead bits included. -/
def asRawSlice : List UInt8 := packBytes (bytesFor bv.len) bv.raw

/-- The bits of bytes, all of them live. -/
def fromSlice (bytes : List UInt8) : BitBuf := ⟨unpackBytes bytes, 8 * bytes.length, by simp⟩

/-- The dead bits are zero. -/
def Clean : Prop := ∀ b ∈ bv.raw.drop bv.len, b = false

instance : Decidable bv.Clean := inferInstanceAs (Decidable (∀ b ∈ _, _))

/-! ### Bits after each operation -/

variable {bv}

@[simp] lemma len_set (i : ℕ) (b : Bool) : (bv.set i b).len = bv.len := rfl

@[simp] lemma len_orAssign (rhs : BitBuf) : (bv.orAssign rhs).len = bv.len := rfl

@[simp] lemma len_andAssign (rhs : BitBuf) : (bv.andAssign rhs).len = bv.len := rfl

@[simp] lemma len_fromSlice (bytes : List UInt8) : (fromSlice bytes).len = 8 * bytes.length := rfl

@[simp] lemma len_repeat (b : Bool) (n : ℕ) : (BitBuf.repeat b n).len = n := rfl

lemma len_truncate (n : ℕ) : (bv.truncate n).len = min n bv.len := by
  unfold truncate
  split_ifs with h
  · exact (min_eq_left h.le).symm
  · exact (min_eq_right (not_lt.mp h)).symm

lemma len_resize (n : ℕ) (value : Bool) : (bv.resize n value).len = n := by
  unfold resize
  split_ifs with h
  · rfl
  · rw [len_truncate, min_eq_left (not_lt.mp h)]

lemma getD_raw_set {i j : ℕ} (hi : i < bv.raw.length) (b : Bool) :
    (bv.set i b).raw.getD j false = if j = i then b else bv.raw.getD j false := by
  simp only [set, List.getD_eq_getElem?_getD, List.getElem?_set]
  by_cases hji : j = i
  · simp [hji, hi]
  · simp [Ne.symm hji, hji]

lemma getD_raw_truncate {n i : ℕ} (hn : n < bv.len) (hin : i < 8 * bytesFor n) :
    (bv.truncate n).raw.getD i false = bv.raw.getD i false := by
  simp only [truncate, hn, dite_true, List.getD_eq_getElem?_getD, List.getElem?_take, hin, if_true]

lemma getD_raw_orAssign (rhs : BitBuf) (i : ℕ) : (bv.orAssign rhs).raw.getD i false =
    if i < bv.len then bv.raw.getD i false || rhs.bit i else bv.raw.getD i false := by
  rw [orAssign, getD_map_range]
  by_cases h : i < bv.raw.length
  · simp [h]
  · have hlen : bv.len ≤ i := by have := le_eight_mul_bytesFor bv.len; rw [bv.length_raw] at h; omega
    simp [h, not_lt.mpr hlen]

lemma getD_raw_andAssign (rhs : BitBuf) (i : ℕ) : (bv.andAssign rhs).raw.getD i false =
    if i < bv.len then bv.raw.getD i false && rhs.bit i else bv.raw.getD i false := by
  rw [andAssign, getD_map_range]
  by_cases h : i < bv.raw.length
  · simp [h]
  · have hlen : bv.len ≤ i := by have := le_eight_mul_bytesFor bv.len; rw [bv.length_raw] at h; omega
    simp [h, not_lt.mpr hlen]

/-! ### The live ones -/

lemma mem_iterOnes {i : ℕ} : i ∈ bv.iterOnes ↔ i < bv.len ∧ bv.raw.getD i false = true := by
  simp [iterOnes]

lemma mem_ones {i : ℕ} : i ∈ bv.ones ↔ i < bv.len ∧ bv.raw.getD i false = true := by
  rw [ones, List.mem_toFinset, mem_iterOnes]

lemma mem_ones_iff_bit {i : ℕ} : i ∈ bv.ones ↔ bv.bit i = true := by
  simp [mem_ones, bit]

lemma lt_len_of_mem_ones {i : ℕ} (h : i ∈ bv.ones) : i < bv.len := (mem_ones.mp h).1

/-- The ones come in increasing order. -/
lemma pairwise_lt_iterOnes : bv.iterOnes.Pairwise (· < ·) :=
  List.pairwise_lt_range.filter _

lemma countOnes_eq_card : bv.countOnes = bv.ones.card :=
  (List.toFinset_card_of_nodup pairwise_lt_iterOnes.nodup).symm

lemma ones_eq_empty_of_len_eq_zero (h : bv.len = 0) : bv.ones = ∅ := by
  ext i
  simp only [mem_ones, h, Finset.notMem_empty, iff_false]
  omega

@[simp] lemma ones_empty : empty.ones = ∅ := ones_eq_empty_of_len_eq_zero rfl

lemma ones_repeat_false (n : ℕ) : (BitBuf.repeat false n).ones = ∅ := by
  ext i
  simp [mem_ones, BitBuf.repeat]

/-- Setting a live bit adds its position. -/
lemma ones_set_true {i : ℕ} (hi : i < bv.len) : (bv.set i true).ones = insert i bv.ones := by
  have hraw : i < bv.raw.length := by
    rw [bv.length_raw]; exact lt_of_lt_of_le hi (le_eight_mul_bytesFor _)
  ext j
  rw [mem_ones, len_set, getD_raw_set hraw, Finset.mem_insert, mem_ones]
  by_cases hji : j = i
  · simp [hji, hi]
  · simp [hji]

/-- Truncating keeps the ones below the new length. -/
lemma ones_truncate (n : ℕ) : (bv.truncate n).ones = bv.ones.filter (· < n) := by
  ext i
  rw [Finset.mem_filter, mem_ones, mem_ones, len_truncate]
  by_cases hn : n < bv.len
  · constructor
    · rintro ⟨hi, hbit⟩
      have hin : i < 8 * bytesFor n := lt_of_lt_of_le (lt_of_lt_of_le hi (min_le_left _ _))
        (le_eight_mul_bytesFor n)
      have hlt : i < n := lt_of_lt_of_le hi (min_le_left _ _)
      rw [getD_raw_truncate hn hin] at hbit
      exact ⟨⟨by omega, hbit⟩, hlt⟩
    · rintro ⟨⟨hi, hbit⟩, hlt⟩
      have hin : i < 8 * bytesFor n := lt_of_lt_of_le hlt (le_eight_mul_bytesFor n)
      rw [getD_raw_truncate hn hin]
      exact ⟨lt_min hlt hi, hbit⟩
  · have htr : bv.truncate n = bv := by simp [truncate, hn]
    rw [htr, min_eq_right (not_lt.mp hn)]
    constructor
    · rintro ⟨hi, hbit⟩
      exact ⟨⟨hi, hbit⟩, by omega⟩
    · rintro ⟨h, -⟩
      exact h

/-- Growing with zeros adds no ones. -/
lemma ones_resize_false {n : ℕ} (hn : bv.len ≤ n) : (bv.resize n false).ones = bv.ones := by
  rcases hn.lt_or_eq with hlt | rfl
  · ext i
    simp only [mem_ones, resize, hlt, if_true, getD_map_range]
    by_cases hil : i < bv.len
    · have hin : i < 8 * bytesFor n := lt_of_lt_of_le (hil.trans hlt) (le_eight_mul_bytesFor n)
      simp [hil, hin, hil.trans hlt, not_le.mpr hil]
    · simp only [hil, false_and, iff_false]
      rintro ⟨hi, h⟩
      simp [not_lt.mp hil, hi] at h
  · simp [resize, truncate]

lemma ones_orAssign (rhs : BitBuf) :
    (bv.orAssign rhs).ones = bv.ones ∪ rhs.ones.filter (· < bv.len) := by
  ext i
  simp only [mem_ones, len_orAssign, getD_raw_orAssign, Finset.mem_union, Finset.mem_filter]
  by_cases hi : i < bv.len
  · simp [hi, bit]
  · simp [hi]

lemma ones_andAssign (rhs : BitBuf) : (bv.andAssign rhs).ones = bv.ones ∩ rhs.ones := by
  ext i
  simp only [mem_ones, len_andAssign, getD_raw_andAssign, Finset.mem_inter]
  by_cases hi : i < bv.len
  · simp [hi, bit]
  · simp [hi]

/-- Every live one lies before the trailing zeros. -/
lemma lt_sub_trailingZeros {i : ℕ} (h : i ∈ bv.ones) : i < bv.len - bv.trailingZeros := by
  obtain ⟨hi, hbit⟩ := mem_ones.mp h
  set live := bv.raw.take bv.len with hlive
  set zeros := live.rtakeWhile fun b => !b
  -- the live bits are what stays before the zeros at their end, then those zeros
  have hsplit : (live.rdropWhile fun b => !b) ++ zeros = live := List.rdropWhile_append_rtakeWhile
  have hlens : (live.rdropWhile fun b => !b).length + zeros.length = bv.len := by
    rw [← List.length_append, hsplit, hlive, List.length_take, bv.length_raw]
    exact min_eq_left (le_eight_mul_bytesFor _)
  have hbit' : live.getD i false = true := by
    rw [hlive, List.getD_eq_getElem?_getD, List.getElem?_take, if_pos hi,
      ← List.getD_eq_getElem?_getD]
    exact hbit
  by_contra hge
  have hge' : (live.rdropWhile fun b => !b).length ≤ i := by
    have htz : bv.trailingZeros = zeros.length := rfl
    omega
  have hk : i - (live.rdropWhile fun b => !b).length < zeros.length := by omega
  rw [← hsplit, List.getD_append_right _ _ _ _ hge', List.getD_eq_getElem _ _ hk] at hbit'
  have hzero := List.mem_rtakeWhile_imp (List.getElem_mem hk)
  simp [hbit'] at hzero

lemma trailingZeros_le : bv.trailingZeros ≤ bv.len := by
  have h := (List.rtakeWhile_suffix (p := fun b : Bool => !b) (l := bv.raw.take bv.len)).length_le
  rw [List.length_take] at h
  exact h.trans (min_le_left _ _)

/-! ### Setting bits one after another -/

lemma len_foldl_set (l : List ℕ) (bv : BitBuf) :
    (l.foldl (fun bits i => bits.set i true) bv).len = bv.len := by
  induction l generalizing bv with
  | nil => rfl
  | cons i l ih => rw [List.foldl_cons, ih, len_set]

/-- Setting live bits one after another adds their positions. -/
lemma ones_foldl_set (l : List ℕ) (bv : BitBuf) (h : ∀ i ∈ l, i < bv.len) :
    (l.foldl (fun bits i => bits.set i true) bv).ones = bv.ones ∪ l.toFinset := by
  induction l generalizing bv with
  | nil => simp
  | cons i l ih =>
    have hrest : ∀ j ∈ l, j < (bv.set i true).len := fun j hj => h j (List.mem_cons_of_mem i hj)
    rw [List.foldl_cons, ih _ hrest, ones_set_true (h i List.mem_cons_self), List.toFinset_cons,
      Finset.insert_union, Finset.union_insert]

/-! ### Dead bits -/

lemma clean_iff : bv.Clean ↔ ∀ i, bv.len ≤ i → bv.raw.getD i false = false := by
  constructor
  · intro h i hi
    by_cases hraw : i < bv.raw.length
    · apply h
      rw [List.getD_eq_getElem _ _ hraw, List.mem_iff_getElem]
      exact ⟨i - bv.len, by simp; omega, by simp; congr 1; omega⟩
    · exact getD_eq_false_of_le (not_lt.mp hraw)
  · intro h b hb
    obtain ⟨k, hk, rfl⟩ := List.mem_iff_getElem.mp hb
    have hget := h (bv.len + k) (Nat.le_add_right _ _)
    rw [List.getElem_drop, ← List.getD_eq_getElem _ false]
    exact hget

lemma clean_of_length_raw_eq (h : bv.raw.length = bv.len) : bv.Clean := by
  intro b hb
  rw [List.drop_eq_nil_of_le h.le] at hb
  exact absurd hb List.not_mem_nil

lemma clean_repeat_false (n : ℕ) : (BitBuf.repeat false n).Clean := by
  intro b hb
  exact List.eq_of_mem_replicate (List.mem_of_mem_drop hb)

lemma Clean.set {i : ℕ} (h : bv.Clean) (hi : i < bv.len) (b : Bool) : (bv.set i b).Clean := by
  have hraw : i < bv.raw.length := by
    rw [bv.length_raw]; exact lt_of_lt_of_le hi (le_eight_mul_bytesFor _)
  rw [clean_iff] at h ⊢
  intro j hj
  rw [getD_raw_set hraw, if_neg (by rw [len_set] at hj; omega)]
  exact h j hj

lemma Clean.foldl_set (l : List ℕ) (h : bv.Clean) (hl : ∀ i ∈ l, i < bv.len) :
    (l.foldl (fun bits i => bits.set i true) bv).Clean := by
  induction l generalizing bv with
  | nil => exact h
  | cons i l ih =>
    exact ih (h.set (hl i List.mem_cons_self) true)
      (fun j hj => hl j (List.mem_cons_of_mem i hj))

/-! ### Bytes -/

@[simp] lemma length_asRawSlice : bv.asRawSlice.length = bytesFor bv.len := length_packBytes _ _

/-- Reading the bytes back gives every bit of them, the dead bits as live ones. -/
lemma raw_fromSlice_asRawSlice : (fromSlice bv.asRawSlice).raw = bv.raw :=
  unpackBytes_packBytes _ bv.length_raw

lemma ones_fromSlice_asRawSlice (h : bv.Clean) : (fromSlice bv.asRawSlice).ones = bv.ones := by
  ext i
  rw [mem_ones, mem_ones, raw_fromSlice_asRawSlice, len_fromSlice, length_asRawSlice]
  constructor
  · rintro ⟨-, hbit⟩
    refine ⟨?_, hbit⟩
    by_contra hi
    rw [(clean_iff.mp h) i (not_lt.mp hi)] at hbit
    exact Bool.false_ne_true hbit
  · rintro ⟨hi, hbit⟩
    exact ⟨lt_of_lt_of_le hi (le_eight_mul_bytesFor _), hbit⟩

end BitBuf

end Greptime
