import Mathlib.Order.Basic
import Mathlib.Order.Lattice
import Mathlib.Tactic.Linarith

/-!
# Signed 64-bit integers with Rust's checked and wrapping operations

An `I64` is an integer that carries the proof of its range, so a value out of range cannot be
built.  Rust's `checked_*` operations return `none` exactly when the exact result leaves the
range (or, for division, when the divisor is zero); the `wrapping_*` operations, and plain
arithmetic in a release build, reduce the exact result modulo `2^64` into the range.

Every operation is specified by one lemma about its value (`checkedMul_eq_some` and so on),
which the proofs about the programs using them rewrite with before `omega` closes the
arithmetic.

Nothing here names a program.
-/

namespace Greptime

/-- `i64::MIN`. -/
def I64.minValue : ℤ := -9223372036854775808

/-- `i64::MAX`. -/
def I64.maxValue : ℤ := 9223372036854775807

/-- The integers an `i64` can hold. -/
def I64.InRange (x : ℤ) : Prop := I64.minValue ≤ x ∧ x ≤ I64.maxValue

instance : DecidablePred I64.InRange := fun x =>
  inferInstanceAs (Decidable (I64.minValue ≤ x ∧ x ≤ I64.maxValue))

/-- A signed 64-bit integer. -/
structure I64 where
  val : ℤ
  inRange : I64.InRange val
  deriving DecidableEq

namespace I64

@[ext] lemma ext {a b : I64} (h : a.val = b.val) : a = b := by
  cases a; cases b; cases h; rfl

instance : LinearOrder I64 := LinearOrder.lift' I64.val (fun _ _ => I64.ext)

lemma le_iff {a b : I64} : a ≤ b ↔ a.val ≤ b.val := Iff.rfl

lemma lt_iff {a b : I64} : a < b ↔ a.val < b.val := Iff.rfl

/-- The integer `x`, when it fits. -/
def tryOfInt (x : ℤ) : Option I64 := if h : InRange x then some ⟨x, h⟩ else none

@[simp] lemma tryOfInt_eq_some {x : ℤ} {a : I64} : tryOfInt x = some a ↔ InRange x ∧ a.val = x := by
  unfold tryOfInt
  split
  · rename_i h
    constructor
    · rintro ⟨⟩; exact ⟨h, rfl⟩
    · rintro ⟨-, ha⟩; exact congrArg some (I64.ext ha.symm)
  · rename_i h
    simp only [reduceCtorEq, false_iff, not_and]
    exact fun h' => absurd h' h

lemma tryOfInt_eq_none {x : ℤ} : tryOfInt x = none ↔ ¬ InRange x := by
  unfold tryOfInt
  split <;> simp_all

/-- `checked_*(..).unwrap_or(d)` as a number: the exact result when it fits, else `d`. -/
lemma val_getD_tryOfInt (x : ℤ) (d : I64) :
    ((tryOfInt x).getD d).val = if InRange x then x else d.val := by
  unfold tryOfInt
  split <;> rfl

/-- `x` reduced modulo `2^64` into the range, as two's complement arithmetic does. -/
def wrap (x : ℤ) : I64 :=
  ⟨(x - minValue) % 18446744073709551616 + minValue, by
    unfold InRange minValue maxValue
    omega⟩

lemma val_wrap_of_inRange {x : ℤ} (h : InRange x) : (wrap x).val = x := by
  unfold InRange minValue maxValue at h
  simp only [wrap, minValue]
  omega

/-- `n as i64` for an unsigned `n` below `2^63` is `n`. -/
lemma val_wrap_natCast {n : ℕ} (h : n < 2 ^ 63) : (wrap n).val = n := by
  apply val_wrap_of_inRange
  unfold InRange minValue maxValue
  omega

/-- `i64::MAX` as a value. -/
def MAX : I64 := ⟨maxValue, by unfold InRange minValue maxValue; omega⟩

/-- `i64::MIN` as a value. -/
def MIN : I64 := ⟨minValue, by unfold InRange minValue maxValue; omega⟩

@[simp] lemma val_MAX : MAX.val = maxValue := rfl

@[simp] lemma val_MIN : MIN.val = minValue := rfl

/-- `as usize` on a 64-bit target: the two's complement bits read as an unsigned number. -/
def toUsize (a : I64) : ℕ := (a.val % 18446744073709551616).toNat

lemma toUsize_lt (a : I64) : a.toUsize < 2 ^ 64 := by
  unfold toUsize
  omega

/-- `as u64` then `as i64` gives the value back. -/
lemma wrap_toUsize (a : I64) : wrap (a.toUsize : ℤ) = a := by
  have ha := a.inRange
  unfold InRange minValue maxValue at ha
  apply I64.ext
  simp only [wrap, toUsize, minValue]
  rw [Int.toNat_of_nonneg (by omega)]
  omega

/-- `i64::checked_add`. -/
def checkedAdd (a b : I64) : Option I64 := tryOfInt (a.val + b.val)

/-- `i64::checked_sub`. -/
def checkedSub (a b : I64) : Option I64 := tryOfInt (a.val - b.val)

/-- `i64::checked_mul`. -/
def checkedMul (a b : I64) : Option I64 := tryOfInt (a.val * b.val)

/-- `i64::wrapping_mul`, which plain `*` is in a release build. -/
def wrappingMul (a b : I64) : I64 := wrap (a.val * b.val)

/-- `i64::wrapping_add`, which plain `+` is in a release build. -/
def wrappingAdd (a b : I64) : I64 := wrap (a.val + b.val)

/-- `i64::wrapping_sub`, which plain `-` is in a release build. -/
def wrappingSub (a b : I64) : I64 := wrap (a.val - b.val)

/-- `i64::checked_div_euclid`: `none` for a zero divisor and for `MIN / -1`. -/
def checkedDivEuclid (a b : I64) : Option I64 :=
  if b.val = 0 then none else tryOfInt (a.val / b.val)

/-- `i64::checked_div`: `none` for a zero divisor and for `MIN / -1`, where `/` panics; the
quotient rounds towards zero. -/
def checkedDiv (a b : I64) : Option I64 :=
  if b.val = 0 then none else tryOfInt (a.val.tdiv b.val)

/-- `i64::checked_rem`: `none` for a zero divisor and for `MIN % -1`, where `%` panics; the
remainder takes the sign of the dividend. -/
def checkedRem (a b : I64) : Option I64 :=
  if b.val = 0 ∨ (a.val = minValue ∧ b.val = -1) then none else tryOfInt (a.val.tmod b.val)

lemma checkedAdd_eq_some {a b c : I64} :
    checkedAdd a b = some c ↔ InRange (a.val + b.val) ∧ c.val = a.val + b.val := tryOfInt_eq_some

lemma checkedAdd_eq_none {a b : I64} : checkedAdd a b = none ↔ ¬ InRange (a.val + b.val) :=
  tryOfInt_eq_none

lemma checkedSub_eq_some {a b c : I64} :
    checkedSub a b = some c ↔ InRange (a.val - b.val) ∧ c.val = a.val - b.val := tryOfInt_eq_some

lemma checkedSub_eq_none {a b : I64} : checkedSub a b = none ↔ ¬ InRange (a.val - b.val) :=
  tryOfInt_eq_none

lemma checkedMul_eq_some {a b c : I64} :
    checkedMul a b = some c ↔ InRange (a.val * b.val) ∧ c.val = a.val * b.val := tryOfInt_eq_some

lemma checkedDivEuclid_eq_some {a b c : I64} :
    checkedDivEuclid a b = some c ↔ b.val ≠ 0 ∧ InRange (a.val / b.val) ∧ c.val = a.val / b.val := by
  unfold checkedDivEuclid
  split
  · rename_i h
    simp [h]
  · rename_i h
    simp [h, tryOfInt_eq_some]

lemma checkedDiv_eq_some {a b c : I64} :
    checkedDiv a b = some c ↔ b.val ≠ 0 ∧ InRange (a.val.tdiv b.val) ∧ c.val = a.val.tdiv b.val := by
  unfold checkedDiv
  split
  · rename_i h
    simp [h]
  · rename_i h
    simp [h, tryOfInt_eq_some]

/-- Euclidean division by a positive divisor never leaves the range. -/
lemma inRange_ediv {a : I64} {b : ℤ} (hb : 0 < b) : InRange (a.val / b) := by
  have ha := a.inRange
  unfold InRange minValue maxValue at *
  rcases le_or_gt 0 a.val with h | h
  · have h1 := Int.ediv_nonneg h hb.le
    have h2 := Int.ediv_le_self b h
    omega
  · have h1 : a.val ≤ a.val / b := Int.le_ediv_of_mul_le hb (by nlinarith)
    have h2 : a.val / b < 0 := Int.ediv_neg_of_neg_of_pos h hb
    omega

lemma checkedDivEuclid_of_pos (a b : I64) (hb : 0 < b.val) :
    ∃ c, checkedDivEuclid a b = some c ∧ c.val = a.val / b.val :=
  ⟨⟨a.val / b.val, inRange_ediv hb⟩, checkedDivEuclid_eq_some.mpr
    ⟨hb.ne', inRange_ediv hb, rfl⟩, rfl⟩

/-- The two's complement bits of the value, as `as u64` or a byte encoding sees them. -/
def toBitVec (a : I64) : BitVec 64 := BitVec.ofInt 64 a.val

/-- The value of 64 bits read as two's complement. -/
def ofBitVec (b : BitVec 64) : I64 :=
  ⟨b.toInt, by
    have hlt := BitVec.toInt_lt (x := b)
    have hle := BitVec.le_toInt (x := b)
    simp only [Nat.add_one_sub_one] at hlt hle
    unfold InRange minValue maxValue
    omega⟩

lemma ofBitVec_toBitVec (a : I64) : ofBitVec a.toBitVec = a := by
  have ha := a.inRange
  unfold InRange minValue maxValue at ha
  apply I64.ext
  simp only [ofBitVec, toBitVec, BitVec.toInt_ofInt]
  apply Int.bmod_eq_of_le
  all_goals omega

end I64

end Greptime
