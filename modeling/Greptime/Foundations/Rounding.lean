import Mathlib.Data.List.Sort
import Mathlib.Tactic.Linarith

/-!
# Multiples of a step and rounding toward zero

`x.tdiv i * i` is `x` rounded toward zero to a multiple of `i > 0`, as `x / i * i` rounds in
Rust: at most `x` and above `x - i` when `x` is not negative (`tdiv_mul_of_nonneg`), at least
`x` and below `x + i` when it is (`tdiv_mul_of_neg`).  Either way a multiple of `i` at or after
`x` is at or after the rounded value (`tdiv_mul_le_of_dvd`), and a multiple at or before `x` is
at or before it (`le_tdiv_mul_of_dvd`): rounding toward zero never skips a multiple on the side
of `x` it moves to.

The terms `a, a + i, …, a + (n - 1) * i` increase (`pairwise_progression`), and an increasing
list inside another of the same length is that list (`eq_of_subset_of_length_eq`).

Nothing here names a program.
-/

namespace Greptime

namespace Rounding

variable {i : ℤ}

lemma dvd_tdiv_mul (x i : ℤ) : i ∣ x.tdiv i * i := Dvd.intro_left _ rfl

/-- Two multiples of `i` less than `i` apart in one direction are in order. -/
lemma le_of_lt_add_of_dvd (hi : 0 < i) {a b : ℤ} (ha : i ∣ a) (hb : i ∣ b) (h : a < b + i) :
    a ≤ b := by
  obtain ⟨p, rfl⟩ := ha
  obtain ⟨q, rfl⟩ := hb
  have hpq : p < q + 1 := by
    apply Int.lt_of_mul_lt_mul_right _ hi.le
    linarith
  have : p ≤ q := by omega
  exact mul_le_mul_of_nonneg_left this hi.le

lemma tdiv_mul_of_nonneg (hi : 0 < i) {x : ℤ} (hx : 0 ≤ x) :
    x - i < x.tdiv i * i ∧ x.tdiv i * i ≤ x := by
  have hdef := Int.tmod_def x i
  have hnonneg := Int.tmod_nonneg i hx
  have hlt := Int.tmod_lt_of_pos x hi
  constructor <;> linarith [mul_comm i (x.tdiv i)]

lemma tdiv_mul_of_neg (hi : 0 < i) {x : ℤ} (hx : x < 0) :
    x ≤ x.tdiv i * i ∧ x.tdiv i * i < x + i := by
  -- round the negation, which is positive
  have hneg := tdiv_mul_of_nonneg hi (neg_nonneg.mpr hx.le)
  rw [Int.neg_tdiv, neg_mul] at hneg
  constructor <;> linarith [hneg.1, hneg.2]

/-- A multiple of `i` at or after `x` is at or after `x` rounded toward zero. -/
lemma tdiv_mul_le_of_dvd (hi : 0 < i) {x t : ℤ} (ht : i ∣ t) (hxt : x ≤ t) : x.tdiv i * i ≤ t := by
  rcases le_or_gt 0 x with hx | hx
  · exact (tdiv_mul_of_nonneg hi hx).2.trans hxt
  · exact le_of_lt_add_of_dvd hi (dvd_tdiv_mul x i) ht (by linarith [(tdiv_mul_of_neg hi hx).2])

/-- A multiple of `i` at or before `y` is at or before `y` rounded toward zero. -/
lemma le_tdiv_mul_of_dvd (hi : 0 < i) {y t : ℤ} (ht : i ∣ t) (hty : t ≤ y) : t ≤ y.tdiv i * i := by
  rcases le_or_gt 0 y with hy | hy
  · exact le_of_lt_add_of_dvd hi ht (dvd_tdiv_mul y i) (by linarith [(tdiv_mul_of_nonneg hi hy).1])
  · exact hty.trans (tdiv_mul_of_neg hi hy).1

/-! ## Progressions -/

lemma pairwise_progression (hi : 0 < i) (a : ℤ) (n : ℕ) :
    ((List.range n).map fun k : ℕ => a + k * i).Pairwise (· < ·) := by
  rw [List.pairwise_map]
  refine List.pairwise_lt_range.imp fun {k l} hkl => ?_
  have : (k : ℤ) < l := by exact_mod_cast hkl
  nlinarith

/-- An increasing list inside another increasing list of the same length is that list. -/
lemma eq_of_subset_of_length_eq {α : Type*} [LinearOrder α] {l₁ l₂ : List α}
    (h₁ : l₁.Pairwise (· < ·)) (h₂ : l₂.Pairwise (· < ·)) (hsub : l₁ ⊆ l₂)
    (hlen : l₁.length = l₂.length) : l₁ = l₂ :=
  (List.sublist_of_subperm_of_pairwise (List.subperm_of_subset h₁.nodup hsub) h₁ h₂).eq_of_length
    hlen

end Rounding

end Greptime
