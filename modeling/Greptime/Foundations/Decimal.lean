import Mathlib.Data.String.Basic
import Mathlib.Order.Monotone.Defs
import Mathlib.Tactic.NormNum
import Mathlib.Tactic.Positivity

/-!
# Zero-padded decimal numerals

`zeroPad width n` is the decimal numeral of `n` padded on the left with zeros to `width`
characters, as a `{:0width}` format prints it; a longer numeral is not cut.  Below
`10 ^ width` every numeral has exactly `width` digits (`toList_zeroPad`), so the numerals
compare as strings the way the numbers compare (`zeroPad_lt_zeroPad`).  From `10 ^ width` on
they do not: `10 ^ width` itself has one digit more and sorts among the numerals starting
with `1`.
-/

namespace Greptime

/-- The last `width` decimal digits of `n`, most significant first. -/
def decimalDigits : ℕ → ℕ → List Char
  | 0, _ => []
  | width + 1, n => Nat.digitChar (n / 10 ^ width % 10) :: decimalDigits width n

/-- The decimal numeral of `n`, padded on the left with zeros to `width` characters. -/
def zeroPad (width n : ℕ) : String :=
  String.ofList (List.replicate (width - (Nat.toDigits 10 n).length) '0' ++ Nat.toDigits 10 n)

namespace decimalDigits

@[simp] lemma length (width n : ℕ) : (decimalDigits width n).length = width := by
  induction width with
  | zero => rfl
  | succ width ih => simp [decimalDigits, ih]

lemma zero_right (width : ℕ) : decimalDigits width 0 = List.replicate width '0' := by
  induction width with
  | zero => rfl
  | succ width ih =>
    rw [decimalDigits, ih, Nat.zero_div, Nat.zero_mod, List.replicate_succ]
    rfl

/-- The digits are those of `n` modulo `10 ^ width`. -/
lemma mod_pow (width n : ℕ) : decimalDigits width (n % 10 ^ width) = decimalDigits width n := by
  induction width generalizing n with
  | zero => rfl
  | succ width ih =>
    -- the leading digit is the same, and the others are those modulo `10 ^ width`
    have hlead : n % 10 ^ (width + 1) / 10 ^ width % 10 = n / 10 ^ width % 10 := by
      rw [pow_succ, Nat.mod_mul_right_div_self, Nat.mod_mod]
    have hrest : n % 10 ^ (width + 1) % 10 ^ width = n % 10 ^ width :=
      Nat.mod_mod_of_dvd n (pow_dvd_pow 10 (Nat.le_succ width))
    rw [decimalDigits, decimalDigits, hlead, ← ih (n % 10 ^ (width + 1)), hrest, ih]

/-- The last digit comes off the end. -/
lemma succ_eq_append (width n : ℕ) :
    decimalDigits (width + 1) n = decimalDigits width (n / 10) ++ [Nat.digitChar (n % 10)] := by
  induction width generalizing n with
  | zero => simp [decimalDigits]
  | succ width ih =>
    have hdiv : n / 10 / 10 ^ width = n / 10 ^ (width + 1) := by
      rw [Nat.div_div_eq_div_mul, pow_succ, Nat.mul_comm]
    rw [decimalDigits, ih, decimalDigits, hdiv]
    rfl

/-- Numbers below `10 ^ width` have their digits in the order of the numbers. -/
lemma lt_of_lt {width a b : ℕ} (hb : b < 10 ^ width) (h : a < b) :
    List.Lex (· < ·) (decimalDigits width a) (decimalDigits width b) := by
  induction width generalizing a b with
  | zero => simp at hb; omega
  | succ width ih =>
    have ha : a < 10 ^ (width + 1) := h.trans hb
    have hqa : a / 10 ^ width < 10 := Nat.div_lt_of_lt_mul (by rwa [← pow_succ])
    have hqb : b / 10 ^ width < 10 := Nat.div_lt_of_lt_mul (by rwa [← pow_succ])
    have hle : a / 10 ^ width ≤ b / 10 ^ width := Nat.div_le_div_right h.le
    simp only [decimalDigits, Nat.mod_eq_of_lt hqa, Nat.mod_eq_of_lt hqb]
    rcases hle.lt_or_eq with hlt | heq
    -- a smaller leading digit decides
    · exact .rel (digitChar_lt_digitChar hqb hlt)
    -- an equal leading digit: the rest are the numbers modulo `10 ^ width`
    · rw [heq, ← mod_pow width a, ← mod_pow width b]
      refine .cons (ih (Nat.mod_lt _ (by positivity)) ?_)
      have hda := Nat.div_add_mod a (10 ^ width)
      have hdb := Nat.div_add_mod b (10 ^ width)
      rw [heq] at hda
      omega
where
  digitChar_lt_digitChar {c d : ℕ} (hd : d < 10) (h : c < d) :
      Nat.digitChar c < Nat.digitChar d := by
    have key : ∀ c d : Fin 10, c < d → Nat.digitChar c < Nat.digitChar d := by decide
    exact key ⟨c, by omega⟩ ⟨d, hd⟩ h

end decimalDigits

/-- Below `10 ^ width` the padded numeral is the `width` digits of the number. -/
lemma toList_zeroPad {width n : ℕ} (hw : 0 < width) (h : n < 10 ^ width) :
    (zeroPad width n).toList = decimalDigits width n := by
  obtain ⟨width, rfl⟩ : ∃ w, width = w + 1 := ⟨width - 1, by omega⟩
  clear hw
  simp only [zeroPad, String.toList_ofList]
  induction width generalizing n with
  | zero =>
    have hn : n < 10 := by simpa using h
    rw [Nat.toDigits_of_lt_base hn]
    simp [decimalDigits, Nat.mod_eq_of_lt hn]
  | succ width ih =>
    rw [decimalDigits.succ_eq_append]
    by_cases hn : n < 10
    -- one digit: the zeros are the leading digits of `n / 10 = 0`
    · rw [Nat.toDigits_of_lt_base hn, Nat.div_eq_of_lt hn, decimalDigits.zero_right,
        Nat.mod_eq_of_lt hn]
      simp
    · have hq : n / 10 < 10 ^ (width + 1) := Nat.div_lt_of_lt_mul (by rwa [← pow_succ'])
      rw [Nat.toDigits_of_base_le (by norm_num) (by omega), ← ih hq]
      simp only [List.length_append, List.length_singleton, List.append_assoc]
      congr 2
      omega

lemma length_zeroPad {width n : ℕ} (hw : 0 < width) (h : n < 10 ^ width) :
    (zeroPad width n).length = width := by
  rw [← String.length_toList, toList_zeroPad hw h, decimalDigits.length]

/-- Below `10 ^ width`, padded numerals compare as the numbers do. -/
lemma zeroPad_lt_zeroPad {width a b : ℕ} (hw : 0 < width) (hb : b < 10 ^ width) (h : a < b) :
    zeroPad width a < zeroPad width b := by
  rw [String.lt_iff_toList_lt, toList_zeroPad hw (h.trans hb), toList_zeroPad hw hb]
  exact (List.lt_iff_lex_lt _ _).mpr (decimalDigits.lt_of_lt hb h)

lemma zeroPad_strictMonoOn (width : ℕ) (hw : 0 < width) :
    StrictMonoOn (zeroPad width) (Set.Iio (10 ^ width)) :=
  fun _ _ _ hb h => zeroPad_lt_zeroPad hw hb h

end Greptime
