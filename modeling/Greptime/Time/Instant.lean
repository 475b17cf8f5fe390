import Greptime.Time.Timestamp
import Mathlib.Data.Rat.Floor

/-!
# The instant a timestamp stands for

A timestamp of value `v` in a unit of `f` nanoseconds stands for the instant `v * f`
nanoseconds after the epoch, an integer that no `i64` needs to hold.  This module states the
operations of `Time/Timestamp` against that instant:

* `cmp` is the order of the instants: the same-unit fast path and the path through `split`
  agree, so `Eq`, `Ord` and `Hash` agree across units (`cmp_eq_compare_exact`);
* `convert_to` and `align_by_bucket` round down, `convert_to_ceil` and
  `align_to_ceil_by_bucket` round up, each to the floor or the ceiling of a rational quotient,
  and fail only on overflow;
* `from_chrono_datetime` inverts `to_chrono_datetime` up to that equality
  (`fromSplits_spec`).
-/

namespace Greptime

namespace Timestamp

/-! ## The order of the instants -/

/-- The instant of a timestamp, in nanoseconds. -/
def exact (t : Timestamp) : ℤ := t.value.val * t.unit.factor

/-- A second is as many units as the unit has nanoseconds fewer than a second. -/
lemma perSecond_mul_factor (u : TimeUnit) : (u.perSecond : ℤ) * u.factor = 1000000000 := by
  cases u <;> rfl

/-- The split cuts the instant at the second. -/
lemma split_eq (t : Timestamp) : t.split = (t.exact / 1000000000, t.exact % 1000000000) := by
  obtain ⟨⟨v, hv⟩, u⟩ := t
  cases u <;> simp only [split, exact, TimeUnit.perSecond, TimeUnit.factor] <;>
    refine Prod.ext ?_ ?_ <;> dsimp only <;> push_cast <;> omega

/-- Pairs of quotient and remainder compare as the numbers they divide. -/
lemma compare_ediv_emod {m : ℤ} (hm : 0 < m) (x y : ℤ) :
    (compare (x / m) (y / m)).then (compare (x % m) (y % m)) = compare x y := by
  have hx := Int.mul_ediv_add_emod x m
  have hy := Int.mul_ediv_add_emod y m
  rcases lt_trichotomy (x / m) (y / m) with h | h | h
  · have hxy : x < y := by
      by_contra hyx
      exact absurd (Int.ediv_le_ediv hm (not_lt.mp hyx)) (not_le.mpr h)
    rw [compare_lt_iff_lt.mpr h, compare_lt_iff_lt.mpr hxy]
    rfl
  · rw [h, compare_eq_iff_eq.mpr rfl, Ordering.eq_then]
    rw [h] at hx
    rcases lt_trichotomy (x % m) (y % m) with h' | h' | h'
    · rw [compare_lt_iff_lt.mpr h', compare_lt_iff_lt.mpr (by omega)]
    · rw [h', compare_eq_iff_eq.mpr rfl, compare_eq_iff_eq.mpr (by omega : x = y)]
    · rw [compare_gt_iff_gt.mpr h', compare_gt_iff_gt.mpr (by omega)]
  · have hxy : y < x := by
      by_contra hyx
      exact absurd (Int.ediv_le_ediv hm (not_lt.mp hyx)) (not_le.mpr h)
    rw [compare_gt_iff_gt.mpr h, compare_gt_iff_gt.mpr hxy]
    rfl

/-- The split of a timestamp compares as its instant. -/
lemma compare_split (a b : Timestamp) :
    (compare a.split.1 b.split.1).then (compare a.split.2 b.split.2) = compare a.exact b.exact := by
  rw [split_eq, split_eq]
  exact compare_ediv_emod (by norm_num) _ _

lemma cmp_eq_compare_exact (a b : Timestamp) : cmp a b = compare a.exact b.exact := by
  unfold cmp
  split_ifs with hunit
  · -- one unit: the instants are the values scaled by one positive factor
    have hf : (0 : ℤ) < a.unit.factor := by exact_mod_cast a.unit.factor_pos
    rw [exact, exact, ← hunit]
    rcases lt_trichotomy a.value.val b.value.val with h | h | h
    · rw [compare_lt_iff_lt.mpr h, compare_lt_iff_lt.mpr (Int.mul_lt_mul_of_pos_right h hf)]
    · rw [h, compare_eq_iff_eq.mpr rfl, compare_eq_iff_eq.mpr rfl]
    · rw [compare_gt_iff_gt.mpr h, compare_gt_iff_gt.mpr (Int.mul_lt_mul_of_pos_right h hf)]
  · exact compare_split a b

lemma eq_iff_exact (a b : Timestamp) : eq a b = true ↔ a.exact = b.exact := by
  rw [eq, beq_iff_eq, cmp_eq_compare_exact, compare_eq_iff_eq]

/-- `Ord for Timestamp` is the order of the instants, whatever the units: its same-unit fast
path agrees with the comparison of the splits, so it is a total order, `Eq` is equality of the
instants and equal timestamps write the same words into a hasher. -/
theorem timestamp_cmp_exact (a b : Timestamp) :
    cmp a b = compare a.exact b.exact ∧
    (a.unit = b.unit → compare a.value.val b.value.val =
      (compare a.split.1 b.split.1).then (compare a.split.2 b.split.2)) ∧
    (eq a b = true ↔ a.exact = b.exact) ∧
    (eq a b = true → a.hashWrites = b.hashWrites) ∧
    cmp a a = .eq ∧ (cmp a b).swap = cmp b a ∧
    ∀ c, cmp a b ≠ .gt → cmp b c ≠ .gt → cmp a c ≠ .gt := by
  have hcmp := cmp_eq_compare_exact
  refine ⟨hcmp a b, fun hunit => ?_, eq_iff_exact a b, fun heq => ?_, ?_, ?_, fun c hab hbc => ?_⟩
  · rw [compare_split, ← hcmp, cmp, if_pos hunit]
  · have hsplit : a.split = b.split := by rw [split_eq, split_eq, (eq_iff_exact a b).mp heq]
    rw [hashWrites, hashWrites, hsplit]
  · rw [hcmp, compare_eq_iff_eq]
  · rw [hcmp, hcmp, Std.OrientedOrd.eq_swap, Ordering.swap_swap]
  · rw [hcmp] at hab hbc ⊢
    exact compare_le_iff_le.mpr ((compare_le_iff_le.mp hab).trans (compare_le_iff_le.mp hbc))

/-! ## Rounding between units and to buckets -/

lemma factor_le (u : TimeUnit) : u.factor ≤ 1000000000 := by
  cases u <;> decide

/-- Between units, the finer factor divides the coarser. -/
lemma factor_div_mul {u u' : TimeUnit} (h : u'.factor ≤ u.factor) :
    u.factor / u'.factor * u'.factor = u.factor := by
  revert h
  cases u <;> cases u' <;> decide

lemma factor_ratio_mul {u u' : TimeUnit} (h : u'.factor ≤ u.factor) :
    ((u.factor / u'.factor : ℕ) : ℤ) * u'.factor = u.factor := by
  exact_mod_cast factor_div_mul h

/-- Towards a coarser unit the ratio of the factors is positive. -/
lemma factor_ratio_pos {u u' : TimeUnit} (h : u'.factor < u.factor) :
    (0 : ℤ) < ((u.factor / u'.factor : ℕ) : ℤ) := by
  have hmf := factor_ratio_mul h.le
  by_contra h0
  rw [Int.not_lt.mp h0 |>.antisymm (by positivity)] at hmf
  omega

/-- Towards a unit at least as fine, `convert_to` and `convert_to_ceil` multiply, checking for
overflow. -/
lemma convertTo_of_le {ts : Timestamp} {u : TimeUnit} (h : u.factor ≤ ts.unit.factor) :
    ts.convertTo u = (I64.tryOfInt (ts.value.val * ↑(ts.unit.factor / u.factor))).map (⟨·, u⟩) := by
  have hmul : ts.unit.factor / u.factor < 2 ^ 63 :=
    lt_of_le_of_lt ((Nat.div_le_self _ _).trans (factor_le _)) (by norm_num)
  simp only [convertTo, dif_pos h, I64.checkedMul, I64.val_wrap_natCast hmul]

lemma convertToCeil_of_le {ts : Timestamp} {u : TimeUnit} (h : u.factor ≤ ts.unit.factor) :
    ts.convertToCeil u =
      (I64.tryOfInt (ts.value.val * ↑(ts.unit.factor / u.factor))).map (⟨·, u⟩) := by
  have hmul : ts.unit.factor / u.factor < 2 ^ 63 :=
    lt_of_le_of_lt ((Nat.div_le_self _ _).trans (factor_le _)) (by norm_num)
  simp only [convertToCeil, if_pos h, I64.checkedMul, I64.val_wrap_natCast hmul]

/-- The instant of a timestamp multiplied towards a finer unit. -/
lemma exact_of_le {ts : Timestamp} {u : TimeUnit} (h : u.factor ≤ ts.unit.factor) {v : I64}
    (hv : v.val = ts.value.val * ↑(ts.unit.factor / u.factor)) : exact ⟨v, u⟩ = ts.exact := by
  rw [exact, exact, hv, mul_assoc]
  exact_mod_cast congrArg (ts.value.val * ·) (congrArg Nat.cast (factor_div_mul h))

/-- Towards a coarser unit `convert_to` divides with Euclidean division. -/
lemma convertTo_of_lt {ts : Timestamp} {u : TimeUnit} (h : ts.unit.factor < u.factor) :
    ∃ v : I64, ts.convertTo u = some ⟨v, u⟩ ∧
      v.val = ts.value.val / ↑(u.factor / ts.unit.factor) := by
  rw [convertTo, dif_neg (by omega)]
  exact ⟨_, rfl, rfl⟩

lemma convertToCeil_of_lt {ts : Timestamp} {u : TimeUnit} (h : ts.unit.factor < u.factor) :
    ts.convertToCeil u =
      some ⟨I64.wrap (divCeil ts.value.val ↑(u.factor / ts.unit.factor)), u⟩ := by
  rw [convertToCeil, if_neg (by omega)]

/-- Euclidean division rounds down: the value lies in the unit above the quotient. -/
lemma ediv_bounds {v m : ℤ} (hm : 0 < m) : v / m * m ≤ v ∧ v < (v / m + 1) * m :=
  ⟨Int.ediv_mul_le v hm.ne', Int.lt_ediv_add_one_mul_self v hm⟩

/-- `div_ceil` by a positive divisor rounds up: the value lies in the unit below the result. -/
lemma divCeil_bounds {v m : ℤ} (hm : 0 < m) : (divCeil v m - 1) * m < v ∧ v ≤ divCeil v m * m := by
  have hd := Int.mul_tdiv_add_tmod v m
  have hlo := Int.lt_tmod_of_pos v hm
  have hhi := Int.tmod_lt_of_pos v hm
  unfold divCeil
  dsimp only
  split_ifs with hr
  · constructor <;> nlinarith
  · have hr' : v.tmod m ≤ 0 := by
      by_contra hpos
      exact hr ⟨by omega, hm⟩
    constructor <;> nlinarith

/-- The quotient rounded up by `div_ceil` lies between the value and zero, so it fits. -/
lemma inRange_divCeil {v : I64} {m : ℤ} (hm : 0 < m) : I64.InRange (divCeil v.val m) := by
  obtain ⟨h1, h2⟩ := divCeil_bounds (v := v.val) hm
  have hv := v.inRange
  unfold I64.InRange I64.minValue I64.maxValue at *
  rcases le_or_gt (divCeil v.val m) 0 with hc | hc
  · constructor <;> nlinarith
  · constructor <;> nlinarith

lemma floor_div_eq_ediv {v m : ℤ} (hm : 0 < m) : ⌊(v : ℚ) / m⌋ = v / m := by
  obtain ⟨h1, h2⟩ := ediv_bounds (v := v) hm
  have hmq : (0 : ℚ) < m := by exact_mod_cast hm
  rw [Int.floor_eq_iff, le_div_iff₀ hmq, div_lt_iff₀ hmq]
  exact ⟨by exact_mod_cast h1, by exact_mod_cast h2⟩

lemma ceil_div_eq_divCeil {v m : ℤ} (hm : 0 < m) : ⌈(v : ℚ) / m⌉ = divCeil v m := by
  obtain ⟨h1, h2⟩ := divCeil_bounds (v := v) hm
  have hmq : (0 : ℚ) < m := by exact_mod_cast hm
  rw [Int.ceil_eq_iff, lt_div_iff₀ hmq, div_le_iff₀ hmq]
  exact ⟨by exact_mod_cast h1, by exact_mod_cast h2⟩

/-- `convert_to` fails exactly on an overflow towards a finer unit, and otherwise rounds the
instant down to the unit. -/
lemma convertTo_spec (ts : Timestamp) (u : TimeUnit) :
    (ts.convertTo u = none ↔ u.factor ≤ ts.unit.factor ∧
      ¬ I64.InRange (ts.value.val * ↑(ts.unit.factor / u.factor))) ∧
    ∀ t, ts.convertTo u = some t →
      t.unit = u ∧ t.exact ≤ ts.exact ∧ ts.exact < t.exact + u.factor := by
  have hu : (0 : ℤ) < u.factor := by exact_mod_cast u.factor_pos
  rcases le_or_gt u.factor ts.unit.factor with h | h
  · rw [convertTo_of_le h]
    refine ⟨by simp [I64.tryOfInt_eq_none, h], ?_⟩
    intro t ht
    obtain ⟨v, hv, rfl⟩ := Option.map_eq_some_iff.mp ht
    have hex := exact_of_le h (I64.tryOfInt_eq_some.mp hv).2
    refine ⟨rfl, hex.le, ?_⟩
    rw [hex]
    omega
  · obtain ⟨v, hv, hval⟩ := convertTo_of_lt h
    rw [hv]
    refine ⟨by simp; omega, ?_⟩
    rintro t ⟨⟩
    -- the value is divided by the ratio `m` of the units, and `m * f` is the coarser factor
    have hf : (0 : ℤ) < ts.unit.factor := by exact_mod_cast ts.unit.factor_pos
    have hmf := factor_ratio_mul h.le
    have hm := factor_ratio_pos h
    obtain ⟨h1, h2⟩ := ediv_bounds (v := ts.value.val) hm
    refine ⟨rfl, ?_, ?_⟩
    · rw [exact, exact, hval, ← hmf, ← mul_assoc]
      exact Int.mul_le_mul_of_nonneg_right h1 hf.le
    · rw [exact, exact, hval, ← hmf]
      linarith [Int.mul_lt_mul_of_pos_right h2 hf]

/-- `convert_to_ceil` fails where `convert_to` does, and otherwise rounds the instant up to the
unit. -/
lemma convertToCeil_spec (ts : Timestamp) (u : TimeUnit) :
    (ts.convertToCeil u = none ↔ u.factor ≤ ts.unit.factor ∧
      ¬ I64.InRange (ts.value.val * ↑(ts.unit.factor / u.factor))) ∧
    ∀ t, ts.convertToCeil u = some t →
      t.unit = u ∧ t.exact - u.factor < ts.exact ∧ ts.exact ≤ t.exact := by
  have hu : (0 : ℤ) < u.factor := by exact_mod_cast u.factor_pos
  rcases le_or_gt u.factor ts.unit.factor with h | h
  · rw [convertToCeil_of_le h]
    refine ⟨by simp [I64.tryOfInt_eq_none, h], ?_⟩
    intro t ht
    obtain ⟨v, hv, rfl⟩ := Option.map_eq_some_iff.mp ht
    have hex := exact_of_le h (I64.tryOfInt_eq_some.mp hv).2
    refine ⟨rfl, ?_, hex.ge⟩
    rw [hex]
    omega
  · rw [convertToCeil_of_lt h]
    refine ⟨by simp; omega, ?_⟩
    rintro t ⟨⟩
    have hf : (0 : ℤ) < ts.unit.factor := by exact_mod_cast ts.unit.factor_pos
    have hmf := factor_ratio_mul h.le
    have hm := factor_ratio_pos h
    obtain ⟨h1, h2⟩ := divCeil_bounds (v := ts.value.val) hm
    have hval := I64.val_wrap_of_inRange (inRange_divCeil (v := ts.value) hm)
    refine ⟨rfl, ?_, ?_⟩
    · rw [exact, exact, hval, ← hmf]
      linarith [Int.mul_lt_mul_of_pos_right h1 hf]
    · rw [exact, exact, hval, ← hmf, ← mul_assoc]
      exact Int.mul_le_mul_of_nonneg_right h2 hf.le

end Timestamp

/-- `align_by_bucket` rounds down to a multiple of a positive bucket, when that fits. -/
lemma alignByBucket_eq_floor (value bucket : I64) :
    alignByBucket value bucket = if 0 < bucket.val then
      I64.tryOfInt (⌊(value.val : ℚ) / bucket.val⌋ * bucket.val) else none := by
  split_ifs with hb
  · rw [alignByBucket_of_pos hb, Timestamp.floor_div_eq_ediv hb]
  · rw [alignByBucket, if_pos (by omega)]

/-- `align_to_ceil_by_bucket` rounds up to a multiple of a positive bucket, when that fits. -/
lemma alignToCeilByBucket_eq_ceil (value bucket : I64) :
    alignToCeilByBucket value bucket = if 0 < bucket.val then
      I64.tryOfInt (⌈(value.val : ℚ) / bucket.val⌉ * bucket.val) else none := by
  unfold alignToCeilByBucket
  by_cases hb : 0 < bucket.val
  · rw [if_neg (by omega), if_pos hb, Timestamp.ceil_div_eq_divCeil hb, I64.checkedMul,
      I64.val_wrap_of_inRange (Timestamp.inRange_divCeil hb)]
  · rw [if_pos (by omega), if_neg hb]

/-- `convert_to` rounds the instant down to the target unit and `convert_to_ceil` rounds it
up, both failing exactly when a finer unit overflows; `align_by_bucket` and
`align_to_ceil_by_bucket` round to the floor and the ceiling of the quotient by a positive
bucket, failing when that multiple overflows. -/
theorem timestamp_convert_align (ts : Timestamp) (u : TimeUnit) :
    ((ts.convertTo u = none ↔ u.factor ≤ ts.unit.factor ∧
        ¬ I64.InRange (ts.value.val * ↑(ts.unit.factor / u.factor))) ∧
      ∀ t, ts.convertTo u = some t →
        t.unit = u ∧ t.exact ≤ ts.exact ∧ ts.exact < t.exact + u.factor) ∧
    ((ts.convertToCeil u = none ↔ u.factor ≤ ts.unit.factor ∧
        ¬ I64.InRange (ts.value.val * ↑(ts.unit.factor / u.factor))) ∧
      ∀ t, ts.convertToCeil u = some t →
        t.unit = u ∧ t.exact - u.factor < ts.exact ∧ ts.exact ≤ t.exact) ∧
    ∀ value bucket : I64,
      alignByBucket value bucket = (if 0 < bucket.val then
        I64.tryOfInt (⌊(value.val : ℚ) / bucket.val⌋ * bucket.val) else none) ∧
      alignToCeilByBucket value bucket = (if 0 < bucket.val then
        I64.tryOfInt (⌈(value.val : ℚ) / bucket.val⌉ * bucket.val) else none) :=
  ⟨Timestamp.convertTo_spec ts u, Timestamp.convertToCeil_spec ts u, fun value bucket =>
    ⟨alignByBucket_eq_floor value bucket, alignToCeilByBucket_eq_ceil value bucket⟩⟩

/-! ## Round trip through `chrono` -/

namespace Timestamp

/-- `a * k + x` computed with `checked_mul` and `checked_add`, when the product and the sum
fit. -/
lemma checkedMulAdd_eq {a : I64} {k x : ℤ} (hk : I64.InRange k) (hx : I64.InRange x)
    (hmul : I64.InRange (a.val * k)) (hsum : I64.InRange (a.val * k + x)) :
    ((I64.checkedMul a (I64.wrap k)).bind fun v => I64.checkedAdd v (I64.wrap x)) =
      some ⟨a.val * k + x, hsum⟩ := by
  rw [I64.checkedMul, I64.val_wrap_of_inRange hk, I64.tryOfInt, dif_pos hmul, Option.bind_some,
    I64.checkedAdd, I64.val_wrap_of_inRange hx, I64.tryOfInt, dif_pos hsum]

/-- From a second of `chrono`'s dates and the nanoseconds beyond it, `from_splits` builds a
timestamp of that instant, provided nanoseconds that no coarser unit holds fit an `i64`. -/
lemma fromSplits_spec {sec : I64} {nsec : ℕ} (hnsec : nsec < 1000000000)
    (hsec : minSecond ≤ sec.val ∧ sec.val ≤ maxSecond)
    (hns : nsec % 1000 ≠ 0 → I64.InRange (sec.val * 1000000000 + nsec)) :
    ∃ t, fromSplits sec nsec = some t ∧ t.exact = sec.val * 1000000000 + nsec := by
  unfold minSecond maxSecond at hsec
  have hr : ∀ x : ℤ, -9223372036854775808 ≤ x → x ≤ 9223372036854775807 → I64.InRange x :=
    fun x h1 h2 => ⟨h1, h2⟩
  unfold fromSplits
  split_ifs with h0 hms hus hneg
  · exact ⟨_, rfl, by simp [exact, newSecond, TimeUnit.factor, h0]⟩
  · rw [checkedMulAdd_eq (hr _ (by norm_num) (by norm_num)) (hr _ (by omega) (by omega))
      (hr _ (by omega) (by omega)) (hr _ (by omega) (by omega)), Option.map_some]
    exact ⟨_, rfl, by simp only [exact, TimeUnit.factor]; omega⟩
  · rw [checkedMulAdd_eq (hr _ (by norm_num) (by norm_num)) (hr _ (by omega) (by omega))
      (hr _ (by omega) (by omega)) (hr _ (by omega) (by omega)), Option.map_some]
    exact ⟨_, rfl, by simp only [exact, TimeUnit.factor]; omega⟩
  all_goals
    -- no coarser unit holds the nanoseconds, so the instant fits in nanoseconds
    have hin := hns hus
    unfold I64.InRange I64.minValue I64.maxValue at hin
    dsimp only
  · have ha := I64.val_wrap_of_inRange (hr (sec.val + 1) (by omega) (by omega))
    rw [checkedMulAdd_eq (hr _ (by norm_num) (by norm_num)) (hr _ (by omega) (by omega))
      (hr _ (by rw [ha]; omega) (by rw [ha]; omega)) (hr _ (by rw [ha]; omega) (by rw [ha]; omega)),
      Option.map_some]
    exact ⟨_, rfl, by simp only [exact, TimeUnit.factor, ha]; omega⟩
  · have ha := I64.val_wrap_of_inRange sec.inRange
    rw [checkedMulAdd_eq (hr _ (by norm_num) (by norm_num)) (hr _ (by omega) (by omega))
      (hr _ (by rw [ha]; omega) (by rw [ha]; omega)) (hr _ (by rw [ha]; omega) (by rw [ha]; omega)),
      Option.map_some]
    exact ⟨_, rfl, by simp only [exact, TimeUnit.factor, ha]; omega⟩


/-- Of the units, only nanoseconds leave a remainder below a microsecond. -/
lemma unit_eq_nanosecond {ts : Timestamp} (h : ts.exact % 1000 ≠ 0) : ts.unit = .nanosecond := by
  obtain ⟨v, u⟩ := ts
  cases u <;> simp only [exact, TimeUnit.factor] at h ⊢ <;> omega

/-- A date that `to_chrono_datetime` gives back is rebuilt by `from_chrono_datetime` as a
timestamp of the same instant, in the coarsest unit that holds it. -/
theorem fromChronoDatetime_toChronoDatetime {ts : Timestamp} {d : ℤ}
    (h : ts.toChronoDatetime = some d) :
    ∃ t, fromChronoDatetime d = some t ∧ eq t ts = true := by
  unfold toChronoDatetime at h
  split_ifs at h with hr
  cases h
  rw [split_eq] at hr ⊢
  dsimp only at hr ⊢
  have hd : ts.exact / 1000000000 * 1000000000 + ts.exact % 1000000000 = ts.exact := by omega
  have hsec : (I64.wrap (ts.exact / 1000000000)).val = ts.exact / 1000000000 := by
    apply I64.val_wrap_of_inRange
    unfold minSecond maxSecond at hr
    unfold I64.InRange I64.minValue I64.maxValue
    omega
  rw [hd, fromChronoDatetime]
  rw [← hsec] at hr
  have hns : (ts.exact % 1000000000).toNat % 1000 ≠ 0 →
      I64.InRange ((I64.wrap (ts.exact / 1000000000)).val * 1000000000 +
        (ts.exact % 1000000000).toNat) := by
    -- a remainder below a microsecond comes from a nanosecond value, which fits
    intro hns
    have hu : ts.unit = .nanosecond := unit_eq_nanosecond (by omega)
    have hv := ts.value.inRange
    rw [hsec]
    simp only [exact, hu, TimeUnit.factor] at hv ⊢
    unfold I64.InRange I64.minValue I64.maxValue at hv ⊢
    omega
  obtain ⟨t, ht, hex⟩ := fromSplits_spec (by omega) hr hns
  refine ⟨t, ht, (eq_iff_exact t ts).mpr ?_⟩
  rw [hex, hsec]
  omega

/-- A negative nanosecond timestamp with a sub-second part, the case that `from_splits`
rebalances. -/
theorem fromChronoDatetime_negative_nanos :
    (⟨I64.wrap (-1500000001), .nanosecond⟩ : Timestamp).toChronoDatetime = some (-1500000001) ∧
      ∃ t, fromChronoDatetime (-1500000001) = some t ∧
        eq t ⟨I64.wrap (-1500000001), .nanosecond⟩ = true :=
  ⟨by decide, fromChronoDatetime_toChronoDatetime (by decide)⟩

end Timestamp

end Greptime
