import Mathlib.Algebra.Order.Field.Basic
import Mathlib.Algebra.Order.BigOperators.Group.List
import Mathlib.Data.Real.Basic
import Mathlib.Tactic.Linarith
import Mathlib.Tactic.FieldSimp
import Mathlib.Tactic.Ring

/-!
# `rate`, `increase` and `delta` (`ExtrapolatedRate`)

`ExtrapolatedRate::calc` computes PromQL's `delta`, `rate` and `increase` of the samples of each
window: the change from the first value to the last, for a counter corrected by the value before
each reset, stretched by `extrapolate_factor` from the span of the samples toward the edges of
the window, and for `rate` divided by the window's length in seconds.

The values are numbers of an ordered field: the model is the computation in real numbers, not in
`f64`.  For `n ≥ 2` samples with increasing timestamps inside `[end - range, end]`:
* the counter's change is the increase corrected for resets, `resetIncrease`, which is not
  negative on values that are not (`counterChange_eq_resetIncrease`, `resetIncrease_nonneg`);
* the factor is at least `1` and at most the window over the span of the samples: stretching
  never goes past an edge of the window (`extrapolateFactor_bounds`);
* so `increase` lies between the corrected increase and the same stretched to the whole window,
  `rate` is `increase` per second of the window, and `delta` is the change stretched by such a
  factor (`extrapolatedRate_bounds`).
-/

namespace Greptime

/-- `ExtrapolatedRate`: the length of the windows, in milliseconds.  `IS_COUNTER` and `IS_RATE`
are the arguments `isCounter` and `isRate` of its functions: `prom_delta` has neither,
`prom_rate` both and `prom_increase` only `isCounter`. -/
structure ExtrapolatedRate where
  rangeLength : ℤ

namespace ExtrapolatedRate

variable {K : Type*} [Field K] [LinearOrder K]

/-! ## The model -/

/-- `extrapolate_factor`: the span of the samples, stretched at each end to the edge of the window
when the edge is near, by less than `1.1` times the average spacing, and otherwise by half the
average spacing, as a multiple of the span.  A counter is not stretched before the time its
slope reaches zero. -/
def extrapolateFactor (isCounter : Bool) (timestamps : List ℤ) (rangeEnd rangeLength : ℤ)
    (firstValue resultValue : K) : K :=
  let rangeStart := rangeEnd - rangeLength
  let durationToStart : K := ((timestamps.headD 0 - rangeStart : ℤ) : K) / 1000
  let durationToEnd : K := ((rangeEnd - timestamps.getLastD 0 : ℤ) : K) / 1000
  let sampledInterval : K := ((timestamps.getLastD 0 - timestamps.headD 0 : ℤ) : K) / 1000
  let averageDurationBetweenSamples := sampledInterval / ((timestamps.length - 1 : ℕ) : K)
  let durationToStart :=
    if isCounter ∧ 0 < resultValue ∧ 0 ≤ firstValue then
      let durationToZero := sampledInterval * (firstValue / resultValue)
      if durationToZero < durationToStart then durationToZero else durationToStart
    else durationToStart
  let extrapolationThreshold := averageDurationBetweenSamples * (11 / 10)
  let extrapolateToInterval := sampledInterval +
    if durationToStart < extrapolationThreshold then durationToStart
    else averageDurationBetweenSamples / 2
  let extrapolateToInterval := extrapolateToInterval +
    if durationToEnd < extrapolationThreshold then durationToEnd
    else averageDurationBetweenSamples / 2
  extrapolateToInterval / sampledInterval

/-- The reset correction of `calc`: over the consecutive pairs of values, `prev` added for each
pair that drops. -/
def addResets (values : List K) (resultValue : K) : K :=
  (values.zip values.tail).foldl
    (fun resultValue (prev, curr) => if curr < prev then resultValue + prev else resultValue)
    resultValue

/-- The body of the loop of `calc` for one window, with the timestamps and values of its samples
and the timestamp it ends at: nothing for fewer than two samples. -/
def calcWindow (e : ExtrapolatedRate) (isCounter isRate : Bool) (timestamps : List ℤ)
    (values : List K) (endTs : ℤ) : Option K :=
  if values.length < 2 then none
  else
    let resultValue := values.getLastD 0 - values.headD 0
    let resultValue := if isCounter then addResets values resultValue else resultValue
    let factor := extrapolateFactor isCounter timestamps endTs e.rangeLength (values.headD 0)
      resultValue
    let factor := if isRate then factor / ((e.rangeLength : K) / 1000) else factor
    some (resultValue * factor)

/-- `calc`: each window given by its `(offset, length)` in the timestamps and values, with the
timestamp it ends at. -/
def «calc» (e : ExtrapolatedRate) (isCounter isRate : Bool) (allTimestamps : List ℤ)
    (allValues : List K) (ranges : List (ℕ × ℕ)) (ts : List ℤ) : List (Option K) :=
  (ranges.zip ts).map fun ((offset, length), endTs) =>
    e.calcWindow isCounter isRate ((allTimestamps.drop offset).take length)
      ((allValues.drop offset).take length) endTs

/-- `prom_delta`: `ExtrapolatedRate<false, false>`. -/
def promDelta (e : ExtrapolatedRate) :
    List ℤ → List K → List (ℕ × ℕ) → List ℤ → List (Option K) :=
  e.calc false false

/-- `prom_rate`: `ExtrapolatedRate<true, true>`. -/
def promRate (e : ExtrapolatedRate) :
    List ℤ → List K → List (ℕ × ℕ) → List ℤ → List (Option K) :=
  e.calc true true

/-- `prom_increase`: `ExtrapolatedRate<true, false>`. -/
def promIncrease (e : ExtrapolatedRate) :
    List ℤ → List K → List (ℕ × ℕ) → List ℤ → List (Option K) :=
  e.calc true false

/-! ## The increase of a counter -/

/-- What a counter gained over its samples: each rise between consecutive values, and after a
drop (a reset to zero) the whole value it restarted to. -/
def resetIncrease (values : List K) : K :=
  ((values.zip values.tail).map fun (prev, curr) => if prev ≤ curr then curr - prev else curr).sum

@[simp] lemma addResets_nil (r : K) : addResets [] r = r := rfl

@[simp] lemma addResets_singleton (x r : K) : addResets [x] r = r := rfl

lemma addResets_cons_cons (x y : K) (rest : List K) (r : K) :
    addResets (x :: y :: rest) r = addResets (y :: rest) (if y < x then r + x else r) := rfl

@[simp] lemma resetIncrease_nil : resetIncrease ([] : List K) = 0 := rfl

@[simp] lemma resetIncrease_singleton (x : K) : resetIncrease [x] = 0 := rfl

lemma resetIncrease_cons_cons (x y : K) (rest : List K) :
    resetIncrease (x :: y :: rest) =
      (if x ≤ y then y - x else y) + resetIncrease (y :: rest) := rfl

/-- The loop over the pairs, started from `r` plus the change from the first value to the last,
ends at `r` plus what the counter gained. -/
lemma addResets_eq (x : K) (xs : List K) (r : K) :
    addResets (x :: xs) (r + ((x :: xs).getLastD 0 - x)) = r + resetIncrease (x :: xs) := by
  induction xs generalizing x r with
  | nil => simp
  | cons y rest ih =>
    have hlast : (x :: y :: rest).getLastD 0 = (y :: rest).getLastD 0 := by
      simp only [List.getLastD_cons]
    -- a drop from `x` to `y` adds `x` back: the first pair moves the start of the change to `y`
    have hstep : (if y < x then r + ((y :: rest).getLastD 0 - x) + x
        else r + ((y :: rest).getLastD 0 - x)) =
        r + (if x ≤ y then y - x else y) + ((y :: rest).getLastD 0 - y) := by
      rcases lt_or_ge y x with hyx | hxy
      · rw [if_pos hyx, if_neg (not_le.2 hyx)]
        ring
      · rw [if_neg (not_lt.2 hxy), if_pos hxy]
        ring
    rw [addResets_cons_cons, hlast, hstep, ih, resetIncrease_cons_cons, add_assoc]

/-- The counter's change in `calc`, the last value minus the first with the value before each
drop added, is what the counter gained. -/
lemma counterChange_eq_resetIncrease (values : List K) :
    addResets values (values.getLastD 0 - values.headD 0) = resetIncrease values := by
  cases values with
  | nil => simp
  | cons x xs => simpa using addResets_eq x xs 0

variable [IsStrictOrderedRing K]

lemma resetIncrease_nonneg {values : List K} (hvalues : ∀ v ∈ values, 0 ≤ v) :
    0 ≤ resetIncrease values := by
  apply List.sum_nonneg
  simp only [List.mem_map, Prod.exists]
  rintro _ ⟨prev, curr, hmem, rfl⟩
  have hcurr : 0 ≤ curr := hvalues curr (List.mem_of_mem_tail (List.of_mem_zip hmem).2)
  split_ifs with h
  · exact sub_nonneg.2 h
  · exact hcurr

/-! ## The bounds on the factor -/

/-- The timestamps of a window's samples: at least two, increasing, and inside the window
`[rangeEnd - rangeLength, rangeEnd]`. -/
structure Sampled (timestamps : List ℤ) (rangeEnd rangeLength : ℤ) : Prop where
  two_le : 2 ≤ timestamps.length
  increasing : timestamps.Pairwise (· < ·)
  inWindow : ∀ t ∈ timestamps, rangeEnd - rangeLength ≤ t ∧ t ≤ rangeEnd

namespace Sampled

variable {timestamps : List ℤ} {rangeEnd rangeLength : ℤ}

lemma head_lt_last (hs : Sampled timestamps rangeEnd rangeLength) :
    timestamps.headD 0 < timestamps.getLastD 0 := by
  obtain ⟨two_le, increasing, -⟩ := hs
  match timestamps, two_le with
  | a :: b :: rest, _ =>
    have hlast : (a :: b :: rest).getLastD 0 ∈ b :: rest := by
      rw [List.getLastD_cons, List.getLastD_cons]
      exact List.getLastD_mem_cons
    exact List.rel_of_pairwise_cons increasing hlast

lemma head_mem (hs : Sampled timestamps rangeEnd rangeLength) :
    timestamps.headD 0 ∈ timestamps := by
  obtain ⟨two_le, -, -⟩ := hs
  match timestamps, two_le with
  | a :: _, _ => exact List.mem_cons_self

lemma last_mem (hs : Sampled timestamps rangeEnd rangeLength) :
    timestamps.getLastD 0 ∈ timestamps := by
  obtain ⟨two_le, -, -⟩ := hs
  match timestamps, two_le with
  | a :: rest, _ =>
    rw [List.getLastD_cons]
    exact List.getLastD_mem_cons

end Sampled

/-- An end of the span is stretched by its distance `d` to the edge of the window, or by half the
average spacing when the edge is farther than the threshold: never by more than the distance,
nor by more than any bound `d₀` on it. -/
lemma stretch_mem_Icc {avg d d₀ : K} (havg : 0 < avg) (hd : d ∈ Set.Icc 0 d₀) :
    (if d < avg * (11 / 10) then d else avg / 2) ∈ Set.Icc 0 d₀ := by
  split_ifs with h
  · exact hd
  · constructor <;> linarith [hd.2]

/-- The zero point of a counter only ever brings the start of the stretch closer. -/
lemma durationToStart_mem_Icc {sampledInterval durationToStart : K} (isCounter : Bool)
    (firstValue resultValue : K) (hsampled : 0 ≤ sampledInterval) (hd : 0 ≤ durationToStart) :
    (if isCounter ∧ 0 < resultValue ∧ 0 ≤ firstValue then
      (if sampledInterval * (firstValue / resultValue) < durationToStart then
        sampledInterval * (firstValue / resultValue) else durationToStart)
    else durationToStart) ∈ Set.Icc 0 durationToStart := by
  split_ifs with hcounter hzero
  · have : 0 ≤ sampledInterval * (firstValue / resultValue) :=
      mul_nonneg hsampled (div_nonneg hcounter.2.2 hcounter.2.1.le)
    exact ⟨this, hzero.le⟩
  · exact ⟨hd, le_rfl⟩
  · exact ⟨hd, le_rfl⟩

/-- A span stretched at each end by at most the distance there is at least the span and at most
the span with both distances. -/
lemma stretched_bounds {S e₁ e₂ d₁ d₂ : K} (hS : 0 < S) (h₁ : e₁ ∈ Set.Icc 0 d₁)
    (h₂ : e₂ ∈ Set.Icc 0 d₂) : 1 ≤ (S + e₁ + e₂) / S ∧ (S + e₁ + e₂) / S ≤ (S + d₁ + d₂) / S := by
  constructor
  · rw [le_div_iff₀ hS]
    linarith [h₁.1, h₂.1]
  · apply div_le_div_of_nonneg_right _ hS.le
    linarith [h₁.2, h₂.2]

/-- The factor is at least `1`, and at most the window over the span of the samples: the
stretch at each end never passes the edge of the window. -/
theorem extrapolateFactor_bounds {timestamps : List ℤ} {rangeEnd rangeLength : ℤ}
    (hs : Sampled timestamps rangeEnd rangeLength) (isCounter : Bool) (firstValue resultValue : K) :
    1 ≤ extrapolateFactor isCounter timestamps rangeEnd rangeLength firstValue resultValue ∧
      extrapolateFactor isCounter timestamps rangeEnd rangeLength firstValue resultValue ≤
        (rangeLength : K) / ((timestamps.getLastD 0 - timestamps.headD 0 : ℤ) : K) := by
  -- the span and the distances to the edges, as integers first
  have hspan : 0 < timestamps.getLastD 0 - timestamps.headD 0 := sub_pos.2 hs.head_lt_last
  have hstart : 0 ≤ timestamps.headD 0 - (rangeEnd - rangeLength) :=
    sub_nonneg.2 (hs.inWindow _ hs.head_mem).1
  have hend : 0 ≤ rangeEnd - timestamps.getLastD 0 := sub_nonneg.2 (hs.inWindow _ hs.last_mem).2
  have hS : (0 : K) < ((timestamps.getLastD 0 - timestamps.headD 0 : ℤ) : K) / 1000 := by
    have : (0 : K) < ((timestamps.getLastD 0 - timestamps.headD 0 : ℤ) : K) := by
      exact_mod_cast hspan
    positivity
  have hds : (0 : K) ≤ ((timestamps.headD 0 - (rangeEnd - rangeLength) : ℤ) : K) / 1000 := by
    have : (0 : K) ≤ ((timestamps.headD 0 - (rangeEnd - rangeLength) : ℤ) : K) := by
      exact_mod_cast hstart
    positivity
  have hde : (0 : K) ≤ ((rangeEnd - timestamps.getLastD 0 : ℤ) : K) / 1000 := by
    have : (0 : K) ≤ ((rangeEnd - timestamps.getLastD 0 : ℤ) : K) := by exact_mod_cast hend
    positivity
  have havg : (0 : K) < ((timestamps.getLastD 0 - timestamps.headD 0 : ℤ) : K) / 1000 /
      ((timestamps.length - 1 : ℕ) : K) := by
    have : (0 : K) < ((timestamps.length - 1 : ℕ) : K) := by
      have := hs.two_le
      exact_mod_cast (by omega : 0 < timestamps.length - 1)
    positivity
  -- the span with both distances is the window
  have hwindow : ((timestamps.getLastD 0 - timestamps.headD 0 : ℤ) : K) / 1000 +
      ((timestamps.headD 0 - (rangeEnd - rangeLength) : ℤ) : K) / 1000 +
      ((rangeEnd - timestamps.getLastD 0 : ℤ) : K) / 1000 = (rangeLength : K) / 1000 := by
    push_cast
    ring
  have hbounds := stretched_bounds hS
    (stretch_mem_Icc havg (durationToStart_mem_Icc isCounter firstValue resultValue hS.le hds))
    (stretch_mem_Icc havg ⟨hde, le_rfl⟩)
  dsimp only [extrapolateFactor]
  refine ⟨hbounds.1, hbounds.2.trans_eq ?_⟩
  rw [hwindow, div_div_div_cancel_right₀ (by norm_num : (1000 : K) ≠ 0)]

/-! ## `increase`, `rate` and `delta` of a window -/

/-- On a window of at least two samples with increasing timestamps inside it and values that are
not negative, `increase` (`calcWindow true false`) is a value `v` between what the counter
gained and the same stretched to the whole window, `rate` (`calcWindow true true`) is `v` per
second of the window, and `delta` (`calcWindow false false`) is the change from the first
value to the last stretched by a factor between `1` and the window over the span. -/
theorem extrapolatedRate_bounds (e : ExtrapolatedRate) (timestamps : List ℤ) (values : List ℝ)
    (endTs : ℤ) (hlength : timestamps.length = values.length) (htwo : 2 ≤ values.length)
    (hincreasing : timestamps.Pairwise (· < ·))
    (hwindow : ∀ t ∈ timestamps, endTs - e.rangeLength ≤ t ∧ t ≤ endTs)
    (hvalues : ∀ v ∈ values, 0 ≤ v) :
    ∃ v, e.calcWindow true false timestamps values endTs = some v ∧
      0 ≤ resetIncrease values ∧ resetIncrease values ≤ v ∧
      v ≤ resetIncrease values * e.rangeLength /
        ((timestamps.getLastD 0 - timestamps.headD 0 : ℤ) : ℝ) ∧
      e.calcWindow true true timestamps values endTs = some (v / (e.rangeLength / 1000)) ∧
      ∃ f, e.calcWindow false false timestamps values endTs =
          some ((values.getLastD 0 - values.headD 0) * f) ∧
        1 ≤ f ∧ f ≤ e.rangeLength / ((timestamps.getLastD 0 - timestamps.headD 0 : ℤ) : ℝ) := by
  have hs : Sampled timestamps endTs e.rangeLength := ⟨hlength ▸ htwo, hincreasing, hwindow⟩
  have hnot : ¬ values.length < 2 := not_lt.2 htwo
  have hraw := counterChange_eq_resetIncrease values
  have hnonneg := resetIncrease_nonneg hvalues
  -- the counter's factor, taken at the change `calc` computes
  obtain ⟨hone, hle⟩ := extrapolateFactor_bounds hs true (values.headD 0) (resetIncrease values)
  refine ⟨resetIncrease values *
      extrapolateFactor true timestamps endTs e.rangeLength (values.headD 0) (resetIncrease values),
    ?increase, hnonneg, le_mul_of_one_le_right hnonneg hone, ?upper, ?rate, ?delta⟩
  case increase => simp only [calcWindow, hnot, ↓reduceIte, Bool.false_eq_true, hraw]
  case upper =>
    rw [mul_div_assoc]
    exact mul_le_mul_of_nonneg_left hle hnonneg
  case rate => simp only [calcWindow, hnot, ↓reduceIte, hraw, mul_div_assoc]
  case delta =>
    refine ⟨_, ?_,
      extrapolateFactor_bounds hs false (values.headD 0) (values.getLastD 0 - values.headD 0)⟩
    simp only [calcWindow, hnot, ↓reduceIte, Bool.false_eq_true]

/-- A counter sampled every five seconds in a window of twenty, reset once between its second
and third samples. -/
def resetTimestamps : List ℤ := [0, 5000, 10000, 15000]

/-- The counter's values at `resetTimestamps`: it gains `3`, restarts at `2` and gains `3`. -/
def resetValues : List ℝ := [1, 4, 2, 5]

theorem extrapolatedRate_bounds_reset :
    resetTimestamps.length = resetValues.length ∧ 2 ≤ resetValues.length ∧
      resetTimestamps.Pairwise (· < ·) ∧
      (∀ t ∈ resetTimestamps, 20000 - (⟨20000⟩ : ExtrapolatedRate).rangeLength ≤ t ∧ t ≤ 20000) ∧
      (∀ v ∈ resetValues, 0 ≤ v) ∧
      ∃ v, (⟨20000⟩ : ExtrapolatedRate).calcWindow true false resetTimestamps resetValues 20000 =
          some v ∧
        0 ≤ resetIncrease resetValues ∧ resetIncrease resetValues ≤ v ∧
        v ≤ resetIncrease resetValues * (20000 : ℤ) /
          ((resetTimestamps.getLastD 0 - resetTimestamps.headD 0 : ℤ) : ℝ) ∧
        (⟨20000⟩ : ExtrapolatedRate).calcWindow true true resetTimestamps resetValues 20000 =
          some (v / ((20000 : ℤ) / 1000)) ∧
        ∃ f, (⟨20000⟩ : ExtrapolatedRate).calcWindow false false resetTimestamps resetValues 20000 =
            some ((resetValues.getLastD 0 - resetValues.headD 0) * f) ∧
          1 ≤ f ∧ f ≤ (20000 : ℤ) / ((resetTimestamps.getLastD 0 - resetTimestamps.headD 0 : ℤ) : ℝ) :=
  ⟨by decide, by decide, by decide, by decide, by norm_num [resetValues],
    extrapolatedRate_bounds ⟨20000⟩ resetTimestamps resetValues 20000 (by decide) (by decide)
      (by decide) (by decide) (by norm_num [resetValues])⟩

end ExtrapolatedRate

end Greptime
