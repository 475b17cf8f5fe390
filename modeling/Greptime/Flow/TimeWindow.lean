import Greptime.Flow.DirtyTimeWindows
import Greptime.Foundations.Except

/-!
# Time windows of a batching flow (`flow::batching_mode::time_window`)

`TimeWindowExpr::eval` finds the time window a timestamp lies in.  The window expression's
value at the timestamp is the window's start (`calc_expr_time_window_lower_bound`); its end is
the first timestamp whose window starts later.  `probe_expr_time_window_upper_bound` finds that
end: it probes `current + 1`, `current + 2`, `current + 4`, ... until the window changes, and
then `binary_search_expr` searches between the last probe in the window and the first one past
it.

The window expression is a parameter `f`, a function of the timestamp's value (all timestamps
have one unit) into an ordered type; its errors are left out.  The probe stops by itself, after
at most 64 rounds (`probeLoop_isSome`).  The binary search has no bound of its own: the model
runs it on `fuel` and answers `none` when the fuel runs out.

The midpoint is `(low + high) / 2` on `i64`, whose division rounds towards zero, so below zero
it rounds up.  From `low = -3`, `high = -2` the midpoint is `-2 = high`; the window there is
past the current one, and `high = mid` changes nothing.  `binarySearchLoop_stuck` says that
every state `high = low + 1 ≤ 0` with `high` past the current window repeats forever, and
`probeExprTimeWindowUpperBound_loops` is the probe reaching one from `-3` under windows of two
units.

Once `TimeWindowExpr::new` has evaluated one window it knows a window's start and the windows'
size, and `eval` takes its fast path (`evalFastPath`): `compute_distance` rounds `current -
original` down to a multiple of the size with `i64` operations, and the window starts that far
from `original`.  `computeDistance_of_pos` says that it is the floor multiple wherever that fits
in an `i64`, and `evalFastPath_spec` that the window returned for nanosecond timestamps holds
`current`, is as long as the size and starts a multiple of it after `original`.  The floor
multiple itself can leave the range while the window it starts is inside it:
`evalFastPath_overflows`.
-/

namespace Greptime

namespace TimeWindowExpr

section Probe

variable {β : Type} [LinearOrder β] (f : I64 → β)

/-- `(low + high) / 2` on `i64`: `none` where the sum overflows, a panic with overflow checks. -/
def midpoint (low high : I64) : Option I64 :=
  I64.checkedAdd low high >>= fun sum => I64.checkedDiv sum (I64.wrap 2)

/-- The loop of `binary_search_expr`, `while low < high`: a midpoint in the current window `cur`
moves `low` past it, one past the window moves `high` to it, and one before the window is the
`Unexpected` error of a window expression that is not monotonic. -/
def binarySearchLoop (cur : β) (fuel : ℕ) (low high : I64) : Option (Except FlowError I64) :=
  if low < high then
    match fuel with
    | 0 => none
    | fuel + 1 =>
      match midpoint low high with
      | none => some (.error .panic)
      | some mid =>
        match compare (f mid) cur with
        | .lt => some (.error .unexpected)
        | .eq =>
          match I64.checkedAdd mid (I64.wrap 1) with
          | none => some (.error .panic)
          | some low' => binarySearchLoop cur fuel low' high
        | .gt => binarySearchLoop cur fuel low mid
  else some (.ok high)

/-- `binary_search_expr` on bounds of one unit: both bounds must be there. -/
def binarySearchExpr (lowerBound upperBound : Option I64) (cur : β) (fuel : ℕ) :
    Option (Except FlowError I64) :=
  match lowerBound, upperBound with
  | some low, some high => binarySearchLoop f cur fuel low high
  | _, _ => some (.error .unexpected)

/-- The exponential probe of `probe_expr_time_window_upper_bound`: it probes `current + offset`,
with `offset` doubling from 1, and keeps in `lowerBound` the last probe in the current window
`cur`.  It answers that probe and the first one past the window, or `none` where `current +
offset` or the next offset overflows. -/
def probeLoop (current : I64) (cur : β) :
    ℕ → I64 → I64 → Option (Except FlowError (Option (I64 × I64)))
  | 0, _, _ => none
  | fuel + 1, offset, lowerBound =>
    match I64.checkedAdd current offset with
    | none => some (.ok none)
    | some nextVal =>
      match compare (f nextVal) cur with
      | .lt => some (.error .unexpected)
      | .eq =>
        match I64.checkedMul offset (I64.wrap 2) with
        | none => some (.ok none)
        | some newOffset => probeLoop current cur fuel newOffset nextVal
      | .gt => some (.ok (some (lowerBound, nextVal)))

/-- `probe_expr_time_window_upper_bound`: 64 rounds of the probe, which it never exceeds, and
`fuel` rounds of the binary search. -/
def probeExprTimeWindowUpperBound (fuel : ℕ) (current : I64) :
    Option (Except FlowError (Option I64)) :=
  let curTimeWindow := f current
  match probeLoop f current curTimeWindow 64 (I64.wrap 1) current with
  | none => none
  | some (.error e) => some (.error e)
  | some (.ok none) => some (.ok none)
  | some (.ok (some (lowerBound, upperBound))) =>
    (binarySearchExpr f (some lowerBound) (some upperBound) curTimeWindow fuel).map
      (Except.map some)

/-! ### The probe stops by itself -/

/-- From an offset `2 ^ k`, the probe ends within `63 - k` rounds: the offset `2 ^ 63` no longer
fits in an `i64`. -/
lemma probeLoop_isSome (current : I64) (cur : β) :
    ∀ (fuel k : ℕ) (offset lowerBound : I64), offset.val = 2 ^ k → k ≤ 62 →
      63 - k ≤ fuel → (probeLoop f current cur fuel offset lowerBound).isSome
  | 0, k, _, _, _, hk, hfuel => absurd hfuel (by omega)
  | fuel + 1, k, offset, lowerBound, hoffset, hk, hfuel => by
    unfold probeLoop
    split
    · rfl
    · split
      · rfl
      · split
        · rfl
        · rename_i newOffset hmul
          obtain ⟨hrange, hval⟩ := I64.checkedMul_eq_some.mp hmul
          have htwo : (I64.wrap 2).val = 2 := I64.val_wrap_of_inRange (by decide)
          -- the doubled offset fits, so the probe was not yet at `2 ^ 62`
          have hk' : k + 1 ≤ 62 := by
            by_contra hlast
            have h62 : k = 62 := by omega
            rw [hoffset, h62, htwo] at hrange
            exact absurd hrange.2 (by unfold I64.maxValue; norm_num)
          exact probeLoop_isSome current cur fuel (k + 1) newOffset _
            (by rw [hval, hoffset, htwo, pow_succ]) hk' (by omega)
      · rfl

/-! ### A search that does not move -/

/-- The midpoint of `low` and `low + 1` below zero is `low + 1`: `/` rounds the sum `2 * low + 1`
towards zero, up. -/
lemma midpoint_of_succ_of_neg {low high : I64} (hhigh : high.val = low.val + 1)
    (hneg : low.val < 0) (hsum : I64.minValue ≤ low.val + high.val) :
    midpoint low high = some high := by
  have hrange : I64.InRange (low.val + high.val) := by
    have := high.inRange
    unfold I64.InRange at this ⊢
    omega
  obtain ⟨sum, hadd⟩ : ∃ sum, I64.checkedAdd low high = some sum :=
    ⟨⟨_, hrange⟩, I64.checkedAdd_eq_some.mpr ⟨hrange, rfl⟩⟩
  have hsumv := (I64.checkedAdd_eq_some.mp hadd).2
  have htwo : (I64.wrap 2).val = 2 := I64.val_wrap_of_inRange (by decide)
  -- `tdiv` of the negative sum is minus the floor of its negation
  have hdiv : sum.val.tdiv 2 = high.val := by
    rw [← neg_neg sum.val, Int.neg_tdiv, Int.tdiv_eq_ediv_of_nonneg (by omega)]
    omega
  simp only [midpoint, hadd, Option.bind_eq_bind, Option.bind_some]
  exact I64.checkedDiv_eq_some.mpr ⟨by omega, by rw [htwo, hdiv]; exact high.inRange,
    by rw [htwo, hdiv]⟩

/-- A search at `high = low + 1 ≤ 0`, with `high` past the current window, never returns: its
midpoint is `high` again, and so is the new `high`. -/
theorem binarySearchLoop_stuck {cur : β} {low high : I64} (hhigh : high.val = low.val + 1)
    (hneg : low.val < 0) (hsum : I64.minValue ≤ low.val + high.val) (hpast : cur < f high) :
    ∀ fuel, binarySearchLoop f cur fuel low high = none
  | 0 => by
    rw [binarySearchLoop, if_pos (I64.lt_iff.mpr (by omega))]
  | fuel + 1 => by
    rw [binarySearchLoop, if_pos (I64.lt_iff.mpr (by omega))]
    simp only [midpoint_of_succ_of_neg hhigh hneg hsum, compare_gt_iff_gt.mpr hpast]
    exact binarySearchLoop_stuck hhigh hneg hsum hpast fuel

end Probe

/-- Windows of two units from zero (`date_bin` of two units): from `-3` the probe finds the
window's end at `-2` at once and hands the binary search `low = -3`, `high = -2`, where it stays
for ever. -/
theorem probeExprTimeWindowUpperBound_loops (fuel : ℕ) :
    probeExprTimeWindowUpperBound (fun t : I64 => t.val / 2 * 2) fuel (I64.wrap (-3)) = none := by
  have hprobe : probeLoop (fun t : I64 => t.val / 2 * 2) (I64.wrap (-3))
      ((I64.wrap (-3)).val / 2 * 2) 64 (I64.wrap 1) (I64.wrap (-3)) =
        some (.ok (some (I64.wrap (-3), I64.wrap (-2)))) := by
    decide
  simp only [probeExprTimeWindowUpperBound, hprobe, binarySearchExpr]
  rw [binarySearchLoop_stuck _ (by decide) (by decide) (by decide) (by decide)]
  rfl

/-! ## The fast path -/

section FastPath

/-- `Option::ok_or`, which `.context(..)?` and an operation that panics amount to. -/
def okOr {α : Type} (o : Option α) (e : FlowError) : Except FlowError α :=
  match o with
  | some a => .ok a
  | none => .error e

@[simp] lemma okOr_eq_ok {α : Type} {o : Option α} {e : FlowError} {a : α} :
    okOr o e = .ok a ↔ o = some a := by
  cases o <;> simp [okOr]

/-- `compute_distance` on `i64`: the multiple of `strideNs` at or below `timeDiffNs`.  `%` keeps
the sign of the dividend, so a negative difference that is not a multiple goes one stride
further down.  `none` where an operation overflows, a panic with overflow checks. -/
def computeDistance (timeDiffNs strideNs : I64) : Option I64 :=
  if strideNs.val = 0 then some timeDiffNs
  else do
    let timeDelta ← I64.checkedSub timeDiffNs (← I64.checkedRem timeDiffNs strideNs)
    if timeDiffNs.val < 0 ∧ timeDelta ≠ timeDiffNs then I64.checkedSub timeDelta strideNs
    else pure timeDelta

/-- The start of `current`'s window on the fast path: `original` moved by the distance, forwards
with `add_duration` or backwards with `sub_duration` (`-distance_ns` panics at `i64::MIN`). -/
def lowerBoundOf (original : Timestamp) (distanceNs : I64) : Except FlowError Timestamp :=
  if 0 ≤ distanceNs.val then
    okOr (original.addDuration (Duration.fromNanos distanceNs.val.toNat)) .time
  else do
    let negated ← okOr (I64.tryOfInt (-distanceNs.val)) .panic
    okOr (original.subDuration (Duration.fromNanos negated.val.toNat)) .time

/-- The fast path of `TimeWindowExpr::eval`, once `TimeWindowExpr::new` knows the start of a
window (`eval_time_original`) and the windows' size (`eval_time_window_size`): the window of
`current` starts the multiple of the size at or below `current - original` after `original`.
`window_size.as_nanos() as i64` keeps the low 64 bits. -/
def evalFastPath (original : Timestamp) (windowSize : Duration) (current : Timestamp) :
    Except FlowError (Option Timestamp × Option Timestamp) := do
  let timeDiffNs ← okOr ((current.sub original).bind I64.tryOfInt) .unexpected
  let windowSizeNs := I64.wrap (windowSize.asUnit .nanosecond)
  let distanceNs ← okOr (computeDistance timeDiffNs windowSizeNs) .panic
  let lowerBound ← lowerBoundOf original distanceNs
  let upperBound ← okOr (lowerBound.addDuration windowSize) .time
  pure (some lowerBound, some upperBound)

lemma checkedRem_of_pos {a b : I64} (hb : 0 < b.val) :
    ∃ c, I64.checkedRem a b = some c ∧ c.val = a.val.tmod b.val := by
  have hrange : I64.InRange (a.val.tmod b.val) := by
    have h1 := Int.tmod_lt_of_pos a.val hb
    have h2 := Int.lt_tmod_of_pos a.val hb
    have := b.inRange
    unfold I64.InRange I64.minValue I64.maxValue at this ⊢
    omega
  refine ⟨⟨_, hrange⟩, ?_, rfl⟩
  unfold I64.checkedRem
  rw [if_neg (by omega), I64.tryOfInt_eq_some]
  exact ⟨hrange, rfl⟩

/-- For a positive stride, `compute_distance` is the multiple of the stride at or below the
difference, where that fits in an `i64`: no step before the last overflows. -/
lemma computeDistance_of_pos {timeDiffNs strideNs : I64} (hb : 0 < strideNs.val) :
    computeDistance timeDiffNs strideNs =
      I64.tryOfInt (timeDiffNs.val / strideNs.val * strideNs.val) := by
  obtain ⟨rem, hrem, hremv⟩ := checkedRem_of_pos (a := timeDiffNs) hb
  have ha := timeDiffNs.inRange
  have hbr := strideNs.inRange
  unfold I64.InRange I64.minValue I64.maxValue at ha hbr
  -- `%` is the Euclidean remainder `r`, less one stride for a negative non-multiple
  have htmod := Int.tmod_eq_emod (a := timeDiffNs.val) (b := strideNs.val)
  have hdecomp := Int.emod_add_ediv_mul timeDiffNs.val strideNs.val
  have hr0 := Int.emod_nonneg timeDiffNs.val hb.ne'
  have hrb := Int.emod_lt_of_pos timeDiffNs.val hb
  simp only [Int.dvd_iff_emod_eq_zero, Nat.cast_ite, Int.natCast_zero,
    Int.natAbs_of_nonneg hb.le] at htmod
  generalize timeDiffNs.val / strideNs.val * strideNs.val = m at *
  generalize timeDiffNs.val % strideNs.val = r at *
  -- `time_delta = time_diff - rem` lies between the difference and zero
  have hdeltaRange : I64.InRange (timeDiffNs.val - rem.val) := by
    unfold I64.InRange I64.minValue I64.maxValue
    split_ifs at htmod <;> omega
  obtain ⟨timeDelta, hdelta, hdeltav⟩ : ∃ timeDelta,
      I64.checkedSub timeDiffNs rem = some timeDelta ∧ timeDelta.val = timeDiffNs.val - rem.val :=
    ⟨⟨_, hdeltaRange⟩, I64.checkedSub_eq_some.mpr ⟨hdeltaRange, rfl⟩, rfl⟩
  unfold computeDistance
  rw [if_neg hb.ne', hrem]
  simp only [Option.bind_eq_bind, Option.bind_some, hdelta]
  split_ifs with hcase
  · -- a negative difference between two multiples: one stride below `time_delta`
    have hne : timeDelta.val ≠ timeDiffNs.val := fun h => hcase.2 (I64.ext h)
    unfold I64.checkedSub
    congr 1
    split_ifs at htmod <;> omega
  · -- otherwise `time_delta` is the multiple itself
    have hm : timeDelta.val = m := by
      by_cases hneg : timeDiffNs.val < 0
      · have heq : timeDelta = timeDiffNs := by simpa [hneg] using hcase
        rw [heq] at hdeltav ⊢
        split_ifs at htmod <;> omega
      · split_ifs at htmod <;> omega
    rw [← hm]
    exact (I64.tryOfInt_eq_some.mpr ⟨timeDelta.inRange, rfl⟩).symm

lemma val_wrap_asUnit {windowSize : Duration}
    (hwmax : (windowSize.asUnit .nanosecond : ℤ) ≤ I64.maxValue) :
    (I64.wrap (windowSize.asUnit .nanosecond)).val = windowSize.asUnit .nanosecond :=
  I64.val_wrap_of_inRange ⟨by unfold I64.minValue; omega, hwmax⟩

/-- The lower bound of the fast path: `original` moved by the distance, up or down. -/
lemma lowerBoundOf_eq_ok {original lo : Timestamp} {distanceNs : I64}
    (h : lowerBoundOf original distanceNs = .ok lo) (horig : original.unit = .nanosecond) :
    lo.unit = .nanosecond ∧ lo.value.val = original.value.val + distanceNs.val := by
  unfold lowerBoundOf at h
  split_ifs at h with hpos
  · obtain ⟨hunit, hval⟩ := Timestamp.addDuration_eq_some (okOr_eq_ok.mp h)
    rw [horig, Duration.asUnit_fromNanos] at hval
    exact ⟨hunit.trans horig, by rw [hval]; omega⟩
  · obtain ⟨negated, hneg, h⟩ := Except.bind_eq_ok.mp h
    obtain ⟨-, hnegv⟩ := I64.tryOfInt_eq_some.mp (okOr_eq_ok.mp hneg)
    obtain ⟨hunit, hval⟩ := Timestamp.subDuration_eq_some (okOr_eq_ok.mp h)
    rw [horig, Duration.asUnit_fromNanos] at hval
    exact ⟨hunit.trans horig, by rw [hval]; omega⟩

/-- For nanosecond timestamps and a window of at most `i64::MAX` nanoseconds, what the fast path
returns is the window of `current`: it starts a multiple of the size after `original`, holds
`current` and is as long as the size. -/
theorem evalFastPath_spec {original current lo hi : Timestamp} {windowSize : Duration}
    (horig : original.unit = .nanosecond) (hcur : current.unit = .nanosecond)
    (hw : 0 < windowSize.asUnit .nanosecond)
    (hwmax : (windowSize.asUnit .nanosecond : ℤ) ≤ I64.maxValue)
    (h : evalFastPath original windowSize current = .ok (some lo, some hi)) :
    lo.unit = .nanosecond ∧ hi.unit = .nanosecond ∧
      lo.value.val ≤ current.value.val ∧ current.value.val < hi.value.val ∧
      hi.value.val - lo.value.val = windowSize.asUnit .nanosecond ∧
      (windowSize.asUnit .nanosecond : ℤ) ∣ lo.value.val - original.value.val := by
  obtain ⟨timeDiffNs, hdiff, h⟩ := Except.bind_eq_ok.mp h
  obtain ⟨distanceNs, hdist, h⟩ := Except.bind_eq_ok.mp h
  obtain ⟨lowerBound, hlower, h⟩ := Except.bind_eq_ok.mp h
  obtain ⟨upperBound, hupper, h⟩ := Except.bind_eq_ok.mp h
  cases h
  -- the difference of two nanosecond timestamps
  obtain ⟨d, hsub, htry⟩ := Option.bind_eq_some_iff.mp (okOr_eq_ok.mp hdiff)
  have hd := Timestamp.sub_of_nanosecond hcur horig hsub
  have hdv := (I64.tryOfInt_eq_some.mp htry).2
  -- the distance is the floor multiple of the window size
  have hwv := val_wrap_asUnit hwmax
  rw [okOr_eq_ok, computeDistance_of_pos (by rw [hwv]; exact_mod_cast hw),
    I64.tryOfInt_eq_some, hwv] at hdist
  obtain ⟨hlunit, hlval⟩ := lowerBoundOf_eq_ok hlower horig
  obtain ⟨hhunit, hhval⟩ := Timestamp.addDuration_eq_some (okOr_eq_ok.mp hupper)
  rw [hlunit] at hhval
  -- `w * ⌊diff / w⌋ ≤ diff < w * ⌊diff / w⌋ + w`
  have hw' : (0 : ℤ) < windowSize.asUnit .nanosecond := by exact_mod_cast hw
  have hfloor := Int.ediv_mul_le timeDiffNs.val hw'.ne'
  have hceil := Int.lt_ediv_add_one_mul_self timeDiffNs.val hw'
  refine ⟨hlunit, hhunit.trans hlunit, ?_, ?_, ?_, ?_⟩
  · rw [hlval, hdist.2]; omega
  · rw [hhval, hlval, hdist.2]; rw [Int.add_mul, Int.one_mul] at hceil; omega
  · rw [hhval]; omega
  · rw [hlval, hdist.2, add_sub_cancel_left]
    exact Dvd.intro_left _ rfl

theorem evalFastPath_spec_tenSeconds :
    (⟨I64.wrap 3, .nanosecond⟩ : Timestamp).unit = .nanosecond ∧
      (⟨I64.wrap 27, .nanosecond⟩ : Timestamp).unit = .nanosecond ∧
      0 < (Duration.fromNanos 10).asUnit .nanosecond ∧
      ((Duration.fromNanos 10).asUnit .nanosecond : ℤ) ≤ I64.maxValue ∧
      evalFastPath ⟨I64.wrap 3, .nanosecond⟩ (Duration.fromNanos 10) ⟨I64.wrap 27, .nanosecond⟩ =
        .ok (some ⟨I64.wrap 23, .nanosecond⟩, some ⟨I64.wrap 33, .nanosecond⟩) ∧
      (⟨I64.wrap 23, .nanosecond⟩ : Timestamp).unit = .nanosecond ∧
      (⟨I64.wrap 33, .nanosecond⟩ : Timestamp).unit = .nanosecond ∧
      (I64.wrap 23).val ≤ (I64.wrap 27).val ∧ (I64.wrap 27).val < (I64.wrap 33).val ∧
      (I64.wrap 33).val - (I64.wrap 23).val = (Duration.fromNanos 10).asUnit .nanosecond ∧
      ((Duration.fromNanos 10).asUnit .nanosecond : ℤ) ∣ (I64.wrap 23).val - (I64.wrap 3).val :=
  ⟨rfl, rfl, by decide, by decide, by decide,
    @evalFastPath_spec ⟨I64.wrap 3, .nanosecond⟩ ⟨I64.wrap 27, .nanosecond⟩
      ⟨I64.wrap 23, .nanosecond⟩ ⟨I64.wrap 33, .nanosecond⟩ (Duration.fromNanos 10) rfl rfl
      (by decide) (by decide) (by decide)⟩

/-- Windows of `2^62 + 1` ns from `2^62` ns: the window of `-2` ns is `[-2^62 - 2, -1)` ns, which
`i64` nanoseconds hold, but `compute_distance` goes one stride below `-(2^62 + 1)` and overflows. -/
theorem evalFastPath_overflows :
    evalFastPath ⟨I64.wrap (2 ^ 62), .nanosecond⟩ (Duration.fromNanos (2 ^ 62 + 1))
        ⟨I64.wrap (-2), .nanosecond⟩ = .error .panic ∧
      I64.InRange (2 ^ 62 + (-2 - 2 ^ 62) / (2 ^ 62 + 1) * (2 ^ 62 + 1)) ∧
      I64.InRange (2 ^ 62 + (-2 - 2 ^ 62) / (2 ^ 62 + 1) * (2 ^ 62 + 1) + (2 ^ 62 + 1)) :=
  ⟨rfl, by decide, by decide⟩

end FastPath

end TimeWindowExpr

end Greptime
