import Greptime.Time.Timestamp
import Mathlib.Data.List.Chain

/-!
# Time bucket spans of files (`mito2::compaction::window`)

`file_time_bucket_span` cuts the seconds `[start_sec, end_sec]` of a file into the buckets of
`bucket_sec` seconds it touches.  It starts from the bucket of `start_sec` (from `i64::MIN`
when that bucket begins below the range) and pushes window after window until it passes the
bucket of `end_sec`; each window ends on the next bucket boundary, or at `i64::MAX` where that
boundary is out of range.

The loop is modelled on explicit fuel (`spanLoop`): `none` is a run still going after that many
turns.  What a call does is settled by two results.

* When the last bucket starts below `i64::MAX`, the call either panics on the capacity it
  reserves or, with enough fuel, returns windows that cover the file bucket by bucket
  (`BucketSpan`): `fileTimeBucketSpan_spec`.
* When `end_sec` is `i64::MAX` and the bucket divides `i64::MAX`, the last bucket starts at
  `i64::MAX` itself.  Its window is clamped to `(i64::MAX, i64::MAX)`, the loop variable stops
  moving, and no fuel ends the loop: `fileTimeBucketSpan_diverges`.

Plain `-` and `+` wrap, as in a release build.  The result's capacity
`((end_aligned - start_aligned) / bucket_sec + 1) as usize` overflows for files that span
more than half the range, and `Vec::with_capacity` panics when the bytes it asks for pass
`isize::MAX`: `fileTimeBucketSpan_maxValue_loops` shows both failures.
-/

namespace Greptime

/-- The panics of `file_time_bucket_span` before its loop. -/
inductive SpanPanic
  /-- `assert!(start_sec <= end_sec)`, or `assert!(bucket_duration > 0)` in `align_by_bucket`. -/
  | assertion
  /-- `Vec::with_capacity` asked for more than `isize::MAX` bytes. -/
  | capacityOverflow
  deriving DecidableEq, Repr

/-- `isize::MAX` on a 64-bit target. -/
def isizeMax : ℕ := 9223372036854775807

/-! ## The model -/

/-- `window_size`: a whole bucket from a bucket boundary, else `(start_aligned %
bucket_sec).abs()`.  Rust's `%` keeps the sign of the dividend, so from a negative start this
is the distance up to the next boundary; `abs` wraps in a release build. -/
def spanWindowSize (bucketSec startAligned : I64) : I64 :=
  if startAligned.val.tmod bucketSec.val = 0 then bucketSec
  else I64.wrap |startAligned.val.tmod bucketSec.val|

/-- `upper_bound`: the end of the window from `start_aligned`, `i64::MAX` when the addition
overflows. -/
def spanUpperBound (bucketSec startAligned : I64) : I64 :=
  (startAligned.checkedAdd (spanWindowSize bucketSec startAligned)).getD I64.MAX

/-- The loop `while start_aligned <= end_aligned`, run for at most `fuel` turns: the windows it
pushes, or `none` if it is still running after them. -/
def spanLoop (bucketSec endAligned : I64) : ℕ → I64 → Option (List (I64 × I64))
  | 0, _ => none
  | fuel + 1, startAligned =>
    if startAligned ≤ endAligned then
      let upperBound := spanUpperBound bucketSec startAligned
      (spanLoop bucketSec endAligned fuel upperBound).map ((startAligned, upperBound) :: ·)
    else some []

/-- `start_aligned` and `end_aligned`: the buckets of the two ends.  A start whose bucket begins
below the range falls back to `i64::MIN`, an end whose bucket does to the start moved by the
file's length.  `unwrap_or` computes that fallback even when it is not used, with wrapping
`-` and `+`. -/
def spanBounds (startSec endSec bucketSec : I64) : I64 × I64 :=
  let startAligned := (alignByBucket startSec bucketSec).getD I64.MIN
  let endAligned := (alignByBucket endSec bucketSec).getD
    (startAligned.wrappingAdd (endSec.wrappingSub startSec))
  (startAligned, endAligned)

/-- The capacity `((end_aligned - start_aligned) / bucket_sec + 1) as usize` of the result, with
wrapping `-` and `+` (`/` truncates). -/
def spanCapacity (startAligned endAligned bucketSec : I64) : ℕ :=
  let quotient := I64.wrap ((endAligned.wrappingSub startAligned).val.tdiv bucketSec.val)
  (quotient.wrappingAdd (I64.wrap 1)).toUsize

/-- `file_time_bucket_span`, its loop run for at most `fuel` turns: the windows, `none` if the
loop is still running, or the panic before the loop.  A window `(i64, i64)` takes 16 bytes. -/
def fileTimeBucketSpan (startSec endSec bucketSec : I64) (fuel : ℕ) :
    Except SpanPanic (Option (List (I64 × I64))) :=
  if startSec ≤ endSec ∧ 0 < bucketSec.val then
    let bounds := spanBounds startSec endSec bucketSec
    if isizeMax < 16 * spanCapacity bounds.1 bounds.2 bucketSec then .error .capacityOverflow
    else .ok (spanLoop bucketSec bounds.2 fuel bounds.1)
  else .error .assertion

/-! ## What the windows are for -/

/-- Windows that cover the seconds `[startSec, endSec]` bucket by bucket.  They follow each
other, and each is non-empty and at most a bucket long.  The first starts at or before
`startSec`, on a bucket boundary or at `i64::MIN`; every other starts on a boundary.  The last
ends after `endSec`, or at `i64::MAX`. -/
structure BucketSpan (bucketSec startSec endSec : I64) (windows : List (I64 × I64)) : Prop where
  first : ∃ w ∈ windows.head?, w.1 ≤ startSec ∧ (bucketSec.val ∣ w.1.val ∨ w.1 = I64.MIN)
  chain : windows.IsChain fun w w' => w.2 = w'.1
  width : ∀ w ∈ windows, w.1 < w.2 ∧ w.2.val - w.1.val ≤ bucketSec.val
  aligned : ∀ w ∈ windows.tail, bucketSec.val ∣ w.1.val
  last : ∃ w ∈ windows.getLast?, endSec < w.2 ∨ w.2 = I64.MAX

/-- What the loop pushes from `startAligned` on: the windows of `BucketSpan`, the first from
`startAligned`, the last ending after `endAligned` on a bucket boundary or at `i64::MAX`. -/
structure SpanWindows (bucketSec startAligned endAligned : I64) (windows : List (I64 × I64)) :
    Prop where
  head : windows.head?.map Prod.fst = some startAligned
  chain : windows.IsChain fun w w' => w.2 = w'.1
  width : ∀ w ∈ windows, w.1 < w.2 ∧ w.2.val - w.1.val ≤ bucketSec.val
  aligned : ∀ w ∈ windows.tail, bucketSec.val ∣ w.1.val
  last : ∃ w ∈ windows.getLast?,
    endAligned < w.2 ∧ (w.2 = I64.MAX ∨ bucketSec.val ∣ w.2.val)

/-! ## One turn of the loop -/

section Step

variable {bucketSec startAligned : I64}

lemma abs_tmod_lt (a : ℤ) {b : ℤ} (hb : 0 < b) : |a.tmod b| < b :=
  abs_lt.mpr ⟨Int.lt_tmod_of_pos a hb, Int.tmod_lt_of_pos a hb⟩

lemma spanWindowSize_of_dvd (h : bucketSec.val ∣ startAligned.val) :
    spanWindowSize bucketSec startAligned = bucketSec := by
  rw [spanWindowSize, if_pos (Int.dvd_iff_tmod_eq_zero.mp h)]

/-- The window size as a number: the remainder is below the bucket, so `abs` does not wrap. -/
lemma val_spanWindowSize (hb : 0 < bucketSec.val) :
    (spanWindowSize bucketSec startAligned).val =
      if startAligned.val.tmod bucketSec.val = 0 then bucketSec.val
      else |startAligned.val.tmod bucketSec.val| := by
  have hlt := abs_tmod_lt startAligned.val hb
  have hnonneg := abs_nonneg (startAligned.val.tmod bucketSec.val)
  have hmax := bucketSec.inRange.2
  unfold spanWindowSize
  split
  · rfl
  · apply I64.val_wrap_of_inRange
    unfold I64.InRange I64.minValue I64.maxValue at *
    omega

lemma spanWindowSize_pos (hb : 0 < bucketSec.val) :
    0 < (spanWindowSize bucketSec startAligned).val := by
  rw [val_spanWindowSize hb]
  split
  · exact hb
  · exact abs_pos.mpr ‹_›

lemma spanWindowSize_le (hb : 0 < bucketSec.val) :
    (spanWindowSize bucketSec startAligned).val ≤ bucketSec.val := by
  rw [val_spanWindowSize hb]
  split
  · exact le_rfl
  · exact (abs_tmod_lt _ hb).le

/-- From a bucket boundary, or from a negative start, a window reaches the next boundary. -/
lemma dvd_add_spanWindowSize (hb : 0 < bucketSec.val)
    (hs : bucketSec.val ∣ startAligned.val ∨ startAligned.val < 0) :
    bucketSec.val ∣ startAligned.val + (spanWindowSize bucketSec startAligned).val := by
  rcases hs with hdvd | hneg
  · rw [spanWindowSize_of_dvd hdvd]
    exact Int.dvd_add hdvd (Int.dvd_refl _)
  · rw [val_spanWindowSize hb]
    split
    · rename_i hrem
      exact Int.dvd_add (Int.dvd_iff_tmod_eq_zero.mpr hrem) (Int.dvd_refl _)
    · -- the remainder of a negative number is not positive: the window ends at the boundary
      -- that truncating division rounds to
      have hnp : startAligned.val.tmod bucketSec.val ≤ 0 := by
        have := Int.tmod_nonneg bucketSec.val (Int.neg_nonneg.mpr hneg.le)
        rw [Int.neg_tmod] at this
        omega
      rw [abs_of_nonpos hnp, ← sub_eq_add_neg]
      exact Int.dvd_self_sub_tmod

/-- One turn from a bucket boundary, or from a negative start, below `i64::MAX`: the window is
non-empty, at most a bucket long, and ends on a bucket boundary or at `i64::MAX`. -/
lemma spanUpperBound_spec (hb : 0 < bucketSec.val)
    (hs : bucketSec.val ∣ startAligned.val ∨ startAligned.val < 0)
    (hlt : startAligned.val < I64.maxValue) :
    startAligned < spanUpperBound bucketSec startAligned ∧
      (spanUpperBound bucketSec startAligned).val - startAligned.val ≤ bucketSec.val ∧
      (spanUpperBound bucketSec startAligned = I64.MAX ∨
        bucketSec.val ∣ (spanUpperBound bucketSec startAligned).val) := by
  have hpos : 0 < (spanWindowSize bucketSec startAligned).val := spanWindowSize_pos hb
  have hle : (spanWindowSize bucketSec startAligned).val ≤ bucketSec.val :=
    spanWindowSize_le hb
  have hdvd := dvd_add_spanWindowSize hb hs
  unfold spanUpperBound
  cases hadd : startAligned.checkedAdd (spanWindowSize bucketSec startAligned) with
  | some upper =>
    obtain ⟨-, hupper⟩ := I64.checkedAdd_eq_some.mp hadd
    simp only [Option.getD_some, I64.lt_iff, hupper]
    exact ⟨by omega, by omega, .inr hdvd⟩
  | none =>
    -- the addition leaves the range at the top: the clamped window is shorter still
    have hout := I64.checkedAdd_eq_none.mp hadd
    have hmin := startAligned.inRange.1
    unfold I64.InRange at hout
    rw [Option.getD_none]
    refine ⟨hlt, ?_, .inl rfl⟩
    rw [I64.val_MAX]
    omega

end Step

/-! ## The loop -/

section Loop

variable {bucketSec endAligned startAligned : I64} {fuel : ℕ}

lemma spanLoop_of_lt (h : endAligned < startAligned) :
    spanLoop bucketSec endAligned (fuel + 1) startAligned = some [] := by
  rw [spanLoop, if_neg (not_le.mpr h)]

lemma spanLoop_of_le (h : startAligned ≤ endAligned) :
    spanLoop bucketSec endAligned (fuel + 1) startAligned =
      (spanLoop bucketSec endAligned fuel (spanUpperBound bucketSec startAligned)).map
        ((startAligned, spanUpperBound bucketSec startAligned) :: ·) := by
  rw [spanLoop, if_pos h]

/-- Up to `i64::MAX` the guard of the loop never fails, so no fuel is enough. -/
lemma spanLoop_maxValue (startAligned : I64) :
    spanLoop bucketSec I64.MAX fuel startAligned = none := by
  induction fuel generalizing startAligned with
  | zero => rfl
  | succ fuel ih =>
    rw [spanLoop_of_le (I64.le_iff.mpr startAligned.inRange.2), ih, Option.map_none]

namespace SpanWindows

variable {upperBound : I64} {rest : List (I64 × I64)}

/-- The last turn: one window, past `endAligned`. -/
lemma single (hlt : startAligned < upperBound)
    (hwidth : upperBound.val - startAligned.val ≤ bucketSec.val) (hend : endAligned < upperBound)
    (hupper : upperBound = I64.MAX ∨ bucketSec.val ∣ upperBound.val) :
    SpanWindows bucketSec startAligned endAligned [(startAligned, upperBound)] where
  head := rfl
  chain := List.isChain_singleton _
  width := by
    simp only [List.mem_singleton, forall_eq]
    exact ⟨hlt, hwidth⟩
  aligned := by simp
  last := ⟨_, rfl, hend, hupper⟩

/-- A turn before the last: its window, then the windows from its end, a bucket boundary. -/
lemma cons (h : SpanWindows bucketSec upperBound endAligned rest)
    (hlt : startAligned < upperBound)
    (hwidth : upperBound.val - startAligned.val ≤ bucketSec.val)
    (hdvd : bucketSec.val ∣ upperBound.val) :
    SpanWindows bucketSec startAligned endAligned ((startAligned, upperBound) :: rest) := by
  obtain ⟨w, rest, rfl⟩ : ∃ w rest', rest = w :: rest' := by
    cases rest with
    | nil => exact absurd h.head (by simp)
    | cons w rest' => exact ⟨w, rest', rfl⟩
  have hw : w.1 = upperBound := by simpa using h.head
  refine ⟨rfl, ?_, ?_, ?_, ?_⟩
  · exact List.isChain_cons_cons.mpr ⟨hw.symm, h.chain⟩
  · exact List.forall_mem_cons.mpr ⟨⟨hlt, hwidth⟩, h.width⟩
  · exact List.forall_mem_cons.mpr ⟨hw ▸ hdvd, h.aligned⟩
  · simpa [List.getLast?_cons_cons] using h.last

end SpanWindows

/-- Enough fuel runs the loop to its end when `end_aligned` is below `i64::MAX`.  The run from a
bucket boundary, or from a negative start, pushes windows of `SpanWindows`, the same ones for
any fuel past the distance to `end_aligned`.  The induction is on that distance, which every
turn shortens. -/
lemma spanLoop_spec (hb : 0 < bucketSec.val) (he : endAligned.val < I64.maxValue) (n : ℕ) :
    ∀ startAligned : I64, (endAligned.val + 1 - startAligned.val).toNat ≤ n →
      startAligned ≤ endAligned →
      (bucketSec.val ∣ startAligned.val ∨ startAligned.val < 0) →
      ∃ windows, SpanWindows bucketSec startAligned endAligned windows ∧
        ∀ fuel, n < fuel → spanLoop bucketSec endAligned fuel startAligned = some windows := by
  induction n with
  | zero =>
    intro startAligned hn hle
    rw [I64.le_iff] at hle
    omega
  | succ n ih =>
    intro startAligned hn hle hs
    have hlt : startAligned.val < I64.maxValue := lt_of_le_of_lt (I64.le_iff.mp hle) he
    obtain ⟨hstep, hwidth, hupper⟩ := spanUpperBound_spec hb hs hlt
    by_cases hpast : endAligned < spanUpperBound bucketSec startAligned
    · -- the last turn: the next guard fails
      refine ⟨_, .single hstep hwidth hpast hupper, fun fuel hfuel => ?_⟩
      obtain ⟨fuel, rfl⟩ : ∃ k, fuel = k + 1 + 1 := ⟨fuel - 2, by rw [I64.le_iff] at hle; omega⟩
      rw [spanLoop_of_le hle, spanLoop_of_lt hpast]
      rfl
    · -- the next window starts at or below `end_aligned`, so not at `i64::MAX`: on a boundary
      have hnext : spanUpperBound bucketSec startAligned ≤ endAligned := not_lt.mp hpast
      have hdvd : bucketSec.val ∣ (spanUpperBound bucketSec startAligned).val := by
        refine hupper.resolve_left fun hmax => ?_
        rw [hmax, I64.le_iff, I64.val_MAX] at hnext
        omega
      rw [I64.lt_iff] at hstep
      obtain ⟨rest, hrest, hrun⟩ := ih _ (by omega) hnext (.inl hdvd)
      refine ⟨_, hrest.cons (I64.lt_iff.mpr hstep) hwidth hdvd, fun fuel hfuel => ?_⟩
      obtain ⟨fuel, rfl⟩ : ∃ k, fuel = k + 1 := ⟨fuel - 1, by omega⟩
      rw [spanLoop_of_le hle, hrun fuel (by omega)]
      rfl

end Loop

/-! ## The buckets of the ends -/

section Bounds

variable {startSec endSec bucketSec : I64}

/-- A number below a multiple of `b` whose own bucket starts below that multiple. -/
lemma lt_of_ediv_mul_lt {a hi b : ℤ} (hb : 0 < b) (hdvd : b ∣ hi) (h : a / b * b < hi) : a < hi := by
  obtain ⟨k, rfl⟩ := hdvd
  have hk : a / b < k := lt_of_mul_lt_mul_right (by rwa [mul_comm b k] at h) hb.le
  calc a < (a / b + 1) * b := Int.lt_ediv_add_one_mul_self a hb
    _ ≤ k * b := mul_le_mul_of_nonneg_right (by omega) hb.le
    _ = b * k := mul_comm k b

lemma val_spanBounds_fst (hb : 0 < bucketSec.val) :
    (spanBounds startSec endSec bucketSec).1.val =
      if I64.minValue ≤ startSec.val / bucketSec.val * bucketSec.val
      then startSec.val / bucketSec.val * bucketSec.val else I64.minValue := by
  have hle := Int.ediv_mul_le startSec.val hb.ne'
  have hmax := startSec.inRange.2
  simp only [spanBounds, alignByBucket_of_pos hb, I64.val_getD_tryOfInt, I64.val_MIN]
  unfold I64.InRange
  split_ifs <;> omega

/-- Rounding down to a positive bucket keeps the order. -/
lemma floor_bucket_mono (hb : 0 < bucketSec.val) (hle : startSec ≤ endSec) :
    startSec.val / bucketSec.val * bucketSec.val ≤ endSec.val / bucketSec.val * bucketSec.val :=
  mul_le_mul_of_nonneg_right (Int.ediv_le_ediv hb (I64.le_iff.mp hle)) hb.le

/-- When the end's bucket begins below the range, so does the start's, and the end is within a
bucket of `i64::MIN`: the fallback `end_aligned` does not wrap. -/
lemma val_spanBounds_snd (hb : 0 < bucketSec.val) (hle : startSec ≤ endSec) :
    (spanBounds startSec endSec bucketSec).2.val =
      if I64.minValue ≤ endSec.val / bucketSec.val * bucketSec.val
      then endSec.val / bucketSec.val * bucketSec.val
      else I64.minValue + (endSec.val - startSec.val) := by
  have hmul_le := Int.ediv_mul_le endSec.val hb.ne'
  have hmono := floor_bucket_mono hb hle
  have he := endSec.inRange
  simp only [spanBounds, alignByBucket_of_pos hb, I64.val_getD_tryOfInt]
  by_cases hmin : I64.minValue ≤ endSec.val / bucketSec.val * bucketSec.val
  · rw [if_pos hmin, if_pos ⟨hmin, by unfold I64.InRange at he; omega⟩]
  · -- the start's bucket begins below the range too, and the file is shorter than a bucket
    have hstart : (I64.tryOfInt (startSec.val / bucketSec.val * bucketSec.val)).getD I64.MIN =
        I64.MIN := by
      rw [I64.tryOfInt_eq_none.mpr fun h => hmin (le_trans h.1 hmono), Option.getD_none]
    have hend := Int.lt_ediv_add_one_mul_self endSec.val hb
    have hs := startSec.inRange
    have hbmax := bucketSec.inRange.2
    rw [add_mul, one_mul] at hend
    rw [I64.le_iff] at hle
    have hlen : I64.InRange (endSec.val - startSec.val) := by
      unfold I64.InRange I64.minValue I64.maxValue at *
      omega
    rw [if_neg hmin, if_neg fun h => hmin h.1, hstart, I64.wrappingAdd, I64.wrappingSub,
      I64.val_wrap_of_inRange hlen, I64.val_MIN]
    apply I64.val_wrap_of_inRange
    unfold I64.InRange I64.minValue I64.maxValue at *
    omega

lemma spanBounds_fst_le (hb : 0 < bucketSec.val) :
    (spanBounds startSec endSec bucketSec).1 ≤ startSec := by
  have hle := Int.ediv_mul_le startSec.val hb.ne'
  have hmin := startSec.inRange.1
  rw [I64.le_iff, val_spanBounds_fst hb]
  split_ifs <;> omega

lemma spanBounds_fst_aligned (hb : 0 < bucketSec.val) :
    bucketSec.val ∣ (spanBounds startSec endSec bucketSec).1.val ∨
      (spanBounds startSec endSec bucketSec).1 = I64.MIN := by
  rw [I64.ext_iff, val_spanBounds_fst hb, I64.val_MIN]
  split_ifs
  · exact .inl (Int.dvd_mul_left _ _)
  · exact .inr rfl

lemma spanBounds_fst_le_snd (hb : 0 < bucketSec.val) (hle : startSec ≤ endSec) :
    (spanBounds startSec endSec bucketSec).1 ≤ (spanBounds startSec endSec bucketSec).2 := by
  have hmono := floor_bucket_mono hb hle
  rw [I64.le_iff, val_spanBounds_fst hb, val_spanBounds_snd hb hle]
  rw [I64.le_iff] at hle
  split_ifs <;> omega

/-- The last bucket starts below `i64::MAX`, unless `end_sec` is `i64::MAX` and is a bucket
boundary. -/
lemma spanBounds_snd_lt (hb : 0 < bucketSec.val) (hle : startSec ≤ endSec)
    (hend : endSec = I64.MAX → ¬ bucketSec.val ∣ I64.maxValue) :
    (spanBounds startSec endSec bucketSec).2.val < I64.maxValue := by
  have hmul_le := Int.ediv_mul_le endSec.val hb.ne'
  have hfirst := Int.lt_ediv_add_one_mul_self endSec.val hb
  have hs := startSec.inRange
  have he := endSec.inRange
  have hbmax := bucketSec.inRange.2
  rw [val_spanBounds_snd hb hle]
  rw [I64.le_iff] at hle
  unfold I64.InRange at *
  split_ifs
  · refine lt_of_le_of_ne (by omega) fun hmax => hend (I64.ext (by simp; omega)) ?_
    rw [← hmax]
    exact Int.dvd_mul_left _ _
  · rw [add_mul] at hfirst
    unfold I64.minValue I64.maxValue at *
    omega

/-- A bucket boundary past `end_aligned` is past `end_sec`. -/
lemma lt_of_spanBounds_snd_lt (hb : 0 < bucketSec.val) (hle : startSec ≤ endSec) {hi : I64}
    (hlt : (spanBounds startSec endSec bucketSec).2 < hi) (hdvd : bucketSec.val ∣ hi.val) :
    endSec < hi := by
  rw [I64.lt_iff, val_spanBounds_snd hb hle] at hlt
  have hmin := hi.inRange.1
  rw [I64.lt_iff]
  apply lt_of_ediv_mul_lt hb hdvd
  split_ifs at hlt <;> omega

/-- The windows the loop pushes between the buckets of the ends cover the file. -/
lemma SpanWindows.bucketSpan (hb : 0 < bucketSec.val) (hle : startSec ≤ endSec)
    {windows : List (I64 × I64)}
    (h : SpanWindows bucketSec (spanBounds startSec endSec bucketSec).1
      (spanBounds startSec endSec bucketSec).2 windows) :
    BucketSpan bucketSec startSec endSec windows where
  first := by
    obtain ⟨w, hw, hfst⟩ := Option.map_eq_some_iff.mp h.head
    exact ⟨w, hw, hfst ▸ ⟨spanBounds_fst_le hb, spanBounds_fst_aligned hb⟩⟩
  chain := h.chain
  width := h.width
  aligned := h.aligned
  last := by
    obtain ⟨w, hw, hpast, hupper⟩ := h.last
    refine ⟨w, hw, ?_⟩
    rcases hupper with hmax | hdvd
    · exact .inr hmax
    · exact .inl (lt_of_spanBounds_snd_lt hb hle hpast hdvd)

end Bounds

/-! ## What a call does -/

section Call

variable {startSec endSec bucketSec : I64} {fuel : ℕ}

lemma fileTimeBucketSpan_of_le (hle : startSec ≤ endSec) (hb : 0 < bucketSec.val) :
    fileTimeBucketSpan startSec endSec bucketSec fuel =
      if isizeMax < 16 * spanCapacity (spanBounds startSec endSec bucketSec).1
          (spanBounds startSec endSec bucketSec).2 bucketSec then .error .capacityOverflow
      else .ok (spanLoop bucketSec (spanBounds startSec endSec bucketSec).2 fuel
        (spanBounds startSec endSec bucketSec).1) := by
  rw [fileTimeBucketSpan, if_pos ⟨hle, hb⟩]

/-- Unless the last bucket starts at `i64::MAX`, a call panics on its capacity whatever the
fuel, or enough fuel gives windows that cover the file bucket by bucket. -/
theorem fileTimeBucketSpan_spec (hle : startSec ≤ endSec) (hb : 0 < bucketSec.val)
    (hend : endSec = I64.MAX → ¬ bucketSec.val ∣ I64.maxValue) :
    (∀ fuel, fileTimeBucketSpan startSec endSec bucketSec fuel = .error .capacityOverflow) ∨
      ∃ windows, BucketSpan bucketSec startSec endSec windows ∧ ∃ n, ∀ fuel, n < fuel →
        fileTimeBucketSpan startSec endSec bucketSec fuel = .ok (some windows) := by
  by_cases hcap : isizeMax < 16 * spanCapacity (spanBounds startSec endSec bucketSec).1
      (spanBounds startSec endSec bucketSec).2 bucketSec
  · exact .inl fun fuel => by rw [fileTimeBucketSpan_of_le hle hb, if_pos hcap]
  · right
    set bounds := spanBounds startSec endSec bucketSec with hbounds
    -- the loop starts on a bucket boundary or at `i64::MIN`, which is negative
    have hstart : bucketSec.val ∣ bounds.1.val ∨ bounds.1.val < 0 := by
      rcases (spanBounds_fst_aligned hb : bucketSec.val ∣ bounds.1.val ∨ bounds.1 = I64.MIN)
        with h | h
      · exact .inl h
      · exact .inr (by rw [h]; decide)
    obtain ⟨windows, hwindows, hrun⟩ := spanLoop_spec hb (spanBounds_snd_lt hb hle hend) _ _
      le_rfl (spanBounds_fst_le_snd hb hle) hstart
    refine ⟨windows, hwindows.bucketSpan hb hle, (bounds.2.val + 1 - bounds.1.val).toNat,
      fun fuel hfuel => ?_⟩
    rw [fileTimeBucketSpan_of_le hle hb, if_neg hcap, hrun fuel hfuel]

theorem fileTimeBucketSpan_spec_tenSeconds :
    I64.wrap 0 ≤ I64.wrap 25 ∧ 0 < (I64.wrap 10).val ∧
      (I64.wrap 25 = I64.MAX → ¬ (I64.wrap 10).val ∣ I64.maxValue) ∧
      ((∀ fuel, fileTimeBucketSpan (I64.wrap 0) (I64.wrap 25) (I64.wrap 10) fuel =
          .error .capacityOverflow) ∨
        ∃ windows, BucketSpan (I64.wrap 10) (I64.wrap 0) (I64.wrap 25) windows ∧ ∃ n, ∀ fuel, n < fuel →
          fileTimeBucketSpan (I64.wrap 0) (I64.wrap 25) (I64.wrap 10) fuel = .ok (some windows)) :=
  ⟨by decide, by decide, by decide, fileTimeBucketSpan_spec (by decide) (by decide) (by decide)⟩

/-- When `end_sec` is `i64::MAX` and the bucket divides it, the last bucket starts at
`i64::MAX`, where the guard of the loop cannot fail: no fuel gives windows. -/
theorem fileTimeBucketSpan_diverges (hb : 0 < bucketSec.val)
    (hdvd : bucketSec.val ∣ I64.maxValue) (windows : List (I64 × I64)) :
    fileTimeBucketSpan startSec I64.MAX bucketSec fuel ≠ .ok (some windows) := by
  by_cases hle : startSec ≤ I64.MAX
  · have hlast : (spanBounds startSec I64.MAX bucketSec).2 = I64.MAX := by
      apply I64.ext
      rw [val_spanBounds_snd hb hle, I64.val_MAX, Int.ediv_mul_cancel hdvd, if_pos (by decide)]
    rw [fileTimeBucketSpan_of_le hle hb, hlast, spanLoop_maxValue]
    split <;> simp
  · rw [fileTimeBucketSpan, if_neg fun h => hle h.1]
    simp

theorem fileTimeBucketSpan_diverges_oneSecond :
    0 < (I64.wrap 1).val ∧ (I64.wrap 1).val ∣ I64.maxValue ∧
      fileTimeBucketSpan (I64.wrap 0) I64.MAX (I64.wrap 1) 100 ≠ .ok (some []) :=
  ⟨by decide, by decide, fileTimeBucketSpan_diverges (by decide) (by decide) []⟩

/-- A file whose seconds end at `i64::MAX`, with buckets of one second: no fuel ends the call.
And a file of the seconds `[i64::MIN, 0]` overflows `end_aligned - start_aligned`, and the
call panics on the capacity it then reserves. -/
theorem fileTimeBucketSpan_maxValue_loops :
    (∀ fuel, fileTimeBucketSpan I64.MAX I64.MAX (I64.wrap 1) fuel = .ok none) ∧
      ¬ I64.InRange ((spanBounds I64.MIN (I64.wrap 0) (I64.wrap 1)).2.val -
        (spanBounds I64.MIN (I64.wrap 0) (I64.wrap 1)).1.val) ∧
      ∀ fuel, fileTimeBucketSpan I64.MIN (I64.wrap 0) (I64.wrap 1) fuel =
        .error .capacityOverflow := by
  have hbounds : spanBounds I64.MAX I64.MAX (I64.wrap 1) = (I64.MAX, I64.MAX) := by decide
  refine ⟨fun fuel => ?_, by decide, fun fuel => ?_⟩
  · rw [fileTimeBucketSpan_of_le le_rfl (by decide), hbounds, if_neg (by decide),
      spanLoop_maxValue]
  · rw [fileTimeBucketSpan_of_le (by decide) (by decide), if_pos (by decide)]

end Call

end Greptime
