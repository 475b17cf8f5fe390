import Greptime.Foundations.I64

/-!
# Timestamps, durations and time buckets (`common_time`)

A `Timestamp` is an `i64` value in one of four units.  Converting to a coarser unit divides
with Euclidean division (`convert_to` rounds towards negative infinity), converting to a finer
one multiplies and may overflow.  Timestamps of different units are compared through their
`(seconds, nanoseconds)` split.  Their difference (`sub`) goes through `chrono`, which only
represents the dates of the years -262143 to 262142, and is a `chrono::Duration`.

Time buckets are what partitions of memtables and windows of compaction are made of:
`align_by_bucket` rounds a value down to a multiple of the bucket size and
`align_to_ceil_by_bucket` rounds it up; both fail on overflow and the source asserts that the
bucket is positive.  `alignByBucket_spec` says what `align_by_bucket` returns.
-/

namespace Greptime

/-- `common_time::timestamp::TimeUnit`. -/
inductive TimeUnit
  | second
  | millisecond
  | microsecond
  | nanosecond
  deriving DecidableEq, Repr

/-- `TimeUnit::factor`: nanoseconds per unit. -/
def TimeUnit.factor : TimeUnit → ℕ
  | .second => 1000000000
  | .millisecond => 1000000
  | .microsecond => 1000
  | .nanosecond => 1

lemma TimeUnit.factor_pos (u : TimeUnit) : 0 < u.factor := by
  cases u <;> decide

/-- Units per second. -/
def TimeUnit.perSecond (u : TimeUnit) : ℕ := TimeUnit.second.factor / u.factor

lemma TimeUnit.perSecond_pos (u : TimeUnit) : 0 < u.perSecond := by
  cases u <;> decide

/-- `common_time::Timestamp`. -/
structure Timestamp where
  value : I64
  unit : TimeUnit
  deriving DecidableEq

/-- `std::time::Duration`: seconds and the nanoseconds below a second. -/
structure Duration where
  secs : ℕ
  nanos : ℕ
  nanos_lt : nanos < 1000000000
  deriving DecidableEq

namespace Duration

/-- `Duration::from_secs`. -/
def fromSecs (secs : ℕ) : Duration := ⟨secs, 0, by decide⟩

/-- `Duration::as_secs`. -/
def asSecs (d : Duration) : ℕ := d.secs

/-- The duration in `unit`, truncated: `as_secs`, `as_millis`, `as_micros`, `as_nanos`. -/
def asUnit (d : Duration) (unit : TimeUnit) : ℕ :=
  d.secs * unit.perSecond + d.nanos / unit.factor

/-- `Duration::from_nanos`. -/
def fromNanos (nanos : ℕ) : Duration :=
  ⟨nanos / 1000000000, nanos % 1000000000, Nat.mod_lt _ (by norm_num)⟩

@[simp] lemma asUnit_fromNanos (nanos : ℕ) : (fromNanos nanos).asUnit .nanosecond = nanos := by
  simp only [asUnit, fromNanos, TimeUnit.perSecond, TimeUnit.factor]
  omega

lemma asUnit_second (d : Duration) : d.asUnit .second = d.asSecs := by
  have := d.nanos_lt
  simp [asUnit, asSecs, TimeUnit.perSecond, TimeUnit.factor]
  omega

end Duration

namespace Timestamp

/-- `Timestamp::new_second`. -/
def newSecond (value : I64) : Timestamp := ⟨value, .second⟩

/-- `Timestamp::convert_to`: multiplies, checking overflow, towards a finer unit and divides
with Euclidean division towards a coarser one. -/
def convertTo (t : Timestamp) (unit : TimeUnit) : Option Timestamp :=
  if h : t.unit.factor ≥ unit.factor then
    let mul := t.unit.factor / unit.factor
    (I64.checkedMul t.value (I64.wrap mul)).map (⟨·, unit⟩)
  else
    let mul := unit.factor / t.unit.factor
    some ⟨⟨t.value.val / mul, I64.inRange_ediv (Int.natCast_pos.mpr
      (Nat.div_pos (by omega) t.unit.factor_pos))⟩, unit⟩

/-- `Timestamp::split`: whole seconds, rounded down, and the nanoseconds beyond. -/
def split (t : Timestamp) : ℤ × ℤ :=
  let secMul : ℤ := t.unit.perSecond
  (t.value.val / secMul, t.value.val % secMul * t.unit.factor)

/-- `Ord for Timestamp`: values when the units agree, the splits otherwise. -/
def cmp (a b : Timestamp) : Ordering :=
  if a.unit = b.unit then compare a.value.val b.value.val
  else (compare a.split.1 b.split.1).then (compare a.split.2 b.split.2)

/-- `Timestamp::add_duration`: the duration in the timestamp's unit, added with overflow
checks. -/
def addDuration (t : Timestamp) (d : Duration) : Option Timestamp := do
  let duration ← I64.tryOfInt (d.asUnit t.unit)
  let value ← I64.checkedAdd t.value duration
  pure ⟨value, t.unit⟩

/-- `Timestamp::sub_duration`: the duration in the timestamp's unit, subtracted with overflow
checks. -/
def subDuration (t : Timestamp) (d : Duration) : Option Timestamp := do
  let duration ← I64.tryOfInt (d.asUnit t.unit)
  let value ← I64.checkedSub t.value duration
  pure ⟨value, t.unit⟩

lemma addDuration_eq_some {t t' : Timestamp} {d : Duration} (h : t.addDuration d = some t') :
    t'.unit = t.unit ∧ t'.value.val = t.value.val + d.asUnit t.unit := by
  obtain ⟨duration, hd, h⟩ := Option.bind_eq_some_iff.mp h
  obtain ⟨value, hv, h⟩ := Option.bind_eq_some_iff.mp h
  cases h
  rw [I64.tryOfInt_eq_some] at hd
  exact ⟨rfl, by rw [(I64.checkedAdd_eq_some.mp hv).2, hd.2]⟩

lemma subDuration_eq_some {t t' : Timestamp} {d : Duration} (h : t.subDuration d = some t') :
    t'.unit = t.unit ∧ t'.value.val = t.value.val - d.asUnit t.unit := by
  obtain ⟨duration, hd, h⟩ := Option.bind_eq_some_iff.mp h
  obtain ⟨value, hv, h⟩ := Option.bind_eq_some_iff.mp h
  cases h
  rw [I64.tryOfInt_eq_some] at hd
  exact ⟨rfl, by rw [(I64.checkedSub_eq_some.mp hv).2, hd.2]⟩

/-- `Timestamp::MIN_SECOND` and `Timestamp::MAX_SECOND`: the first and the last second of the
dates `chrono` represents, `-262143-01-01 00:00:00` and `+262142-12-31 23:59:59`. -/
def minSecond : ℤ := -8334601228800

@[inherit_doc minSecond]
def maxSecond : ℤ := 8210266876799

/-- `Timestamp::to_chrono_datetime`, as nanoseconds since the epoch: `DateTime::from_timestamp`
answers `None` for the seconds outside `chrono`'s dates. -/
def toChronoDatetime (t : Timestamp) : Option ℤ :=
  if minSecond ≤ t.split.1 ∧ t.split.1 ≤ maxSecond then
    some (t.split.1 * 1000000000 + t.split.2)
  else none

/-- `Timestamp::sub`: the signed difference, a `chrono::Duration` in nanoseconds. -/
def sub (lhs rhs : Timestamp) : Option ℤ := do
  let lhs ← lhs.toChronoDatetime
  let rhs ← rhs.toChronoDatetime
  pure (lhs - rhs)

/-- A nanosecond timestamp that `chrono` represents is its own value in nanoseconds. -/
lemma toChronoDatetime_of_nanosecond {t : Timestamp} {x : ℤ} (ht : t.unit = .nanosecond)
    (h : t.toChronoDatetime = some x) : x = t.value.val := by
  unfold toChronoDatetime at h
  split_ifs at h
  cases h
  simp only [split, ht, TimeUnit.perSecond, TimeUnit.factor]
  omega

lemma sub_of_nanosecond {lhs rhs : Timestamp} {d : ℤ} (hl : lhs.unit = .nanosecond)
    (hr : rhs.unit = .nanosecond) (h : lhs.sub rhs = some d) :
    d = lhs.value.val - rhs.value.val := by
  obtain ⟨x, hx, h⟩ := Option.bind_eq_some_iff.mp h
  obtain ⟨y, hy, h⟩ := Option.bind_eq_some_iff.mp h
  cases h
  rw [toChronoDatetime_of_nanosecond hl hx, toChronoDatetime_of_nanosecond hr hy]

end Timestamp

/-! ## `chrono::Duration`

A `chrono::Duration` (`TimeDelta`) is a signed number of nanoseconds of at most `i64::MAX`
milliseconds either way; the model keeps it as an integer.  Its arithmetic operators panic
beyond that range, which the model answers with `none`. -/

namespace TimeDelta

/-- `TimeDelta::MAX` in nanoseconds; `TimeDelta::MIN` is its negation. -/
def maxNanos : ℤ := 9223372036854775807 * 1000000

/-- A result of `TimeDelta` arithmetic: the value, or the panic of the operator. -/
def checked (d : ℤ) : Option ℤ := if |d| ≤ maxNanos then some d else none

/-- `TimeDelta * i32`. -/
def mulI32 (d rhs : ℤ) : Option ℤ := checked (d * rhs)

/-- `TimeDelta + TimeDelta`. -/
def add (d e : ℤ) : Option ℤ := checked (d + e)

/-- `TimeDelta - TimeDelta`. -/
def sub (d e : ℤ) : Option ℤ := checked (d - e)

/-- `TimeDelta::num_seconds`: whole seconds, rounded towards zero. -/
def numSeconds (d : ℤ) : ℤ := d.tdiv 1000000000

/-- `TimeDelta::to_std`: fails on a negative duration. -/
def toStd (d : ℤ) : Option Duration :=
  if 0 ≤ d then some ⟨(d / 1000000000).toNat, (d % 1000000000).toNat, by omega⟩ else none

end TimeDelta

/-! ## Buckets -/

/-- `common_time::util::div_ceil` for a positive divisor: truncating division, plus one when
the truncating remainder is positive. -/
def divCeil (this rhs : ℤ) : ℤ :=
  let d := this.tdiv rhs
  let r := this.tmod rhs
  if r > 0 ∧ rhs > 0 then d + 1 else d

/-- `BucketAligned::align_by_bucket` on `i64`: the source asserts `bucket_duration > 0`; the
model answers `none` there too. -/
def alignByBucket (value bucketDuration : I64) : Option I64 :=
  if bucketDuration.val ≤ 0 then none
  else (I64.checkedDivEuclid value bucketDuration).bind (I64.checkedMul · bucketDuration)

/-- `BucketAligned::align_to_ceil_by_bucket` on `i64`. -/
def alignToCeilByBucket (value bucketDuration : I64) : Option I64 :=
  if bucketDuration.val ≤ 0 then none
  else I64.checkedMul (I64.wrap (divCeil value.val bucketDuration.val)) bucketDuration

/-- What `align_by_bucket` returns: the largest multiple of the bucket at or below the
value, when it fits. -/
lemma alignByBucket_spec {value bucket aligned : I64} (h : alignByBucket value bucket = some aligned) :
    0 < bucket.val ∧ aligned.val = value.val / bucket.val * bucket.val := by
  unfold alignByBucket at h
  split at h
  · exact absurd h (by simp)
  · rename_i hb
    obtain ⟨q, hq, hmul⟩ := Option.bind_eq_some_iff.mp h
    obtain ⟨-, -, hqv⟩ := I64.checkedDivEuclid_eq_some.mp hq
    obtain ⟨-, hv⟩ := I64.checkedMul_eq_some.mp hmul
    exact ⟨by omega, by rw [hv, hqv]⟩

/-- For a positive bucket, `align_by_bucket` is the multiple of the bucket at or below the
value, if that fits. -/
lemma alignByBucket_of_pos {value bucket : I64} (hb : 0 < bucket.val) :
    alignByBucket value bucket = I64.tryOfInt (value.val / bucket.val * bucket.val) := by
  obtain ⟨q, hq, hqv⟩ := I64.checkedDivEuclid_of_pos value bucket hb
  rw [alignByBucket, if_neg (by omega), hq, Option.bind_some, I64.checkedMul, hqv]

/-! ## Rounding up, splits, equality and hashing -/

namespace Timestamp

/-- `Timestamp::convert_to_ceil`: as `convert_to`, but rounding up (`div_ceil`) towards a coarser
unit. -/
def convertToCeil (t : Timestamp) (unit : TimeUnit) : Option Timestamp :=
  if t.unit.factor ≥ unit.factor then
    let mul := t.unit.factor / unit.factor
    (I64.checkedMul t.value (I64.wrap mul)).map (⟨·, unit⟩)
  else
    let mul := unit.factor / t.unit.factor
    some ⟨I64.wrap (divCeil t.value.val mul), unit⟩

/-- `Timestamp::from_splits`: the seconds and the nanoseconds beyond them in the coarsest unit
that holds them exactly; `None` on overflow. -/
def fromSplits (sec : I64) (nsec : ℕ) : Option Timestamp :=
  if nsec = 0 then some (newSecond sec)
  else if nsec % 1000000 = 0 then
    ((I64.checkedMul sec (I64.wrap 1000)).bind
      fun v => I64.checkedAdd v (I64.wrap (nsec / 1000000))).map (⟨·, .millisecond⟩)
  else if nsec % 1000 = 0 then
    ((I64.checkedMul sec (I64.wrap 1000000)).bind
      fun v => I64.checkedAdd v (I64.wrap (nsec / 1000))).map (⟨·, .microsecond⟩)
  else
    -- a negative second is moved up by one first, so that the product does not underflow
    -- where the sum would not
    let adjusted : ℤ × ℤ :=
      if sec.val < 0 ∧ 0 < nsec then (sec.val + 1, (nsec : ℤ) - 1000000000)
      else (sec.val, nsec)
    ((I64.checkedMul (I64.wrap adjusted.1) (I64.wrap 1000000000)).bind
      fun v => I64.checkedAdd v (I64.wrap adjusted.2)).map (⟨·, .nanosecond⟩)

/-- `Timestamp::from_chrono_datetime`, on a date given by its nanoseconds since the epoch as
`to_chrono_datetime` gives it: `timestamp()` is its seconds, rounded down, which an `i64`
holds for every date of `chrono`, and `timestamp_subsec_nanos()` the nanoseconds beyond. -/
def fromChronoDatetime (ndt : ℤ) : Option Timestamp :=
  fromSplits (I64.wrap (ndt / 1000000000)) (ndt % 1000000000).toNat

/-- `PartialEq for Timestamp`: equal when `cmp` says so. -/
def eq (a b : Timestamp) : Bool := cmp a b == .eq

/-- What `Hash for Timestamp` writes into the hasher, in order: the parts of the split. -/
def hashWrites (t : Timestamp) : List ℤ := [t.split.1, t.split.2]

/-- `Ord for Timestamp`. -/
instance : Ord Timestamp := ⟨cmp⟩

/-- `Timestamp::default`: zero milliseconds. -/
instance : Inhabited Timestamp := ⟨⟨⟨0, by unfold I64.InRange I64.minValue I64.maxValue; omega⟩,
  .millisecond⟩⟩

end Timestamp

end Greptime
