import Greptime.Time.Instant

/-!
# Time ranges (`common_time::range`)

A `GenericRange` is a half-open range `[start, end)` whose missing bound is unbounded.  The
source keeps it generic over a `T: PartialOrd + Default`; the model takes its comparisons from
an `Ord T`, which for timestamps is their `Ord`, the one their `PartialOrd` and `PartialEq` are
defined from.  `from_optional` turns two present bounds that are not in order into `empty`,
the range `[default, default)`.

The lemmas read a range as the values whose key lies between its bounds (`InBounds`), for any
comparison that is the order of a key (`hcmp`); a timestamp's key is its instant
(`Timestamp.cmp_eq_compare_exact`).  `and` is then the intersection and `or` covers the union.
`intersects` is not the existence of a common value: a range that ends at `i64::MIN` seconds,
the first of all timestamps, holds nothing, and `is_empty` still says it is not empty
(`intersects_iff`).
-/

namespace Greptime

/-- `common_time::range::GenericRange`. -/
structure GenericRange (T : Type) where
  start : Option T
  «end» : Option T
  deriving DecidableEq

namespace GenericRange

section Model

variable {T : Type} [Ord T]

/-- `GenericRange::new`: `[start, end)`, or `None` if `start > end`. -/
def new (start «end» : T) : Option (GenericRange T) :=
  if (compare start «end»).isLE then some ⟨some start, some «end»⟩ else none

/-- `GenericRange::min_to_max`. -/
def minToMax : GenericRange T := ⟨none, none⟩

/-- `GenericRange::contains`. -/
def contains (self : GenericRange T) (target : T) : Bool :=
  match self.start, self.«end» with
  | some start, some «end» => (compare target start).isGE && (compare target «end»).isLT
  | some start, none => (compare target start).isGE
  | none, some «end» => (compare target «end»).isLT
  | none, none => true

/-- `GenericRange::is_empty`: two present bounds that are equal. -/
def isEmpty (self : GenericRange T) : Bool :=
  match self.start, self.«end» with
  | some start, some «end» => (compare start «end»).isEq
  | _, _ => false

/-- The later of two bounds, the second on a tie: `if l > r { l } else { r }`. -/
def maxOf (l r : T) : T := if (compare l r).isGT then l else r

/-- The earlier of two bounds, the first on a tie: `if l > r { r } else { l }`. -/
def minOf (l r : T) : T := if (compare l r).isGT then r else l

/-- A bound of `and`: `pick` of two present bounds, a missing bound giving way. -/
def andBound (pick : T → T → T) : Option T → Option T → Option T
  | some l, some r => some (pick l r)
  | some l, none => some l
  | none, r => r

/-- A bound of `or`: `pick` of two present bounds, a missing bound winning. -/
def orBound (pick : T → T → T) : Option T → Option T → Option T
  | some l, some r => some (pick l r)
  | _, _ => none

variable [Inhabited T]

/-- `GenericRange::empty`: `[default, default)`. -/
def empty : GenericRange T := ⟨some default, some default⟩

/-- `GenericRange::from_optional`: two present bounds not in order give `empty`. -/
def fromOptional (start «end» : Option T) : GenericRange T :=
  match start, «end» with
  | some s, some e => if (compare s e).isLT then ⟨some s, some e⟩ else empty
  | s, e => ⟨s, e⟩

/-- `GenericRange::and`: the later start and the earlier end. -/
def and (self other : GenericRange T) : GenericRange T :=
  fromOptional (andBound maxOf self.start other.start) (andBound minOf self.«end» other.«end»)

/-- `GenericRange::or`: the earlier start and the later end, an empty range giving way. -/
def or (self other : GenericRange T) : GenericRange T :=
  if self.isEmpty then other
  else if other.isEmpty then self
  else fromOptional (orBound minOf self.start other.start) (orBound maxOf self.«end» other.«end»)

/-- `GenericRange::intersects`. -/
def intersects (self target : GenericRange T) : Bool := !(self.and target).isEmpty

end Model

/-! ## What a range holds -/

section Semantics

variable {T K : Type} [LinearOrder K] (key : T → K)

/-- The values whose key lies between the present bounds, the start included. -/
def InBounds (start «end» : Option T) (t : T) : Prop :=
  (∀ s ∈ start, key s ≤ key t) ∧ ∀ e ∈ «end», key t < key e

variable {key}

lemma not_inBounds_of_le {s e : T} (h : key e ≤ key s) (t : T) :
    ¬ InBounds key (some s) (some e) t :=
  fun ⟨hs, he⟩ => absurd (lt_of_le_of_lt (hs s rfl) (he e rfl)) (not_lt.mpr h)

variable [Ord T] (hcmp : ∀ a b : T, compare a b = compare (key a) (key b))
include hcmp

lemma isLT_compare (a b : T) : (compare a b).isLT = true ↔ key a < key b := by
  rw [hcmp, Ordering.isLT_iff_eq_lt, compare_lt_iff_lt]

lemma isGE_compare (a b : T) : (compare a b).isGE = true ↔ key b ≤ key a := by
  rw [hcmp, Ordering.isGE_iff_ne_lt, compare_lt_iff_lt, not_lt]

lemma isGT_compare (a b : T) : (compare a b).isGT = true ↔ key b < key a := by
  rw [hcmp, Ordering.isGT_iff_eq_gt, compare_gt_iff_gt]

lemma isLE_compare (a b : T) : (compare a b).isLE = true ↔ key a ≤ key b := by
  rw [hcmp, Ordering.isLE_iff_ne_gt]
  exact compare_le_iff_le

lemma isEq_compare (a b : T) : (compare a b).isEq = true ↔ key a = key b := by
  rw [hcmp, Ordering.isEq_iff_eq_eq, compare_eq_iff_eq]

lemma key_maxOf (l r : T) : key (maxOf l r) = max (key l) (key r) := by
  unfold maxOf
  split_ifs with h
  · exact (max_eq_left ((isGT_compare hcmp l r).mp h).le).symm
  · rw [isGT_compare hcmp, not_lt] at h
    exact (max_eq_right h).symm

lemma key_minOf (l r : T) : key (minOf l r) = min (key l) (key r) := by
  unfold minOf
  split_ifs with h
  · exact (min_eq_right ((isGT_compare hcmp l r).mp h).le).symm
  · rw [isGT_compare hcmp, not_lt] at h
    exact (min_eq_left h).symm

lemma contains_iff (r : GenericRange T) (t : T) :
    r.contains t = true ↔ InBounds key r.start r.«end» t := by
  obtain ⟨_ | s, _ | e⟩ := r <;>
    simp [contains, InBounds, isGE_compare hcmp, isLT_compare hcmp]

/-- A range whose bounds are equal holds nothing. -/
lemma contains_of_isEmpty {r : GenericRange T} (h : r.isEmpty = true) (t : T) :
    r.contains t = false := by
  obtain ⟨_ | s, _ | e⟩ := r
  all_goals simp only [isEmpty, reduceCtorEq] at h
  rw [isEq_compare hcmp] at h
  rw [← Bool.not_eq_true, contains_iff hcmp]
  exact not_inBounds_of_le (le_of_eq h.symm) t

lemma forall_andBound_maxOf (x y : Option T) (k : K) :
    (∀ s ∈ andBound maxOf x y, key s ≤ k) ↔ (∀ s ∈ x, key s ≤ k) ∧ ∀ s ∈ y, key s ≤ k := by
  cases x <;> cases y <;> simp [andBound, key_maxOf hcmp]

lemma forall_andBound_minOf (x y : Option T) (k : K) :
    (∀ e ∈ andBound minOf x y, k < key e) ↔ (∀ e ∈ x, k < key e) ∧ ∀ e ∈ y, k < key e := by
  cases x <;> cases y <;> simp [andBound, key_minOf hcmp]

lemma forall_orBound_minOf {x y : Option T} {k : K}
    (h : (∀ s ∈ x, key s ≤ k) ∨ ∀ s ∈ y, key s ≤ k) : ∀ s ∈ orBound minOf x y, key s ≤ k := by
  cases x <;> cases y <;> simp_all [orBound, key_minOf hcmp]

lemma forall_orBound_maxOf {x y : Option T} {k : K}
    (h : (∀ e ∈ x, k < key e) ∨ ∀ e ∈ y, k < key e) : ∀ e ∈ orBound maxOf x y, k < key e := by
  cases x <;> cases y <;> simp_all [orBound, key_maxOf hcmp]

lemma inBounds_orBound {s₁ s₂ e₁ e₂ : Option T} {t : T}
    (h : InBounds key s₁ e₁ t ∨ InBounds key s₂ e₂ t) :
    InBounds key (orBound minOf s₁ s₂) (orBound maxOf e₁ e₂) t := by
  rcases h with ⟨hs, he⟩ | ⟨hs, he⟩
  · exact ⟨forall_orBound_minOf hcmp (Or.inl hs), forall_orBound_maxOf hcmp (Or.inl he)⟩
  · exact ⟨forall_orBound_minOf hcmp (Or.inr hs), forall_orBound_maxOf hcmp (Or.inr he)⟩

variable [Inhabited T]

lemma isEmpty_empty : (empty : GenericRange T).isEmpty = true := by
  rw [empty, isEmpty, isEq_compare hcmp]

lemma contains_fromOptional (s e : Option T) (t : T) :
    (fromOptional s e).contains t = true ↔ InBounds key s e t := by
  match s, e with
  | some s, some e =>
    simp only [fromOptional]
    split_ifs with h
    · exact contains_iff hcmp _ t
    · rw [contains_of_isEmpty hcmp (isEmpty_empty hcmp)]
      rw [isLT_compare hcmp, not_lt] at h
      simpa using not_inBounds_of_le h t
  | some _, none | none, some _ | none, none => exact contains_iff hcmp _ t

/-- `and` holds exactly what both ranges hold. -/
lemma contains_and (a b : GenericRange T) (t : T) :
    (a.and b).contains t = true ↔ a.contains t = true ∧ b.contains t = true := by
  rw [and, contains_fromOptional hcmp, contains_iff hcmp, contains_iff hcmp, InBounds, InBounds,
    InBounds, forall_andBound_maxOf hcmp, forall_andBound_minOf hcmp, and_and_and_comm]

/-- `or` holds at least what either range holds. -/
lemma contains_or {a b : GenericRange T} {t : T}
    (h : a.contains t = true ∨ b.contains t = true) : (a.or b).contains t = true := by
  unfold or
  split_ifs with ha hb
  · simpa [contains_of_isEmpty hcmp ha] using h
  · simpa [contains_of_isEmpty hcmp hb] using h
  · rw [contains_iff hcmp, contains_iff hcmp] at h
    exact (contains_fromOptional hcmp _ _ t).mpr (inBounds_orBound hcmp h)

/-- `from_optional` of bounds that leave a value between them, or of no start and an end that
no value is below, is not empty; and conversely. -/
lemma isEmpty_fromOptional (s e : Option T) :
    (fromOptional s e).isEmpty = false ↔
      (∃ t, InBounds key s e t) ∨ s = none ∧ ∃ e', e = some e' ∧ ∀ t, key e' ≤ key t := by
  match s, e with
  | some s, some e =>
    simp only [fromOptional]
    split_ifs with h
    · rw [isLT_compare hcmp] at h
      have hne : (compare s e).isEq = false := by
        rw [← Bool.not_eq_true, isEq_compare hcmp]
        exact h.ne
      exact iff_of_true hne (Or.inl ⟨s, by simp [InBounds, h]⟩)
    · rw [isLT_compare hcmp, not_lt] at h
      refine iff_of_false (by rw [isEmpty_empty hcmp]; decide) ?_
      rintro (⟨t, ht⟩ | ⟨hs, -⟩)
      · exact not_inBounds_of_le h t ht
      · cases hs
  | some s, none => exact iff_of_true rfl (Or.inl ⟨s, by simp [InBounds]⟩)
  | none, none => exact iff_of_true rfl (Or.inl ⟨default, by simp [InBounds]⟩)
  | none, some e =>
    refine iff_of_true rfl ?_
    by_cases h : ∃ t, key t < key e
    · obtain ⟨t, ht⟩ := h
      exact Or.inl ⟨t, by simp [InBounds, ht]⟩
    · exact Or.inr ⟨rfl, e, rfl, fun t => not_lt.mp fun ht => h ⟨t, ht⟩⟩

/-- `intersects` is the existence of a common value, except for the ranges whose common part
has no start and ends at a bound that no value is below. -/
lemma intersects_iff (a b : GenericRange T) :
    a.intersects b = true ↔ (∃ t, a.contains t = true ∧ b.contains t = true) ∨
      andBound maxOf a.start b.start = none ∧
        ∃ e, andBound minOf a.«end» b.«end» = some e ∧ ∀ t, key e ≤ key t := by
  simp only [intersects, Bool.not_eq_true', and, isEmpty_fromOptional hcmp]
  simp only [← contains_and hcmp, and, contains_fromOptional hcmp]

end Semantics

end GenericRange

/-! ## Timestamp ranges -/

/-- `common_time::range::TimestampRange`. -/
abbrev TimestampRange := GenericRange Timestamp

namespace TimestampRange

open GenericRange

/-- Timestamps compare as their instants. -/
lemma compare_eq (a b : Timestamp) : compare a b = compare a.exact b.exact :=
  Timestamp.cmp_eq_compare_exact a b

/-- `i64::MIN` seconds is the first of all timestamps. -/
lemma exact_min_le (t : Timestamp) : (⟨I64.MIN, .second⟩ : Timestamp).exact ≤ t.exact := by
  have ht := t.value.inRange.1
  have hf : (t.unit.factor : ℤ) ≤ 1000000000 := by exact_mod_cast Timestamp.factor_le t.unit
  have hf0 : (0 : ℤ) ≤ t.unit.factor := by positivity
  unfold I64.minValue at ht
  calc (⟨I64.MIN, .second⟩ : Timestamp).exact = -9223372036854775808 * 1000000000 := rfl
    _ ≤ -9223372036854775808 * (t.unit.factor : ℤ) := by nlinarith
    _ ≤ t.value.val * t.unit.factor := Int.mul_le_mul_of_nonneg_right ht hf0

/-- One unit past a timestamp, `None` at `i64::MAX`: the end of a range whose last timestamp is
`ts`, as `value().checked_add(1)` builds it. -/
def inclusiveEnd (ts : Timestamp) : Option Timestamp :=
  (I64.checkedAdd ts.value (I64.wrap 1)).map (⟨·, ts.unit⟩)

lemma inclusiveEnd_exact {ts e : Timestamp} (h : inclusiveEnd ts = some e) :
    e.exact = ts.exact + ts.unit.factor := by
  obtain ⟨v, hv, rfl⟩ := Option.map_eq_some_iff.mp h
  rw [Timestamp.exact, Timestamp.exact, (I64.checkedAdd_eq_some.mp hv).2,
    I64.val_wrap_of_inRange (by unfold I64.InRange I64.minValue I64.maxValue; omega)]
  ring

/-- `TimestampRange::new_inclusive`: `[start, end]`, empty if `start > end`; an end that cannot
be moved past falls back to an unbounded end. -/
def newInclusive (start «end» : Option Timestamp) : TimestampRange :=
  let reversed := match start, «end» with
    | some s, some e => (compare s e).isGT
    | _, _ => false
  if reversed then empty else fromOptional start («end».bind inclusiveEnd)

/-- `new_inclusive` of ordered ends holds every timestamp between them, both ends included. -/
lemma contains_newInclusive {start «end» t : Timestamp} (h₁ : start.exact ≤ t.exact)
    (h₂ : t.exact ≤ «end».exact) : (newInclusive (some start) (some «end»)).contains t = true := by
  have hord : (compare start «end»).isGT = false := by
    rw [← Bool.not_eq_true, isGT_compare compare_eq, not_lt]
    exact h₁.trans h₂
  simp only [newInclusive, hord, Bool.false_eq_true, if_false, Option.bind_some]
  rw [contains_fromOptional compare_eq]
  refine ⟨fun s hs => by cases hs; exact h₁, fun e he => ?_⟩
  rw [inclusiveEnd_exact he]
  have := «end».unit.factor_pos
  omega

/-- `TimestampRange::with_unit`. -/
def withUnit (start «end» : I64) (unit : TimeUnit) : Option TimestampRange :=
  GenericRange.new ⟨start, unit⟩ ⟨«end», unit⟩

/-- `TimestampRange::single`: `[ts, ts + 1)`. -/
def single (ts : Timestamp) : TimestampRange := fromOptional (some ts) (inclusiveEnd ts)

/-- `TimestampRange::from_start`: `[start, INF)`. -/
def fromStart (start : Timestamp) : TimestampRange := ⟨some start, none⟩

/-- `TimestampRange::until_end`: `[-INF, end)`, or `[-INF, end + 1)` when inclusive. -/
def untilEnd («end» : Timestamp) (inclusive : Bool) : TimestampRange :=
  ⟨none, if inclusive then inclusiveEnd «end» else some «end»⟩

/-- A range that ends at `i64::MIN` seconds intersects itself and holds no timestamp. -/
theorem untilEnd_min_intersects_empty :
    (untilEnd ⟨I64.MIN, .second⟩ false).intersects (untilEnd ⟨I64.MIN, .second⟩ false) = true ∧
      ∀ t, (untilEnd ⟨I64.MIN, .second⟩ false).contains t = false := by
  refine ⟨rfl, fun t => ?_⟩
  rw [← Bool.not_eq_true, contains_iff compare_eq]
  exact fun h => absurd (h.2 _ rfl) (not_lt.mpr (exact_min_le t))

/-- `From<(Timestamp, Timestamp)> for TimestampRange`: both ends included. -/
def ofPair (start «end» : Timestamp) : TimestampRange :=
  if (compare start «end»).isGT then empty else newInclusive (some start) (some «end»)

/-- `std::ops::Bound`. -/
inductive Bound (T : Type)
  | included (x : T)
  | excluded (x : T)
  | unbounded

/-- `From<R: RangeBounds<Timestamp>> for TimestampRange`. -/
def ofBounds (startBound endBound : Bound Timestamp) : TimestampRange :=
  let start := match startBound with
    | .included x => some x
    | .excluded x => (I64.checkedSub x.value (I64.wrap 1)).map (⟨·, x.unit⟩)
    | .unbounded => none
  fromOptional start (match endBound with
    | .included x => inclusiveEnd x
    | .excluded x => some x
    | .unbounded => none)

end TimestampRange

end Greptime
