import Mathlib.Order.Basic
import Mathlib.Data.Prod.Lex
import Mathlib.Order.Lattice

/-!
# Time ranges of the windowed sort (`query::window_sort`)

`TimeRange` is a range of timestamps with its start included and its end excluded.  The
windowed sort cuts the ranges its scanner reads into pieces, groups them into working ranges,
and reads the time range of every sorted run of its input; all of that goes through the few
operations here: `new`, `is_subset`, `is_overlapping`, `intersection` and `difference`.

The model states each operation by the points it keeps: a range is the set of the integers in
it (`t ∈ r`), and `intersection` and `difference` are pointwise intersection and difference
(`mem_intersection`, `exists_mem_difference_iff`), as long as the ranges have their start at
most their end, which every range `new` builds has.  Timestamps are the values of the time
index in its unit: every range of one sort is in the unit of its column.

The descending sort is the ascending one seen in a mirror.  `reflect` sends `[s, e)` to
`[1 - e, 1 - s)`, whose points are the negations of those of `[s, e)`; every operation here
commutes with it (`isSubset_reflect`, `intersection_reflect`, …).

Ranges are ordered as the source derives it, by start and then by end (`Ord` on the tuple).
-/

namespace Greptime

namespace WindowSort

/-- `TimeRange`: the timestamps from `start`, included, to `end`, excluded. -/
structure TimeRange where
  start : ℤ
  «end» : ℤ
  deriving DecidableEq, Repr

namespace TimeRange

/-- `TimeRange::new`: swaps the bounds when the start is above the end. -/
def new (s e : ℤ) : TimeRange := if s > e then ⟨e, s⟩ else ⟨s, e⟩

/-- `TimeRange::is_subset`. -/
def isSubset (self other : TimeRange) : Bool := self.start ≥ other.start && self.end ≤ other.end

/-- `TimeRange::is_overlapping`: ranges that only share a bound do not overlap. -/
def isOverlapping (self other : TimeRange) : Bool :=
  !(self.start ≥ other.end || self.end ≤ other.start)

/-- `TimeRange::intersection`. -/
def intersection (self other : TimeRange) : Option TimeRange :=
  if self.isOverlapping other then some (new (max self.start other.start) (min self.end other.end))
  else none

/-- `TimeRange::difference`: the parts of `self` outside `other`, left part first. -/
def difference (self other : TimeRange) : List TimeRange :=
  if !self.isOverlapping other then [self]
  else if self.start < other.start && self.end > other.end then
    [new self.start other.start, new other.end self.end]
  else if self.start < other.start then [new self.start other.start]
  else if self.end > other.end then [new other.end self.end]
  else []

/-! ## Points -/

instance : Membership ℤ TimeRange := ⟨fun r t => r.start ≤ t ∧ t < r.end⟩

variable {r o i : TimeRange} {t : ℤ}

@[simp] lemma mem_mk {s e : ℤ} : t ∈ (⟨s, e⟩ : TimeRange) ↔ s ≤ t ∧ t < e := Iff.rfl

lemma mem_def : t ∈ r ↔ r.start ≤ t ∧ t < r.end := Iff.rfl

instance (t : ℤ) (r : TimeRange) : Decidable (t ∈ r) :=
  inferInstanceAs (Decidable (r.start ≤ t ∧ t < r.end))

/-- A range with its start at most its end: every range `new` builds. -/
def Valid (r : TimeRange) : Prop := r.start ≤ r.end

/-- A range that holds a point. -/
def Proper (r : TimeRange) : Prop := r.start < r.end

instance : DecidablePred Valid := fun r => inferInstanceAs (Decidable (r.start ≤ r.end))

instance : DecidablePred Proper := fun r => inferInstanceAs (Decidable (r.start < r.end))

lemma Proper.valid (h : r.Proper) : r.Valid := le_of_lt h

lemma valid_new (s e : ℤ) : (new s e).Valid := by
  unfold new Valid
  split_ifs with h
  · exact le_of_lt h
  · exact not_lt.mp h

@[simp] lemma new_of_le {s e : ℤ} (h : s ≤ e) : new s e = ⟨s, e⟩ := if_neg (not_lt.mpr h)

@[simp] lemma isSubset_iff : r.isSubset o ↔ o.start ≤ r.start ∧ r.end ≤ o.end := by
  simp [isSubset]

@[simp] lemma isOverlapping_iff : r.isOverlapping o ↔ r.start < o.end ∧ o.start < r.end := by
  simp [isOverlapping]

lemma isOverlapping_comm : r.isOverlapping o = o.isOverlapping r := by
  rw [Bool.eq_iff_iff, isOverlapping_iff, isOverlapping_iff]
  exact and_comm

lemma isOverlapping_of_mem (hr : t ∈ r) (ho : t ∈ o) : r.isOverlapping o := by
  rw [mem_def] at hr ho
  rw [isOverlapping_iff]
  omega

/-- A point of a subset is a point of the range. -/
lemma mem_of_isSubset (h : r.isSubset o) (ht : t ∈ r) : t ∈ o := by
  rw [isSubset_iff] at h
  rw [mem_def] at ht ⊢
  omega

lemma intersection_eq_none_iff : r.intersection o = none ↔ r.isOverlapping o = false := by
  unfold intersection
  split_ifs with h <;> simp [h]

lemma start_intersection (hr : r.Valid) (ho : o.Valid) (h : r.intersection o = some i) :
    i.start = max r.start o.start ∧ i.end = min r.end o.end := by
  unfold intersection at h
  split_ifs at h with hov
  rw [isOverlapping_iff] at hov
  rw [Option.some.injEq, new_of_le (by unfold Valid at hr ho; omega)] at h
  exact ⟨by rw [← h], by rw [← h]⟩

/-- The intersection of two valid ranges holds their common points. -/
lemma mem_intersection (hr : r.Valid) (ho : o.Valid) (h : r.intersection o = some i) :
    t ∈ i ↔ t ∈ r ∧ t ∈ o := by
  obtain ⟨hs, he⟩ := start_intersection hr ho h
  simp only [mem_def, hs, he]
  omega

lemma valid_of_intersection (h : r.intersection o = some i) : i.Valid := by
  unfold intersection at h
  split_ifs at h
  rw [Option.some.injEq] at h
  exact h ▸ valid_new _ _

/-! ## `difference` -/

lemma isOverlapping_eq : r.isOverlapping o = decide (r.start < o.end ∧ o.start < r.end) := by
  rw [Bool.eq_iff_iff, isOverlapping_iff, decide_eq_true_eq]

/-- `difference` by its cases, its conditions read as propositions. -/
lemma difference_eq : r.difference o =
    if r.start < o.end ∧ o.start < r.end then
      if r.start < o.start ∧ r.end > o.end then [new r.start o.start, new o.end r.end]
      else if r.start < o.start then [new r.start o.start]
      else if r.end > o.end then [new o.end r.end]
      else []
    else [r] := by
  simp only [difference, isOverlapping_eq, Bool.not_eq_true', decide_eq_false_iff_not,
    Bool.and_eq_true, decide_eq_true_eq, ite_not]

/-- A point is in a part of the difference exactly when it is in `self` and not in `other`. -/
lemma exists_mem_difference_iff : (∃ d ∈ r.difference o, t ∈ d) ↔ t ∈ r ∧ t ∉ o := by
  rw [difference_eq]
  split_ifs with h₀ h₁ h₂ h₃
  · simp only [List.mem_cons, List.not_mem_nil, or_false, exists_eq_or_imp, exists_eq_left,
      new_of_le (le_of_lt h₁.1), new_of_le (le_of_lt h₁.2), mem_def]
    omega
  · simp only [List.mem_singleton, exists_eq_left, new_of_le (le_of_lt h₂), mem_def]
    omega
  · simp only [List.mem_singleton, exists_eq_left, new_of_le (le_of_lt h₃), mem_def]
    omega
  · -- `self` inside `other`
    simp only [List.not_mem_nil, false_and, exists_false, false_iff, not_and, mem_def]
    omega
  · -- apart: all of `self`
    simp only [List.mem_singleton, exists_eq_left, mem_def]
    omega

/-- The parts of the difference of a proper range are proper. -/
lemma proper_of_mem_difference (hr : r.Proper) (hd : i ∈ r.difference o) : i.Proper := by
  rw [difference_eq] at hd
  split_ifs at hd with h₀ h₁ h₂ h₃
  · simp only [List.mem_cons, List.not_mem_nil, or_false] at hd
    rcases hd with rfl | rfl
    · rw [new_of_le (le_of_lt h₁.1)]
      exact h₁.1
    · rw [new_of_le (le_of_lt h₁.2)]
      exact h₁.2
  · rw [List.mem_singleton] at hd
    subst hd
    rw [new_of_le (le_of_lt h₂)]
    exact h₂
  · rw [List.mem_singleton] at hd
    subst hd
    rw [new_of_le (le_of_lt h₃)]
    exact h₃
  · cases hd
  · rw [List.mem_singleton] at hd
    exact hd ▸ hr

/-- The parts of a difference lie in `self`. -/
lemma mem_of_mem_difference (hd : i ∈ r.difference o) (ht : t ∈ i) : t ∈ r :=
  (exists_mem_difference_iff.mp ⟨i, hd, ht⟩).1

/-- The two parts of a difference are apart: the left one ends before the right one starts. -/
lemma difference_pairwise (ho : o.Valid) :
    (r.difference o).Pairwise fun a b => a.end ≤ b.start := by
  rw [difference_eq]
  split_ifs with h₀ h₁
  · simp only [List.pairwise_cons, List.mem_cons, List.not_mem_nil, or_false, forall_eq,
      new_of_le (le_of_lt h₁.1), new_of_le (le_of_lt h₁.2)]
    exact ⟨ho, fun _ h => h.elim, List.Pairwise.nil⟩
  all_goals first | exact List.pairwise_singleton _ _ | exact List.Pairwise.nil

/-! ## Order

Ranges are ordered by start and then by end, as the derived `Ord` of the source orders the
pair of its fields. -/

instance : LinearOrder TimeRange :=
  LinearOrder.lift' (fun r => toLex (r.start, r.end)) fun a b h => by
    cases a; cases b
    simp only [toLex_inj, Prod.mk.injEq] at h
    rw [h.1, h.2]

lemma lt_iff : r < o ↔ r.start < o.start ∨ r.start = o.start ∧ r.end < o.end :=
  Prod.Lex.toLex_lt_toLex

lemma le_iff : r ≤ o ↔ r.start < o.start ∨ r.start = o.start ∧ r.end ≤ o.end :=
  Prod.Lex.toLex_le_toLex

/-! ## The mirror image -/

/-- The range of the negated points: `[s, e)` becomes `[1 - e, 1 - s)`. -/
def reflect (r : TimeRange) : TimeRange := ⟨1 - r.end, 1 - r.start⟩

@[simp] lemma reflect_start : r.reflect.start = 1 - r.end := rfl

@[simp] lemma reflect_end : r.reflect.end = 1 - r.start := rfl

@[simp] lemma reflect_reflect (r : TimeRange) : r.reflect.reflect = r := by
  cases r
  simp only [reflect, mk.injEq]
  omega

@[simp] lemma neg_mem_reflect : -t ∈ r.reflect ↔ t ∈ r := by
  simp only [reflect, mem_def]
  omega

lemma mem_reflect : t ∈ r.reflect ↔ -t ∈ r := by
  simp only [reflect, mem_def]
  omega

@[simp] lemma valid_reflect : r.reflect.Valid ↔ r.Valid := by
  simp only [Valid, reflect_start, reflect_end]
  omega

@[simp] lemma proper_reflect : r.reflect.Proper ↔ r.Proper := by
  simp only [Proper, reflect_start, reflect_end]
  omega

@[simp] lemma isSubset_reflect : r.reflect.isSubset o.reflect = r.isSubset o := by
  rw [Bool.eq_iff_iff, isSubset_iff, isSubset_iff, reflect_start, reflect_start, reflect_end,
    reflect_end]
  omega

@[simp] lemma isOverlapping_reflect : r.reflect.isOverlapping o.reflect = r.isOverlapping o := by
  rw [Bool.eq_iff_iff, isOverlapping_iff, isOverlapping_iff, reflect_start, reflect_start,
    reflect_end, reflect_end]
  omega

lemma new_reflect {s e : ℤ} (h : s ≤ e) : (new s e).reflect = new (1 - e) (1 - s) := by
  rw [new_of_le h, new_of_le (by omega)]
  rfl

/-- The intersection of mirror images is the mirror image of the intersection. -/
lemma intersection_reflect (hr : r.Valid) (ho : o.Valid) :
    r.reflect.intersection o.reflect = (r.intersection o).map reflect := by
  unfold intersection
  rw [isOverlapping_reflect]
  split_ifs with hov
  · rw [isOverlapping_iff] at hov
    unfold Valid at hr ho
    simp only [reflect_start, reflect_end, Option.map_some, Option.some.injEq]
    rw [new_reflect (by omega)]
    congr 1 <;> omega
  · rfl

end TimeRange

end WindowSort

end Greptime
