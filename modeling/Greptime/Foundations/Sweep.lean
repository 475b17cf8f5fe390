import Mathlib.Data.List.Forall2
import Mathlib.Data.List.GetD
import Mathlib.Data.List.Nodup
import Mathlib.Order.MinMax

/-!
# Marking overlapping ranges with one sweep

Items with inclusive ranges `[lo x, hi x]`, sorted by `lo`, are swept once from left to right,
keeping the largest `hi` seen so far (`startsWithin`).  An item that starts at or before that
bound starts within one of the items before it.  `marks` flags such an item, and the item
before it.

For ranges that are not empty, an item is flagged exactly when its range meets the range of
another item (`forall₂_marks`, `marks_eq_map`).  An item that starts within an earlier one meets it.  An item
whose successor starts within an earlier item lies, by the order of starts, between the two,
and so meets one of them.

Nothing here names a program.
-/

namespace Greptime

namespace Sweep

variable {ι α : Type*} [LinearOrder α] (lo hi : ι → α)

/-- Two items whose inclusive ranges share a point. -/
def Meets (a b : ι) : Prop := lo a ≤ hi b ∧ lo b ≤ hi a

/-- For each item, whether it starts at or before `bound` or the end of an item before it. -/
def startsWithin : α → List ι → List Bool
  | _, [] => []
  | bound, x :: xs => decide (lo x ≤ bound) :: startsWithin (max bound (hi x)) xs

/-- The flags of the sweep: an item is flagged when it starts within an item before it, or
when the item after it does. -/
def marks : List ι → List Bool
  | [] => []
  | x :: xs =>
    let hits := startsWithin lo hi (hi x) xs
    List.zipWith (· || ·) (false :: hits) (hits ++ [false])

/-- Item `i` of `xs` starts within an item before it. -/
def StartsWithinEarlier (xs : List ι) (i : ℕ) : Prop :=
  ∃ (hlen : i < xs.length) (j : ℕ) (hj : j < i), lo xs[i] ≤ hi xs[j]

instance (a b : ι) : Decidable (Meets lo hi a b) := inferInstanceAs (Decidable (_ ∧ _))

variable {lo hi}

lemma Meets.symm {a b : ι} (h : Meets lo hi a b) : Meets lo hi b a := ⟨h.2, h.1⟩

@[simp] lemma length_startsWithin (bound : α) (xs : List ι) :
    (startsWithin lo hi bound xs).length = xs.length := by
  induction xs generalizing bound with
  | nil => rfl
  | cons x xs ih => simp [startsWithin, ih]

@[simp] lemma length_marks (xs : List ι) : (marks lo hi xs).length = xs.length := by
  cases xs with
  | nil => rfl
  | cons x xs => simp [marks]

lemma not_startsWithinEarlier_zero (xs : List ι) : ¬ StartsWithinEarlier lo hi xs 0 := by
  rintro ⟨-, j, hj, -⟩
  omega

/-! ## What the sweep computes -/

/-- Position `k` of the sweep: item `k` starts at or before `bound` or the end of an earlier
item.  The induction is on the items, with the bound growing as the sweep passes them. -/
lemma getD_startsWithin (bound : α) (xs : List ι) (k : ℕ) :
    (startsWithin lo hi bound xs).getD k false = true ↔
      ∃ hk : k < xs.length, lo xs[k] ≤ bound ∨ ∃ (j : ℕ) (hj : j < k), lo xs[k] ≤ hi xs[j] := by
  induction xs generalizing bound k with
  | nil => simp [startsWithin]
  | cons x xs ih =>
    cases k with
    | zero => simp [startsWithin]
    | succ k =>
      rw [startsWithin, List.getD_cons_succ, ih]
      constructor
      · rintro ⟨hk, h | ⟨j, hj, h⟩⟩
        · rcases le_max_iff.mp h with h | h
          · exact ⟨by simpa using hk, .inl h⟩
          · exact ⟨by simpa using hk, .inr ⟨0, by omega, h⟩⟩
        · exact ⟨by simpa using hk, .inr ⟨j + 1, by omega, h⟩⟩
      · rintro ⟨hk, h | ⟨j, hj, h⟩⟩
        · exact ⟨by simpa using hk, .inl (le_max_of_le_left h)⟩
        · -- the earlier item is the first one, whose end the bound has taken in, or a later one
          cases j with
          | zero => exact ⟨by simpa using hk, .inl (le_max_of_le_right h)⟩
          | succ j => exact ⟨by simpa using hk, .inr ⟨j, by omega, h⟩⟩

/-- Started from the end of the first item, the sweep tells for each later item whether it
starts within an earlier one. -/
lemma getD_startsWithin_cons (x : ι) (xs : List ι) (k : ℕ) :
    (startsWithin lo hi (hi x) xs).getD k false = true ↔
      StartsWithinEarlier lo hi (x :: xs) (k + 1) := by
  rw [getD_startsWithin]
  constructor
  · rintro ⟨hk, h | ⟨j, hj, h⟩⟩
    · exact ⟨by simpa using hk, 0, by omega, h⟩
    · exact ⟨by simpa using hk, j + 1, by omega, h⟩
  · rintro ⟨hk, j, hj, h⟩
    cases j with
    | zero => exact ⟨by simpa using hk, .inl h⟩
    | succ j => exact ⟨by simpa using hk, .inr ⟨j, by omega, h⟩⟩

lemma getD_append_false (l : List Bool) (i : ℕ) : (l ++ [false]).getD i false = l.getD i false := by
  induction l generalizing i with
  | nil => cases i <;> rfl
  | cons b l ih =>
    cases i with
    | zero => rfl
    | succ i => exact ih i

lemma getD_zipWith_or {a b : List Bool} (h : a.length = b.length) (i : ℕ) :
    (List.zipWith (· || ·) a b).getD i false = (a.getD i false || b.getD i false) := by
  induction a generalizing b i with
  | nil =>
    cases b with
    | nil => rfl
    | cons y b => simp at h
  | cons x a ih =>
    cases b with
    | nil => simp at h
    | cons y b =>
      cases i with
      | zero => rfl
      | succ i => exact ih (Nat.succ.inj h) i

/-- Item `i` is flagged exactly when it, or the item after it, starts within an earlier item. -/
lemma getD_marks (xs : List ι) (i : ℕ) :
    (marks lo hi xs).getD i false = true ↔
      StartsWithinEarlier lo hi xs i ∨ StartsWithinEarlier lo hi xs (i + 1) := by
  cases xs with
  | nil => simp [marks, StartsWithinEarlier]
  | cons x xs =>
    rw [marks, getD_zipWith_or (by simp), getD_append_false, Bool.or_eq_true,
      getD_startsWithin_cons]
    cases i with
    | zero => simp [not_startsWithinEarlier_zero]
    | succ i => rw [List.getD_cons_succ, getD_startsWithin_cons]

/-- Flags that agree item by item with a test are the test mapped over the items. -/
lemma eq_map_of_forall₂ {P : ι → Prop} [DecidablePred P] {l : List ι} {flags : List Bool}
    (h : List.Forall₂ (fun x flag => flag = true ↔ P x) l flags) :
    flags = l.map fun x => decide (P x) := by
  induction h with
  | nil => rfl
  | cons hflag _ ih => rw [List.map_cons, ← ih, Bool.eq_iff_iff.mpr (hflag.trans decide_eq_true_iff.symm)]

/-! ## Flags of sorted ranges -/

section Sorted

variable {xs : List ι} (hsorted : xs.Pairwise fun a b => lo a ≤ lo b)
  (hne : ∀ x ∈ xs, lo x ≤ hi x)

include hsorted hne in
/-- For sorted, non-empty ranges: item `i` or its successor starts within an earlier item
exactly when item `i` meets another item. -/
lemma startsWithinEarlier_or_succ_iff (i : ℕ) (hlen : i < xs.length) :
    StartsWithinEarlier lo hi xs i ∨ StartsWithinEarlier lo hi xs (i + 1) ↔
      ∃ (j : ℕ) (hj : j < xs.length), j ≠ i ∧ Meets lo hi xs[i] xs[j] := by
  have hle : ∀ a b (ha : a < xs.length) (hb : b < xs.length), a ≤ b → lo xs[a] ≤ lo xs[b] := by
    intro a b ha hb hab
    rcases hab.lt_or_eq with hab | rfl
    · exact List.pairwise_iff_getElem.mp hsorted a b ha hb hab
    · exact le_rfl
  have hwf : ∀ a (ha : a < xs.length), lo xs[a] ≤ hi xs[a] := fun a ha =>
    hne _ (List.getElem_mem ha)
  constructor
  · rintro (⟨_, j, hj, h⟩ | ⟨hsucc, j, hj, h⟩)
    · -- item `i` starts within the earlier item `j`
      exact ⟨j, by omega, by omega, h, (hle j i _ hlen hj.le).trans (hwf i hlen)⟩
    · -- item `i + 1` starts within an item `j ≤ i`: then item `i` starts within it as well,
      -- or `j` is `i` and item `i` meets its successor
      rcases Nat.lt_or_ge j i with hji | hji
      · exact ⟨j, by omega, by omega, (hle i (i + 1) hlen hsucc (by omega)).trans h,
          (hle j i _ hlen hji.le).trans (hwf i hlen)⟩
      · obtain rfl : j = i := by omega
        exact ⟨j + 1, hsucc, by omega, (hle j (j + 1) hlen hsucc (by omega)).trans (hwf _ hsucc), h⟩
  · rintro ⟨j, hj, hji, hlo, hhi⟩
    rcases Nat.lt_or_gt_of_ne hji with hji | hij
    · exact .inl ⟨hlen, j, hji, hlo⟩
    · -- a later item starts before the end of item `i`, and item `i + 1` starts no later
      exact .inr ⟨by omega, i, by omega, (hle (i + 1) j _ hj hij).trans hhi⟩

include hsorted hne in
/-- For sorted, non-empty ranges of distinct items, an item is flagged exactly when its range
meets the range of another item. -/
theorem forall₂_marks (hnodup : xs.Nodup) :
    List.Forall₂ (fun x flag => flag = true ↔ ∃ y ∈ xs, y ≠ x ∧ Meets lo hi x y) xs
      (marks lo hi xs) := by
  rw [List.forall₂_iff_get]
  refine ⟨(length_marks xs).symm, fun i h₁ h₂ => ?_⟩
  rw [List.get_eq_getElem, List.get_eq_getElem, ← List.getD_eq_getElem _ false h₂, getD_marks,
    startsWithinEarlier_or_succ_iff hsorted hne i h₁]
  constructor
  · rintro ⟨j, hj, hji, hmeet⟩
    exact ⟨xs[j], List.getElem_mem hj, fun heq => hji (hnodup.getElem_inj_iff.mp heq), hmeet⟩
  · rintro ⟨y, hy, hyx, hmeet⟩
    obtain ⟨j, hj, rfl⟩ := List.mem_iff_getElem.mp hy
    exact ⟨j, hj, fun hji => hyx (by subst hji; rfl), hmeet⟩

include hsorted hne in
/-- The flags of sorted, non-empty ranges of distinct items, as a test of each item on its
own: whether it meets another item. -/
theorem marks_eq_map [DecidableEq ι] (hnodup : xs.Nodup) :
    marks lo hi xs = xs.map fun x => decide (∃ y ∈ xs, y ≠ x ∧ Meets lo hi x y) :=
  eq_map_of_forall₂ (forall₂_marks hsorted hne hnodup)

end Sorted

end Sweep

end Greptime
