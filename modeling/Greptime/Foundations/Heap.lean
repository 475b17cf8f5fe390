import Mathlib

/-!
# A priority queue as a list

A binary heap is known to its users by two operations: `push` adds an element and `pop`
removes one that no other element orders before.  Which of several equal elements `pop`
returns is the heap's own business.  The model keeps the elements in a list, pushes at the end
and pops the first least element (`popMin`); `peek` is the element `pop` would return.

The order is a comparison function, as `Ord::cmp` is; the lemmas about the least element
assume that it compares by a key into a linear order (`cmp a b = compare (key a) (key b)`).
`popMin_perm` says the elements are kept, `le_of_popMin` that the popped one is least.

Nothing here names a program.
-/

namespace Greptime

namespace Heap

variable {α β : Type*} (cmp : α → α → Ordering)

/-- `BinaryHeap::pop` for a min-heap: the first element that no other compares below, and
the others. -/
def popMin : List α → Option (α × List α)
  | [] => none
  | a :: l =>
    match popMin l with
    | none => some (a, [])
    | some (m, l') => if cmp m a = .lt then some (m, a :: l') else some (a, m :: l')

/-- `BinaryHeap::peek`: the element `pop` would return. -/
def peek (l : List α) : Option α := (popMin cmp l).map Prod.fst

variable {cmp}

@[simp] lemma popMin_nil : popMin cmp ([] : List α) = none := rfl

lemma popMin_eq_none_iff {l : List α} : popMin cmp l = none ↔ l = [] := by
  cases l with
  | nil => simp
  | cons a l =>
    simp only [popMin, reduceCtorEq, iff_false]
    split
    · simp
    · split <;> simp

/-- Popping keeps the elements. -/
lemma popMin_perm {l l' : List α} {m : α} (h : popMin cmp l = some (m, l')) :
    (m :: l').Perm l := by
  induction l generalizing m l' with
  | nil => simp at h
  | cons a l ih =>
    rcases hpop : popMin cmp l with _ | ⟨m₀, l₀⟩
    · simp only [popMin, hpop, Option.some.injEq, Prod.mk.injEq] at h
      obtain ⟨rfl, rfl⟩ := h
      rw [popMin_eq_none_iff.mp hpop]
    · have hperm := ih hpop
      simp only [popMin, hpop] at h
      split at h <;> cases h
      -- the popped `m₀` comes out from behind `a`
      · exact (List.Perm.swap a _ _).trans (hperm.cons a)
      · exact hperm.cons a

lemma mem_of_popMin {l l' : List α} {m : α} (h : popMin cmp l = some (m, l')) : m ∈ l :=
  (popMin_perm h).subset (List.mem_cons_self ..)

lemma length_popMin {l l' : List α} {m : α} (h : popMin cmp l = some (m, l')) :
    l'.length + 1 = l.length := by
  simpa using (popMin_perm h).length_eq

lemma peek_eq_some_iff {l : List α} {m : α} :
    peek cmp l = some m ↔ ∃ l', popMin cmp l = some (m, l') := by
  unfold peek
  rcases popMin cmp l with _ | ⟨m', l'⟩
  · simp
  · simp [eq_comm]

lemma peek_eq_none_iff {l : List α} : peek cmp l = none ↔ l = [] := by
  rw [peek, Option.map_eq_none_iff, popMin_eq_none_iff]

section Key

variable [LinearOrder β] {key : α → β}

/-- The popped element is least among the others, for a comparison by a key. -/
lemma le_of_popMin (hcmp : ∀ a b, cmp a b = compare (key a) (key b)) {l l' : List α} {m : α}
    (h : popMin cmp l = some (m, l')) : ∀ a ∈ l', key m ≤ key a := by
  induction l generalizing m l' with
  | nil => simp at h
  | cons a l ih =>
    rcases hpop : popMin cmp l with _ | ⟨m₀, l₀⟩
    · simp only [popMin, hpop, Option.some.injEq, Prod.mk.injEq] at h
      obtain ⟨rfl, rfl⟩ := h
      simp
    · have hmin := ih hpop
      simp only [popMin, hpop] at h
      split at h <;> cases h
      · rename_i hlt
        rw [hcmp, compare_lt_iff_lt] at hlt
        intro b hb
        rcases List.mem_cons.mp hb with rfl | hb
        · exact hlt.le
        · exact hmin b hb
      · rename_i hnlt
        rw [hcmp, compare_lt_iff_lt, not_lt] at hnlt
        intro b hb
        rcases List.mem_cons.mp hb with rfl | hb
        · exact hnlt
        · exact hnlt.trans (hmin b hb)

/-- The popped element is least in the whole list. -/
lemma le_of_popMin_of_mem (hcmp : ∀ a b, cmp a b = compare (key a) (key b)) {l l' : List α}
    {m : α} (h : popMin cmp l = some (m, l')) {a : α} (ha : a ∈ l) : key m ≤ key a := by
  rcases List.mem_cons.mp ((popMin_perm h).symm.subset ha) with rfl | ha'
  · exact le_rfl
  · exact le_of_popMin hcmp h a ha'

end Key

end Heap

end Greptime
