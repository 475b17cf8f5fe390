import Greptime.Foundations.SortedMap

/-!
# Merging sorted maps

`mergeSorted f xs ys` merges two maps sorted by key into one, as a two-way merge of sorted
streams does: the smaller head goes first, and the heads of one key go out as one entry whose
value is `f` of the two.  `mergeQueue f` merges a queue of maps two at a time, each merge going
to the back of the queue, until one map is left: a balanced merge tree built by a queue.

What the merges keep does not depend on the order of the maps they are given:

* the keys of a merge are the keys of its inputs;
* where `μ (f a b) = μ a ⊔ μ b`, what a merge holds at a key is the join of what the inputs
  hold there (`joinAt_mergeSorted`, `joinAt_mergeQueue`);
* a merge of sorted maps is sorted.

Nothing here names a program.
-/

namespace Greptime

namespace SortedMerge

open SortedMap

variable {κ β γ : Type*} [LinearOrder κ] (f : β → β → β)

/-- The two-way merge of two key-sorted maps, combining the values of a key in both by `f`. -/
def mergeSorted : List (κ × β) → List (κ × β) → List (κ × β)
  | [], ys => ys
  | xs, [] => xs
  | (k₁, b₁) :: xs, (k₂, b₂) :: ys =>
    match compare k₁ k₂ with
    | .lt => (k₁, b₁) :: mergeSorted xs ((k₂, b₂) :: ys)
    | .gt => (k₂, b₂) :: mergeSorted ((k₁, b₁) :: xs) ys
    | .eq => (k₁, f b₁ b₂) :: mergeSorted xs ys
termination_by xs ys => xs.length + ys.length

/-- Merge the first two maps of the queue and put the result at its back, until one is left;
an empty queue has no result. -/
def mergeQueue : List (List (κ × β)) → Option (List (κ × β))
  | [] => none
  | [l] => some l
  | l₁ :: l₂ :: ls => mergeQueue (ls ++ [mergeSorted f l₁ l₂])
termination_by ls => ls.length

variable {f} {xs ys l : List (κ × β)} {ls : List (List (κ × β))}

/-! ## Keys -/

lemma mem_keys_mergeSorted {k : κ} :
    k ∈ (mergeSorted f xs ys).map Prod.fst ↔ k ∈ xs.map Prod.fst ∨ k ∈ ys.map Prod.fst := by
  fun_induction mergeSorted f xs ys with
  | case1 ys => simp
  | case2 xs hxs => simp
  | case3 k₁ b₁ xs k₂ b₂ ys hc ih =>
    simp only [List.map_cons, List.mem_cons, ih]
    exact or_assoc.symm
  | case4 k₁ b₁ xs k₂ b₂ ys hc ih =>
    simp only [List.map_cons, List.mem_cons, ih]
    exact or_left_comm
  | case5 k₁ b₁ xs k₂ b₂ ys hc ih =>
    rw [compare_eq_iff_eq] at hc
    subst hc
    simp only [List.map_cons, List.mem_cons, ih]
    constructor
    · rintro (h | h | h) <;> simp [h]
    · rintro ((h | h) | (h | h)) <;> simp [h]

/-- Every key of a merge is above a bound that every key of its inputs is above. -/
lemma lt_of_mem_mergeSorted {lo : κ} (hxs : ∀ x ∈ xs, lo < x.1) (hys : ∀ y ∈ ys, lo < y.1)
    {z : κ × β} (hz : z ∈ mergeSorted f xs ys) : lo < z.1 := by
  have hkey : z.1 ∈ (mergeSorted f xs ys).map Prod.fst := List.mem_map_of_mem hz
  rcases mem_keys_mergeSorted.mp hkey with h | h
  · obtain ⟨x, hx, hxz⟩ := List.mem_map.mp h
    exact hxz ▸ hxs x hx
  · obtain ⟨y, hy, hyz⟩ := List.mem_map.mp h
    exact hyz ▸ hys y hy

lemma sorted_mergeSorted (hxs : Sorted xs) (hys : Sorted ys) : Sorted (mergeSorted f xs ys) := by
  fun_induction mergeSorted f xs ys with
  | case1 ys => exact hys
  | case2 xs hxs' => exact hxs
  | case3 k₁ b₁ xs k₂ b₂ ys hc ih =>
    rw [compare_lt_iff_lt] at hc
    refine List.Pairwise.cons (fun z hz => ?_) (ih hxs.of_cons hys)
    refine lt_of_mem_mergeSorted (fun x hx => List.rel_of_pairwise_cons hxs hx)
      (fun y hy => ?_) hz
    rcases List.mem_cons.mp hy with rfl | hy
    · exact hc
    · exact lt_trans hc (List.rel_of_pairwise_cons hys hy)
  | case4 k₁ b₁ xs k₂ b₂ ys hc ih =>
    rw [compare_gt_iff_gt] at hc
    refine List.Pairwise.cons (fun z hz => ?_) (ih hxs hys.of_cons)
    refine lt_of_mem_mergeSorted (fun x hx => ?_)
      (fun y hy => List.rel_of_pairwise_cons hys hy) hz
    rcases List.mem_cons.mp hx with rfl | hx
    · exact hc
    · exact lt_trans hc (List.rel_of_pairwise_cons hxs hx)
  | case5 k₁ b₁ xs k₂ b₂ ys hc ih =>
    rw [compare_eq_iff_eq] at hc
    subst hc
    refine List.Pairwise.cons (fun z hz => ?_) (ih hxs.of_cons hys.of_cons)
    exact lt_of_mem_mergeSorted (fun x hx => List.rel_of_pairwise_cons hxs hx)
      (fun y hy => List.rel_of_pairwise_cons hys hy) hz

/-! ## Values -/

section Join

variable [SemilatticeSup γ] [OrderBot γ] {μ : β → γ}

/-- A merge holds at each key what its two inputs hold there, joined. -/
lemma joinAt_mergeSorted (hf : ∀ a b, μ (f a b) = μ a ⊔ μ b) (k : κ) :
    joinAt μ k (mergeSorted f xs ys) = joinAt μ k (xs ++ ys) := by
  fun_induction mergeSorted f xs ys with
  | case1 ys => simp
  | case2 xs hxs => simp
  | case3 k₁ b₁ xs k₂ b₂ ys hc ih =>
    rw [List.cons_append, joinAt_cons, joinAt_cons, ih]
  | case4 k₁ b₁ xs k₂ b₂ ys hc ih =>
    simp only [joinAt_cons, ih, joinAt_append]
    split_ifs <;> ac_rfl
  | case5 k₁ b₁ xs k₂ b₂ ys hc ih =>
    rw [compare_eq_iff_eq] at hc
    subst hc
    simp only [joinAt_cons, ih, joinAt_append, hf]
    split_ifs <;> ac_rfl

end Join

/-! ## The merge queue -/

lemma mergeQueue_isSome (hls : ls ≠ []) : (mergeQueue f ls).isSome := by
  fun_induction mergeQueue f ls with
  | case1 => exact absurd rfl hls
  | case2 l => rfl
  | case3 l₁ l₂ ls ih => exact ih (by simp)

lemma mem_keys_mergeQueue (h : mergeQueue f ls = some l) {k : κ} :
    k ∈ l.map Prod.fst ↔ k ∈ ls.flatten.map Prod.fst := by
  fun_induction mergeQueue f ls with
  | case1 => cases h
  | case2 l' =>
    cases h
    simp
  | case3 l₁ l₂ ls ih =>
    rw [ih h]
    simp only [List.flatten_append, List.map_append, List.mem_append, List.flatten_cons,
      List.flatten_nil, List.append_nil, mem_keys_mergeSorted]
    exact or_comm.trans or_assoc

lemma sorted_mergeQueue (h : mergeQueue f ls = some l) (hls : ∀ l' ∈ ls, Sorted l') :
    Sorted l := by
  fun_induction mergeQueue f ls with
  | case1 => cases h
  | case2 l' =>
    cases h
    exact hls _ List.mem_cons_self
  | case3 l₁ l₂ ls ih =>
    refine ih h fun l' hl' => ?_
    rcases List.mem_append.mp hl' with hl' | hl'
    · exact hls l' (by simp [hl'])
    · rw [List.mem_singleton] at hl'
      subst hl'
      exact sorted_mergeSorted (hls l₁ (by simp)) (hls l₂ (by simp))

/-- The merge queue holds at each key what all the maps of the queue hold there. -/
lemma joinAt_mergeQueue [SemilatticeSup γ] [OrderBot γ] {μ : β → γ}
    (hf : ∀ a b, μ (f a b) = μ a ⊔ μ b) (h : mergeQueue f ls = some l) (k : κ) :
    joinAt μ k l = joinAt μ k ls.flatten := by
  fun_induction mergeQueue f ls with
  | case1 => cases h
  | case2 l' =>
    cases h
    simp
  | case3 l₁ l₂ ls ih =>
    rw [ih h]
    simp only [List.flatten_append, List.flatten_cons, List.flatten_nil, List.append_nil,
      joinAt_append, joinAt_mergeSorted hf]
    ac_rfl

end SortedMerge

end Greptime
