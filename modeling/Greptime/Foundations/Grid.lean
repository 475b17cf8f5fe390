import Mathlib

/-!
# Test points among constants

A condition that only compares a value with constants (`x < c`, `x = c`, `x ≥ c`, ...) cannot
tell apart two values that fall at the same place among the constants.  With the constants in
increasing order `c₀ < c₁ < ⋯ < cₘ₋₁` at `0, 1, …, m - 1`, a value falls at one of the
`2m + 1` `places`: on `cᵢ` (at `i`), between `cᵢ` and `cᵢ₊₁` (at `i + 1/2`), below `c₀`
(at `-1/2`) or above `cₘ₋₁` (at `m - 1/2`).  `rank cs x` is the place of `x`, and
`compare_rank` says that comparing `x` with `cⱼ` is comparing `rank cs x` with `j`: a
condition holds at `x` exactly when its image on the places holds at `rank cs x`.

* `sortDedup` gives the constants of a list in increasing order;
* `grid` is the product of the places of several coordinates, and `map_mem_grid` finds the
  point of every assignment of the coordinates in it;
* a point is read at a coordinate by `List.lookup`, which finds every entry of a list whose
  coordinates are distinct;
* a check that counts the conditions holding at a point carries its count over to groups of
  conditions: where exactly one condition of all the groups holds, exactly one group has one
  (`countP_any_eq_one`).

Nothing here names a program.
-/

namespace Greptime

namespace Grid

section Rank

variable {β : Type*} [LinearOrder β]

/-- The place of `x` among the increasing constants `cs`. -/
def rank : List β → β → ℚ
  | [], _ => -1 / 2
  | c :: cs, x => if x < c then -1 / 2 else if x = c then 0 else rank cs x + 1

/-- The places among `m` constants: below the first, then on each constant and just above it. -/
def places (m : ℕ) : List ℚ := -1 / 2 :: (List.range m).flatMap fun i => [(i : ℚ), i + 1 / 2]

lemma mem_places {m : ℕ} {q : ℚ} :
    q ∈ places m ↔ q = -1 / 2 ∨ ∃ i < m, q = i ∨ q = i + 1 / 2 := by
  simp [places]

lemma neg_half_le_rank (cs : List β) (x : β) : -1 / 2 ≤ rank cs x := by
  induction cs with
  | nil => simp [rank]
  | cons c cs ih =>
    unfold rank
    split_ifs <;> linarith

lemma rank_mem_places (cs : List β) (x : β) : rank cs x ∈ places cs.length := by
  induction cs with
  | nil => simp [rank, places]
  | cons c cs ih =>
    rw [mem_places] at ih ⊢
    unfold rank
    split_ifs with hlt heq
    · exact .inl rfl
    · exact .inr ⟨0, by simp, .inl (by simp)⟩
    · rcases ih with h | ⟨i, hi, h | h⟩
      · exact .inr ⟨0, by simp, .inr (by rw [h]; norm_num)⟩
      · exact .inr ⟨i + 1, by simpa using hi, .inl (by rw [h]; push_cast; linarith)⟩
      · exact .inr ⟨i + 1, by simpa using hi, .inr (by rw [h]; push_cast; linarith)⟩

lemma compare_add_one (a b : ℚ) : compare (a + 1) (b + 1) = compare a b := by
  rcases lt_trichotomy a b with h | rfl | h
  · rw [compare_lt_iff_lt.mpr h, compare_lt_iff_lt.mpr (by linarith)]
  · simp
  · rw [compare_gt_iff_gt.mpr h, compare_gt_iff_gt.mpr (by linarith)]

/-- Comparing a value with the `j`-th constant is comparing its place with `j`. -/
theorem compare_rank {cs : List β} (hcs : cs.Pairwise (· < ·)) (x : β) {j : ℕ}
    (hj : j < cs.length) : compare x cs[j] = compare (rank cs x) j := by
  induction cs generalizing j with
  | nil => exact absurd hj (Nat.not_lt_zero _)
  | cons c cs ih =>
    have hc : ∀ i (hi : i < cs.length), c < cs[i] := fun i hi =>
      List.rel_of_pairwise_cons hcs (List.getElem_mem hi)
    unfold rank
    split_ifs with hlt heq
    · cases j with
      | zero =>
        rw [List.getElem_cons_zero, compare_lt_iff_lt.mpr hlt,
          compare_lt_iff_lt.mpr (by norm_num)]
      | succ j =>
        have hj' : j < cs.length := Nat.lt_of_succ_lt_succ hj
        rw [List.getElem_cons_succ, compare_lt_iff_lt.mpr (lt_trans hlt (hc j hj')),
          compare_lt_iff_lt.mpr (by push_cast; linarith)]
    · subst heq
      cases j with
      | zero => simp
      | succ j =>
        have hj' : j < cs.length := Nat.lt_of_succ_lt_succ hj
        rw [List.getElem_cons_succ, compare_lt_iff_lt.mpr (hc j hj'),
          compare_lt_iff_lt.mpr (by push_cast; linarith)]
    · have hgt : c < x := lt_of_le_of_ne (not_lt.mp hlt) (Ne.symm heq)
      cases j with
      | zero =>
        have hle := neg_half_le_rank cs x
        rw [List.getElem_cons_zero, compare_gt_iff_gt.mpr hgt,
          compare_gt_iff_gt.mpr (by push_cast; linarith)]
      | succ j =>
        have hj' : j < cs.length := Nat.lt_of_succ_lt_succ hj
        rw [List.getElem_cons_succ, ih hcs.of_cons hj', Nat.cast_succ, compare_add_one]

end Rank

/-! ## Constants in increasing order -/

section SortDedup

variable {β : Type*} [LinearOrder β]

/-- The distinct elements of a list in increasing order: sorted, then rid of repeats. -/
def sortDedup (l : List β) : List β := (l.insertionSort (· ≤ ·)).dedup

@[simp] lemma mem_sortDedup {l : List β} {x : β} : x ∈ sortDedup l ↔ x ∈ l := by
  simp [sortDedup, List.mem_insertionSort]

lemma pairwise_sortDedup (l : List β) : (sortDedup l).Pairwise (· < ·) := by
  have hle := (List.pairwise_insertionSort (· ≤ ·) l).sublist (List.dedup_sublist _)
  exact (hle.and (List.nodup_dedup _)).imp fun h => lt_of_le_of_ne h.1 h.2

end SortDedup

/-! ## Grids -/

section Product

variable {κ γ : Type*}

/-- Every choice of one value a column, the first column varying slowest. -/
def grid : List (κ × List γ) → List (List (κ × γ))
  | [] => [[]]
  | (k, vs) :: rest => vs.flatMap fun v => (grid rest).map ((k, v) :: ·)

/-- The point that gives each coordinate a value among its choices is in the grid. -/
lemma map_mem_grid {ι : Type*} (key : ι → κ) (choices : ι → List γ) (f : ι → γ) :
    ∀ {cols : List ι}, (∀ i ∈ cols, f i ∈ choices i) →
      cols.map (fun i => (key i, f i)) ∈ grid (cols.map fun i => (key i, choices i))
  | [], _ => by simp [grid]
  | i :: rest, h => by
    have hi : f i ∈ choices i := h i List.mem_cons_self
    have hrest := map_mem_grid key choices f fun j hj => h j (List.mem_cons_of_mem _ hj)
    simp only [List.map_cons, grid, List.mem_flatMap, List.mem_map]
    exact ⟨f i, hi, _, hrest, rfl⟩

end Product

/-! ## Reading a point -/

section Lookup

variable {κ γ : Type*} [BEq κ] [LawfulBEq κ] {k : κ} {v : γ} {l : List (κ × γ)}

lemma mem_of_lookup_eq_some (h : l.lookup k = some v) : (k, v) ∈ l := by
  induction l with
  | nil => simp [List.lookup] at h
  | cons x l ih =>
    rw [List.lookup_cons] at h
    by_cases hk : k = x.1
    · subst hk
      simp only [beq_self_eq_true, Option.some.injEq] at h
      subst h
      exact List.mem_cons_self
    · simp only [beq_eq_false_iff_ne.mpr hk] at h
      exact List.mem_cons_of_mem _ (ih h)

lemma lookup_eq_some_of_mem (hl : (l.map Prod.fst).Nodup) (h : (k, v) ∈ l) :
    l.lookup k = some v := by
  induction l with
  | nil => cases h
  | cons x l ih =>
    rw [List.map_cons, List.nodup_cons] at hl
    rw [List.lookup_cons]
    rcases List.mem_cons.mp h with rfl | h
    · simp
    · have hk : k ≠ x.1 := fun hk => hl.1 (hk ▸ List.mem_map_of_mem h)
      simp only [beq_eq_false_iff_ne.mpr hk]
      exact ih hl.2 h

end Lookup

/-! ## Counting over groups -/

section Count

variable {ι β : Type*} {p : β → Bool}

/-- Lists related pointwise by equal verdicts have equal counts. -/
lemma countP_eq_of_forall₂ {q : ι → Bool} :
    ∀ {l : List ι} {l' : List β}, List.Forall₂ (fun a b => q a = p b) l l' →
      l.countP q = l'.countP p
  | _, _, .nil => rfl
  | _, _, .cons h hl => by simp only [List.countP_cons, h, countP_eq_of_forall₂ hl]

lemma countP_any_eq_zero {groups : List (List β)} (h : groups.flatten.countP p = 0) :
    groups.countP (·.any p) = 0 := by
  rw [List.countP_eq_zero] at h ⊢
  intro g hg hany
  obtain ⟨a, ha, hpa⟩ := List.any_eq_true.mp hany
  exact h a (List.mem_flatten.mpr ⟨g, hg, ha⟩) hpa

/-- Where exactly one element of all the groups satisfies `p`, exactly one group has one. -/
lemma countP_any_eq_one {groups : List (List β)} (h : groups.flatten.countP p = 1) :
    groups.countP (·.any p) = 1 := by
  induction groups with
  | nil => simp at h
  | cons g gs ih =>
    rw [List.flatten_cons, List.countP_append] at h
    rw [List.countP_cons]
    rcases Nat.eq_zero_or_pos (g.countP p) with hg | hg
    · have hany : g.any p = false := by simpa [List.countP_eq_zero] using hg
      simp [ih (by omega), hany]
    · have hany : g.any p = true := List.any_eq_true.mpr (List.countP_pos_iff.mp hg)
      simp [countP_any_eq_zero (by omega : gs.flatten.countP p = 0), hany]

end Count

end Grid

end Greptime
