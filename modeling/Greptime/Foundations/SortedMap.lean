import Mathlib.Order.BoundedOrder.Basic
import Mathlib.Order.Lattice
import Mathlib.Data.List.Nodup

/-!
# An ordered map as a sorted list of entries

A `BTreeMap` is known to its users by its entries in key order.  The model keeps them in a
list sorted by a comparison function, as `Ord::cmp` is:

* `insert` replaces the value of the entry whose key compares equal, keeping that key as
  `BTreeMap::insert` does, and otherwise adds the entry in its place;
* `orInsert` adds an entry only where no key compares equal (`entry(k).or_insert(v)`);
* `erase` removes the entry of a key (`remove`);
* `get` finds the value of a key (`get`);
* `rangeFrom` and `rangeBelow` are the entries from a key on and below it (`range(k..)` and
  `range(..k)`), in key order.

Over a linear order, a map is `Sorted` when its keys strictly increase, and `joinAt μ k` is what
it holds at `k`: the values of the entries of key `k` read through `μ` into a join-semilattice
and joined.  A sorted map has at most one entry a key; the join is what lets the merges of
`SortedMerge` combine the values of one key and still be read the same way.

Sorted maps with the same entries are equal (`Sorted.eq_of_mem_iff`), so a filter of a map is
the same filter of a larger map when it drops what the larger map adds
(`filterMap_eq_of_subset`).

The searches stop at the first key above the one they look for, so on a list that is not
sorted they behave as the tree would on the keys it has seen.

Nothing here names a program.
-/

namespace Greptime

namespace SortedMap

variable {κ ν : Type*} (cmp : κ → κ → Ordering)

/-- `BTreeMap::insert`. -/
def insert (k : κ) (v : ν) : List (κ × ν) → List (κ × ν)
  | [] => [(k, v)]
  | (k', v') :: rest =>
    match cmp k k' with
    | .lt => (k, v) :: (k', v') :: rest
    | .eq => (k', v) :: rest
    | .gt => (k', v') :: insert k v rest

/-- `BTreeMap::entry(k).or_insert(v)`. -/
def orInsert (k : κ) (v : ν) : List (κ × ν) → List (κ × ν)
  | [] => [(k, v)]
  | (k', v') :: rest =>
    match cmp k k' with
    | .lt => (k, v) :: (k', v') :: rest
    | .eq => (k', v') :: rest
    | .gt => (k', v') :: orInsert k v rest

/-- `BTreeMap::remove`. -/
def erase (k : κ) : List (κ × ν) → List (κ × ν)
  | [] => []
  | (k', v') :: rest =>
    match cmp k k' with
    | .lt => (k', v') :: rest
    | .eq => rest
    | .gt => (k', v') :: erase k rest

/-- `BTreeMap::get`. -/
def get (k : κ) : List (κ × ν) → Option ν
  | [] => none
  | (k', v') :: rest =>
    match cmp k k' with
    | .lt => none
    | .eq => some v'
    | .gt => get k rest

/-- `BTreeMap::from_iter`: the entries inserted in turn, the last value of a key staying. -/
def ofList (l : List (κ × ν)) : List (κ × ν) := l.foldl (fun m x => insert cmp x.1 x.2 m) []

/-- `BTreeMap::range(k..)`: the entries from key `k` on. -/
def rangeFrom (k : κ) (l : List (κ × ν)) : List (κ × ν) := l.filter fun x => cmp x.1 k != .lt

/-- `BTreeMap::range(..k)`: the entries below key `k`. -/
def rangeBelow (k : κ) (l : List (κ × ν)) : List (κ × ν) := l.filter fun x => cmp x.1 k == .lt

/-! ## Sorted maps -/

section Sorted

variable {γ : Type*} [LinearOrder κ] [SemilatticeSup γ] [OrderBot γ]

/-- The keys strictly increase. -/
def Sorted (l : List (κ × ν)) : Prop := l.Pairwise fun a b => a.1 < b.1

/-- What a map holds at a key: the join of its values there, read through `μ`. -/
def joinAt (μ : ν → γ) (k : κ) : List (κ × ν) → γ
  | [] => ⊥
  | (k', v) :: rest => if k' = k then μ v ⊔ joinAt μ k rest else joinAt μ k rest

variable {μ : ν → γ} {k k' : κ} {v : ν} {l l₁ l₂ : List (κ × ν)}

@[simp] lemma joinAt_nil : joinAt μ k ([] : List (κ × ν)) = ⊥ := rfl

@[simp] lemma joinAt_cons (x : κ × ν) :
    joinAt μ k (x :: l) = if x.1 = k then μ x.2 ⊔ joinAt μ k l else joinAt μ k l := rfl

@[simp] lemma joinAt_append : joinAt μ k (l₁ ++ l₂) = joinAt μ k l₁ ⊔ joinAt μ k l₂ := by
  induction l₁ with
  | nil => simp
  | cons x l₁ ih =>
    by_cases hx : x.1 = k
    · simp [hx, ih, sup_assoc]
    · simp [hx, ih]

/-- What a map holds at a key does not depend on the order of its entries. -/
lemma joinAt_perm (h : l₁.Perm l₂) : joinAt μ k l₁ = joinAt μ k l₂ := by
  induction h with
  | nil => rfl
  | cons x _ ih => simp [ih]
  | swap x y l =>
    simp only [joinAt_cons]
    split_ifs <;> ac_rfl
  | trans _ _ ih₁ ih₂ => exact ih₁.trans ih₂

lemma joinAt_map {ν' : Type*} (g : ν → ν') {μ' : ν' → γ} :
    joinAt μ' k (l.map fun x => (x.1, g x.2)) = joinAt (μ' ∘ g) k l := by
  induction l with
  | nil => rfl
  | cons x l ih => simp [ih]

lemma joinAt_eq_bot (h : k ∉ l.map Prod.fst) : joinAt μ k l = ⊥ := by
  induction l with
  | nil => rfl
  | cons x l ih =>
    simp only [List.map_cons, List.mem_cons, not_or] at h
    simp [Ne.symm h.1, ih h.2]

lemma Sorted.of_cons {x : κ × ν} (h : Sorted (x :: l)) : Sorted l := List.Pairwise.of_cons h

lemma Sorted.not_mem_keys {x : κ × ν} (h : Sorted (x :: l)) : x.1 ∉ l.map Prod.fst := by
  simp only [List.mem_map, not_exists, not_and]
  intro y hy hxy
  exact lt_irrefl x.1 (hxy ▸ List.rel_of_pairwise_cons h hy)

/-- In a sorted map, the entry of a key is all it holds there. -/
lemma joinAt_of_mem (hl : Sorted l) {x : κ × ν} (hx : x ∈ l) : joinAt μ x.1 l = μ x.2 := by
  induction l with
  | nil => cases hx
  | cons y l ih =>
    rcases List.mem_cons.mp hx with rfl | hx
    · simp [joinAt_eq_bot hl.not_mem_keys]
    · have hne : y.1 ≠ x.1 := ne_of_lt (List.rel_of_pairwise_cons hl hx)
      simp [hne, ih hl.of_cons hx]

lemma mem_insert {x : κ × ν} (hx : x ∈ insert compare k v l) : x = (k, v) ∨ x ∈ l := by
  induction l with
  | nil => simpa [insert] using hx
  | cons y l ih =>
    obtain ⟨k'', v''⟩ := y
    cases hc : compare k k'' with
    | lt =>
      simp only [insert, hc, List.mem_cons] at hx
      rcases hx with h | h
      · exact .inl h
      · exact .inr (List.mem_cons.mpr h)
    | eq =>
      simp only [insert, hc, List.mem_cons] at hx
      rw [compare_eq_iff_eq] at hc
      subst hc
      rcases hx with h | h
      · exact .inl h
      · exact .inr (List.mem_cons_of_mem _ h)
    | gt =>
      simp only [insert, hc, List.mem_cons] at hx
      rcases hx with rfl | hx
      · simp
      · rcases ih hx with h | h
        · exact .inl h
        · simp [h]

lemma mem_keys_insert :
    k' ∈ (insert compare k v l).map Prod.fst ↔ k' = k ∨ k' ∈ l.map Prod.fst := by
  induction l with
  | nil => simp [insert]
  | cons y l ih =>
    obtain ⟨k'', v''⟩ := y
    cases hc : compare k k'' with
    | lt => simp [insert, hc]
    | eq =>
      rw [compare_eq_iff_eq] at hc
      subst hc
      simp [insert]
    | gt =>
      simp only [insert, hc, List.map_cons, List.mem_cons, ih]
      exact or_left_comm

lemma sorted_insert (hl : Sorted l) : Sorted (insert compare k v l) := by
  induction l with
  | nil => simp [insert, Sorted]
  | cons y l ih =>
    obtain ⟨k'', v''⟩ := y
    have hrest : ∀ x ∈ l, k'' < x.1 := fun x hx => List.rel_of_pairwise_cons hl hx
    cases hc : compare k k'' with
    | lt =>
      rw [compare_lt_iff_lt] at hc
      simp only [insert, compare_lt_iff_lt.mpr hc]
      refine List.Pairwise.cons (fun x hx => ?_) hl
      rcases List.mem_cons.mp hx with rfl | hx
      · exact hc
      · exact lt_trans hc (hrest _ hx)
    | eq =>
      rw [compare_eq_iff_eq] at hc
      subst hc
      simpa [insert, Sorted] using hl
    | gt =>
      simp only [insert, hc]
      refine List.Pairwise.cons (fun x hx => ?_) (ih hl.of_cons)
      rcases mem_insert hx with rfl | hx
      · exact compare_gt_iff_gt.mp hc
      · exact hrest _ hx

lemma joinAt_insert (hl : Sorted l) :
    joinAt μ k' (insert compare k v l) = if k = k' then μ v else joinAt μ k' l := by
  induction l with
  | nil => by_cases h : k = k' <;> simp [insert, h]
  | cons y l ih =>
    obtain ⟨k'', v''⟩ := y
    cases hc : compare k k'' with
    | lt =>
      have hnot : k ∉ ((k'', v'') :: l).map Prod.fst := fun hk => by
        obtain ⟨x, hx, hxk⟩ := List.mem_map.mp hk
        rcases List.mem_cons.mp hx with rfl | hx
        · exact lt_irrefl _ (hxk ▸ compare_lt_iff_lt.mp hc)
        · exact lt_asymm (compare_lt_iff_lt.mp hc)
            (hxk ▸ List.rel_of_pairwise_cons hl hx)
      by_cases h : k = k'
      · subst h
        simp [insert, hc, joinAt_eq_bot hnot]
      · simp [insert, hc, h]
    | eq =>
      rw [compare_eq_iff_eq] at hc
      subst hc
      by_cases h : k = k'
      · subst h
        simp [insert, joinAt_eq_bot hl.not_mem_keys]
      · simp [insert, h]
    | gt =>
      have hne : k'' ≠ k := ne_of_lt (compare_gt_iff_gt.mp hc)
      by_cases h : k = k'
      · subst h
        simp [insert, hc, hne, ih hl.of_cons]
      · simp [insert, hc, h, ih hl.of_cons]

lemma mem_of_get_eq_some (h : get compare k l = some v) : (k, v) ∈ l := by
  induction l with
  | nil => cases h
  | cons y l ih =>
    obtain ⟨k'', v''⟩ := y
    cases hc : compare k k'' with
    | lt => simp [get, hc] at h
    | eq =>
      simp only [get, hc, Option.some.injEq] at h
      rw [compare_eq_iff_eq] at hc
      subst hc h
      simp
    | gt =>
      simp only [get, hc] at h
      exact List.mem_cons_of_mem _ (ih h)

lemma get_eq_none_of_not_mem_keys (h : k ∉ l.map Prod.fst) : get compare k l = none := by
  cases hget : get compare k l with
  | none => rfl
  | some v => exact absurd (List.mem_map_of_mem (f := Prod.fst) (mem_of_get_eq_some hget)) h

lemma not_mem_keys_of_get_eq_none (hl : Sorted l) (h : get compare k l = none) :
    k ∉ l.map Prod.fst := by
  induction l with
  | nil => simp
  | cons y l ih =>
    obtain ⟨k'', v''⟩ := y
    have hrest : ∀ x ∈ l, k'' < x.1 := fun x hx => List.rel_of_pairwise_cons hl hx
    cases hc : compare k k'' with
    | lt =>
      rw [compare_lt_iff_lt] at hc
      simp only [List.map_cons, List.mem_cons, List.mem_map, not_or, not_exists, not_and]
      refine ⟨ne_of_lt hc, fun x hx hxk => ?_⟩
      exact lt_asymm hc (hxk ▸ hrest _ hx)
    | eq => simp [get, hc] at h
    | gt =>
      simp only [get, hc] at h
      simp only [List.map_cons, List.mem_cons, not_or]
      exact ⟨ne_of_gt (compare_gt_iff_gt.mp hc), ih hl.of_cons h⟩


/-- A sorted map has one entry a key. -/
lemma Sorted.eq_of_fst_eq (hl : Sorted l) {x y : κ × ν} (hx : x ∈ l) (hy : y ∈ l)
    (h : x.1 = y.1) : x = y := by
  induction l with
  | nil => cases hx
  | cons z l ih =>
    have hrest : ∀ w ∈ l, z.1 < w.1 := fun w hw => List.rel_of_pairwise_cons hl hw
    rcases List.mem_cons.mp hx with rfl | hx'
    · rcases List.mem_cons.mp hy with rfl | hy'
      · rfl
      · exact absurd (hrest _ hy') (by rw [h]; exact lt_irrefl _)
    · rcases List.mem_cons.mp hy with rfl | hy'
      · exact absurd (hrest _ hx') (by rw [h]; exact lt_irrefl _)
      · exact ih hl.of_cons hx' hy'

/-- The keys of a sorted map are distinct. -/
lemma Sorted.nodup_keys (hl : Sorted l) : (l.map Prod.fst).Nodup :=
  List.Pairwise.map _ (fun _ _ h => ne_of_lt h) hl

/-- On a sorted map `get` finds exactly the entries. -/
lemma get_eq_some_iff (hl : Sorted l) : get compare k l = some v ↔ (k, v) ∈ l := by
  refine ⟨mem_of_get_eq_some, fun hkv => ?_⟩
  cases hget : get compare k l with
  | none =>
    exact absurd (List.mem_map_of_mem (f := Prod.fst) hkv) (not_mem_keys_of_get_eq_none hl hget)
  | some v' =>
    have h := hl.eq_of_fst_eq (mem_of_get_eq_some hget) hkv rfl
    rw [Prod.mk.injEq] at h
    rw [h.2]

lemma mem_insert_self : (k, v) ∈ insert compare k v l := by
  induction l with
  | nil => simp [insert]
  | cons y l ih =>
    obtain ⟨k'', v''⟩ := y
    cases hc : compare k k'' with
    | lt => simp [insert, hc]
    | eq =>
      rw [compare_eq_iff_eq] at hc
      subst hc
      simp [insert]
    | gt =>
      simp only [insert, hc]
      exact List.mem_cons_of_mem _ ih

lemma mem_insert_of_mem {x : κ × ν} (hx : x ∈ l) (hk : x.1 ≠ k) : x ∈ insert compare k v l := by
  induction l with
  | nil => cases hx
  | cons y l ih =>
    obtain ⟨k'', v''⟩ := y
    cases hc : compare k k'' with
    | lt =>
      simp only [insert, hc]
      exact List.mem_cons_of_mem _ hx
    | eq =>
      rw [compare_eq_iff_eq] at hc
      subst hc
      rcases List.mem_cons.mp hx with rfl | hx
      · exact absurd rfl hk
      · simp [insert, hx]
    | gt =>
      simp only [insert, hc]
      rcases List.mem_cons.mp hx with rfl | hx
      · exact List.mem_cons_self
      · exact List.mem_cons_of_mem _ (ih hx)

/-- The entries after an insert: the new one, and the old ones of other keys. -/
lemma mem_insert_iff (hl : Sorted l) {x : κ × ν} :
    x ∈ insert compare k v l ↔ x = (k, v) ∨ x ∈ l ∧ x.1 ≠ k := by
  constructor
  · intro hx
    rcases mem_insert hx with h | h
    · exact .inl h
    · by_cases hk : x.1 = k
      · exact .inl ((sorted_insert hl).eq_of_fst_eq hx mem_insert_self hk)
      · exact .inr ⟨h, hk⟩
  · rintro (rfl | ⟨hx, hk⟩)
    · exact mem_insert_self
    · exact mem_insert_of_mem hx hk

lemma mem_erase {x : κ × ν} (hx : x ∈ erase compare k l) : x ∈ l := by
  induction l with
  | nil => cases hx
  | cons y l ih =>
    obtain ⟨k'', v''⟩ := y
    cases hc : compare k k'' with
    | lt => simpa [erase, hc] using hx
    | eq =>
      simp only [erase, hc] at hx
      exact List.mem_cons_of_mem _ hx
    | gt =>
      simp only [erase, hc, List.mem_cons] at hx
      rcases hx with rfl | hx
      · exact List.mem_cons_self
      · exact List.mem_cons_of_mem _ (ih hx)

lemma sorted_erase (hl : Sorted l) : Sorted (erase compare k l) := by
  induction l with
  | nil => exact List.Pairwise.nil
  | cons y l ih =>
    obtain ⟨k'', v''⟩ := y
    cases hc : compare k k'' with
    | lt => simpa [erase, hc] using hl
    | eq =>
      simp only [erase, hc]
      exact hl.of_cons
    | gt =>
      simp only [erase, hc]
      exact List.Pairwise.cons (fun x hx => List.rel_of_pairwise_cons hl (mem_erase hx))
        (ih hl.of_cons)

/-- The entries after an erase: the old ones of other keys. -/
lemma mem_erase_iff (hl : Sorted l) {x : κ × ν} :
    x ∈ erase compare k l ↔ x ∈ l ∧ x.1 ≠ k := by
  induction l with
  | nil => simp [erase]
  | cons y l ih =>
    obtain ⟨k'', v''⟩ := y
    have hrest : ∀ z ∈ l, k'' < z.1 := fun z hz => List.rel_of_pairwise_cons hl hz
    cases hc : compare k k'' with
    | lt =>
      rw [compare_lt_iff_lt] at hc
      simp only [erase, compare_lt_iff_lt.mpr hc]
      constructor
      · intro hx
        refine ⟨hx, fun hk => ?_⟩
        rcases List.mem_cons.mp hx with rfl | hx
        · exact lt_irrefl _ (hk ▸ hc)
        · exact lt_asymm hc (hk ▸ hrest _ hx)
      · exact And.left
    | eq =>
      simp only [erase, hc]
      rw [compare_eq_iff_eq] at hc
      subst hc
      constructor
      · intro hx
        exact ⟨List.mem_cons_of_mem _ hx, fun hk => lt_irrefl _ (hk ▸ hrest _ hx)⟩
      · rintro ⟨hx, hk⟩
        rcases List.mem_cons.mp hx with rfl | hx
        · exact absurd rfl hk
        · exact hx
    | gt =>
      simp only [erase, hc, List.mem_cons, ih hl.of_cons]
      constructor
      · rintro (rfl | ⟨hx, hk⟩)
        · exact ⟨.inl rfl, ne_of_lt (compare_gt_iff_gt.mp hc)⟩
        · exact ⟨.inr hx, hk⟩
      · rintro ⟨rfl | hx, hk⟩
        · exact .inl rfl
        · exact .inr ⟨hx, hk⟩

/-- On a sorted map `entry(k).or_insert(v)` inserts where the key is missing. -/
lemma orInsert_eq (hl : Sorted l) :
    orInsert compare k v l = if k ∈ l.map Prod.fst then l else insert compare k v l := by
  induction l with
  | nil => rfl
  | cons y l ih =>
    obtain ⟨k'', v''⟩ := y
    have hrest : ∀ x ∈ l, k'' < x.1 := fun x hx => List.rel_of_pairwise_cons hl hx
    cases hc : compare k k'' with
    | lt =>
      have hk : k ∉ ((k'', v'') :: l).map Prod.fst := by
        rw [compare_lt_iff_lt] at hc
        simp only [List.map_cons, List.mem_cons, List.mem_map, not_or, not_exists, not_and]
        exact ⟨ne_of_lt hc, fun x hx hxk => absurd (hrest x hx) (hxk ▸ not_lt_of_gt hc)⟩
      simp only [orInsert, insert, hc, if_neg hk]
    | eq =>
      rw [compare_eq_iff_eq] at hc
      subst hc
      simp [orInsert]
    | gt =>
      have hne : k ≠ k'' := ne_of_gt (compare_gt_iff_gt.mp hc)
      simp only [orInsert, insert, hc, ih hl.of_cons, List.map_cons, List.mem_cons, hne,
        false_or]
      split <;> rfl

lemma sorted_orInsert (hl : Sorted l) : Sorted (orInsert compare k v l) := by
  rw [orInsert_eq hl]
  split
  · exact hl
  · exact sorted_insert hl

/-- The entries after `entry(k).or_insert(v)`: the old ones, and the new one if its key was
missing. -/
lemma mem_orInsert_iff (hl : Sorted l) {x : κ × ν} :
    x ∈ orInsert compare k v l ↔ x ∈ l ∨ x = (k, v) ∧ k ∉ l.map Prod.fst := by
  rw [orInsert_eq hl]
  split
  · rename_i hk
    simp [hk]
  · rename_i hk
    rw [mem_insert_iff hl]
    constructor
    · rintro (rfl | ⟨hx, -⟩)
      · exact .inr ⟨rfl, hk⟩
      · exact .inl hx
    · rintro (hx | ⟨rfl, -⟩)
      · refine .inr ⟨hx, fun hxk => hk (hxk ▸ List.mem_map_of_mem hx)⟩
      · exact .inl rfl

lemma sorted_foldl_insert {m : List (κ × ν)} (hm : Sorted m) (xs : List (κ × ν)) :
    Sorted (xs.foldl (fun m x => insert compare x.1 x.2 m) m) := by
  induction xs generalizing m with
  | nil => exact hm
  | cons x xs ih => exact ih (sorted_insert hm)

lemma sorted_ofList (xs : List (κ × ν)) : Sorted (ofList compare xs) :=
  sorted_foldl_insert List.Pairwise.nil xs

/-- Inserting entries of distinct keys, none of them in the map yet, adds them all. -/
lemma mem_foldl_insert_iff {m xs : List (κ × ν)} (hm : Sorted m)
    (hxs : (xs.map Prod.fst).Nodup) (hdisj : ∀ x ∈ xs, x.1 ∉ m.map Prod.fst) {y : κ × ν} :
    y ∈ xs.foldl (fun m x => insert compare x.1 x.2 m) m ↔ y ∈ m ∨ y ∈ xs := by
  induction xs generalizing m with
  | nil => simp
  | cons x xs ih =>
    rw [List.map_cons, List.nodup_cons] at hxs
    have hdisj' : ∀ z ∈ xs, z.1 ∉ (insert compare x.1 x.2 m).map Prod.fst := by
      intro z hz
      rw [mem_keys_insert]
      rintro (h | h)
      · exact hxs.1 (h ▸ List.mem_map_of_mem hz)
      · exact hdisj z (List.mem_cons_of_mem _ hz) h
    rw [List.foldl_cons, ih (sorted_insert hm) hxs.2 hdisj', mem_insert_iff hm, List.mem_cons]
    constructor
    · rintro ((rfl | ⟨hy, -⟩) | hy)
      · exact .inr (.inl rfl)
      · exact .inl hy
      · exact .inr (.inr hy)
    · rintro (hy | rfl | hy)
      · refine .inl (.inr ⟨hy, fun hyx => hdisj x List.mem_cons_self ?_⟩)
        exact hyx ▸ List.mem_map_of_mem hy
      · exact .inl (.inl rfl)
      · exact .inr hy

/-- `from_iter` over entries of distinct keys keeps them all. -/
lemma mem_ofList_iff {xs : List (κ × ν)} (hxs : (xs.map Prod.fst).Nodup) {y : κ × ν} :
    y ∈ ofList compare xs ↔ y ∈ xs := by
  rw [ofList, mem_foldl_insert_iff List.Pairwise.nil hxs (by simp)]
  simp

/-- Keeping some entries and rewriting their values, keys untouched, keeps a map sorted. -/
lemma sorted_filterMap {ν' : Type*} {f : κ × ν → Option (κ × ν')} (hl : Sorted l)
    (hf : ∀ x y, f x = some y → y.1 = x.1) : Sorted (l.filterMap f) := by
  refine List.pairwise_filterMap.mpr (hl.imp fun {x x'} h => ?_)
  intro y hy y' hy'
  rw [hf x y hy, hf x' y' hy']
  exact h

/-- Sorted maps with the same entries are equal. -/
lemma Sorted.eq_of_mem_iff (h₁ : Sorted l₁) (h₂ : Sorted l₂) (h : ∀ x, x ∈ l₁ ↔ x ∈ l₂) :
    l₁ = l₂ :=
  (List.perm_ext_iff_of_nodup (List.Nodup.of_map _ h₁.nodup_keys)
    (List.Nodup.of_map _ h₂.nodup_keys) |>.mpr h).eq_of_pairwise
    (fun _ _ _ _ hab hba => absurd (hab.trans hba) (lt_irrefl _)) h₁ h₂

/-- Keeping the entries that a key-preserving `f` keeps, of a sorted map or of a sorted map
with more entries that `f` drops, gives the same map. -/
lemma filterMap_eq_of_subset {ν' : Type*} {f : κ × ν → Option (κ × ν')} (h₁ : Sorted l₁)
    (h₂ : Sorted l₂) (hf : ∀ x y, f x = some y → y.1 = x.1) (hsub : ∀ x ∈ l₁, x ∈ l₂)
    (hkept : ∀ x ∈ l₂, (f x).isSome → x ∈ l₁) : l₁.filterMap f = l₂.filterMap f := by
  refine (sorted_filterMap h₁ hf).eq_of_mem_iff (sorted_filterMap h₂ hf) fun y => ?_
  simp only [List.mem_filterMap]
  constructor
  · rintro ⟨x, hx, hfx⟩
    exact ⟨x, hsub x hx, hfx⟩
  · rintro ⟨x, hx, hfx⟩
    exact ⟨x, hkept x hx (by rw [hfx]; rfl), hfx⟩

/-! The entries of a map as a multiset: what `ofList`, `insert` and `erase` do to them. -/

omit [LinearOrder κ] in
/-- Lists of distinct keys with the same entries are permutations of each other. -/
lemma perm_of_mem_iff {l₁ l₂ : List (κ × ν)} (h₁ : (l₁.map Prod.fst).Nodup)
    (h₂ : (l₂.map Prod.fst).Nodup) (h : ∀ x, x ∈ l₁ ↔ x ∈ l₂) : l₁.Perm l₂ :=
  (List.perm_ext_iff_of_nodup (List.Nodup.of_map _ h₁) (List.Nodup.of_map _ h₂)).mpr h

lemma perm_ofList {xs : List (κ × ν)} (hxs : (xs.map Prod.fst).Nodup) :
    (ofList compare xs).Perm xs :=
  perm_of_mem_iff (sorted_ofList xs).nodup_keys hxs fun _ => mem_ofList_iff hxs

lemma perm_insert (hl : Sorted l) (hk : k ∉ l.map Prod.fst) :
    (insert compare k v l).Perm ((k, v) :: l) := by
  have hkeys : ((k, v) :: l).map Prod.fst |>.Nodup := List.nodup_cons.mpr ⟨hk, hl.nodup_keys⟩
  refine perm_of_mem_iff (sorted_insert hl).nodup_keys hkeys fun x => ?_
  rw [mem_insert_iff hl, List.mem_cons]
  constructor
  · rintro (rfl | ⟨hx, -⟩)
    · exact .inl rfl
    · exact .inr hx
  · rintro (rfl | hx)
    · exact .inl rfl
    · exact .inr ⟨hx, fun hxk => hk (hxk ▸ List.mem_map_of_mem hx)⟩

lemma perm_erase (hl : Sorted l) (hkv : (k, v) ∈ l) : l.Perm ((k, v) :: erase compare k l) := by
  have hk : k ∉ (erase compare k l).map Prod.fst := by
    simp only [List.mem_map, not_exists, not_and]
    intro x hx hxk
    exact ((mem_erase_iff hl).mp hx).2 hxk
  refine perm_of_mem_iff hl.nodup_keys
    (List.nodup_cons.mpr ⟨hk, (sorted_erase hl).nodup_keys⟩) fun x => ?_
  rw [List.mem_cons, mem_erase_iff hl]
  constructor
  · intro hx
    by_cases hxk : x.1 = k
    · exact .inl (hl.eq_of_fst_eq hx hkv hxk)
    · exact .inr ⟨hx, hxk⟩
  · rintro (rfl | ⟨hx, -⟩)
    · exact hkv
    · exact hx

lemma mem_rangeFrom {x : κ × ν} : x ∈ rangeFrom compare k l ↔ x ∈ l ∧ k ≤ x.1 := by
  simp [rangeFrom, compare_lt_iff_lt]

lemma mem_rangeBelow {x : κ × ν} : x ∈ rangeBelow compare k l ↔ x ∈ l ∧ x.1 < k := by
  simp [rangeBelow, compare_lt_iff_lt]

end Sorted

end SortedMap

end Greptime
